import PrologText.Proofs.Layout

/-!
# Texts that are cut off

Scanning looks at a token and at one glyph behind it. Main statement: a token that is scanned before
the point where a text is cut off behind white space is scanned also in what is left of the text
(`scan_truncates`). With `Scans.prolongs` the text may then go on otherwise behind that point.
-/

namespace PrologText

/-! ## Escape sequences and comments -/

namespace Escape

variable {t m : Text}

theorem numeric_of_fits {base : Nat} {isDigit : Char → Bool} {lead : Text}
    (h : (numeric base isDigit lead (t ++ m)).Fits (lead.length + t.length))
    (hok : ∀ cause, numeric base isDigit lead (t ++ m) ≠ .faulty cause) :
    numeric base isDigit lead (t ++ m) = numeric base isDigit lead t := by
  have hlt : ((t ++ m).takeWhile fun g => isDigit g.code).length < t.length := by
    -- The backslash that ends the sequence lies within the first text.
    unfold numeric at h hok
    simp only at h hok
    split at h
    · next hend => exact absurd (if_pos hend) (hok _)
    · next hend =>
      split at h
      · simp only [Fits] at h
        omega
      · next hvalid => exact absurd (by rw [if_neg hend, if_neg hvalid]) (hok _)
  have hdigits : ((t ++ m).takeWhile fun g => isDigit g.code) =
      t.takeWhile fun g => isDigit g.code := by
    rw [List.takeWhile_append] at hlt ⊢
    split
    · next hall =>
      rw [if_pos hall, List.length_append] at hlt
      omega
    · rfl
  rw [hdigits] at hlt
  have hhead : ((t ++ m).drop (t.takeWhile fun g => isDigit g.code).length).head? =
      (t.drop (t.takeWhile fun g => isDigit g.code).length).head? := by
    obtain ⟨g, u, hu⟩ := List.exists_cons_of_ne_nil
      (l := t.drop (t.takeWhile fun g => isDigit g.code).length) (by simp; omega)
    rw [List.drop_append_of_le_length (Nat.le_of_lt hlt), hu]
    rfl
  simp only [numeric, hdigits, hhead]

/-- An escape sequence depends on the glyphs that it takes alone. -/
theorem ofText_of_fits (ht : t ≠ []) (h : (ofText (t ++ m)).Fits t.length)
    (hok : ∀ cause, ofText (t ++ m) ≠ .faulty cause) : ofText (t ++ m) = ofText t := by
  obtain ⟨g, t, rfl⟩ := List.exists_cons_of_ne_nil ht
  by_cases hn : g = .char '\n'
  · subst hn
    rfl
  by_cases hx : g = .char 'x'
  · subst hx
    refine numeric_of_fits ?_ hok
    rwa [List.length_singleton, Nat.add_comm]
  by_cases hr : ∃ u, g :: (t ++ m) = .char '\r' :: .char '\n' :: u
  · obtain ⟨u, hu⟩ := hr
    obtain ⟨rfl, hu⟩ := List.cons.inj hu
    obtain _ | ⟨g', t⟩ := t
    · -- A line break of two glyphs would not fit.
      rw [List.cons_append, hu] at h
      simp [ofText, Fits] at h
    · cases hu
      rfl
  · have hr' (u : Text) : g :: t ≠ .char '\r' :: .char '\n' :: u := by
      intro hu
      exact hr ⟨u ++ m, by rw [← List.cons_append, hu]; rfl⟩
    have hr := not_exists.1 hr
    rw [List.cons_append] at h hok ⊢
    rw [ofText_cons_of_ne hx hn hr] at h hok ⊢
    rw [ofText_cons_of_ne hx hn hr']
    by_cases hself : g.code ∈ ['\\', '\'', '"', '\x60']
    · simp only [hself, if_true]
    by_cases hoctal : CharClass.isOctal g.code = true
    · simp only [hself, hoctal, if_true, if_false] at h hok ⊢
      cases hc : control? g.code with
      | some control => rfl
      | none =>
        rw [hc] at h hok
        rw [← List.cons_append] at h hok ⊢
        exact numeric_of_fits (by simpa using h) hok
    · simp only [hself, hoctal, Bool.false_eq_true, if_false]

end Escape

theorem commentLengthFrom_of_le {t m : Text} {n k : Nat}
    (h : commentLengthFrom n (t ++ m) = some k) (hk : k ≤ n + t.length) :
    commentLengthFrom n t = some k := by
  fun_induction commentLengthFrom n t with
  | case1 n =>
    obtain ⟨body, u, -, rfl, -⟩ := exists_of_commentLengthFrom h
    simp only [List.length_nil] at hk
    omega
  | case2 n t => simpa [commentLengthFrom] using h
  | case3 n g t hnot ih =>
    rw [List.cons_append] at h
    by_cases hend : ∃ u, g = .char '*' ∧ t ++ m = .char '/' :: u
    · obtain ⟨u, rfl, hu⟩ := hend
      obtain _ | ⟨g', t⟩ := t
      · rw [hu] at h
        simp only [commentLengthFrom, Option.some.injEq] at h
        simp only [List.length_singleton] at hk
        omega
      · cases hu
        exact absurd rfl (hnot t rfl)
    · rw [commentLengthFrom] at h
      · exact ih h (by simpa only [List.length_cons, Nat.add_assoc, Nat.add_comm 1] using hk)
      · exact fun u hg hu => hend ⟨u, hg, hu⟩

/-! ## Cursors before the point -/

/-- A cursor before the point where what is added starts. -/
def Cursor.ShortOf (m : Text) (ms : List Text) (e : Cursor) : Prop :=
  (m ++ ms.flatten).length < e.remaining.length

section

variable {m : Text} {ms : List Text} {c e e' : Cursor}

theorem Cursor.Leads.shortOf (h : e.Leads e') (hb : e'.ShortOf m ms) : e.ShortOf m ms :=
  Nat.lt_of_lt_of_le hb h.suffix.length_le

namespace Cursor.Prolongs

/-- A cursor that moves on, but not to the point, moves on likewise in the text that is cut off. -/
theorem advance_of_shortOf (h : c.Prolongs m ms e) {n : Nat} (hn : n ≤ e.rest.length)
    (hb : (e.advance n).ShortOf m ms) :
    n ≤ c.rest.length ∧ (c.advance n).Prolongs m ms (e.advance n) := by
  have hlt : n < c.remaining.length := by
    rw [ShortOf, remaining_advance hn, h.remaining] at hb
    simp only [List.length_drop, List.length_append] at hb
    omega
  have hle : n ≤ c.rest.length := by
    rcases h.line_cases with ⟨hl, -, -⟩ | ⟨-, hr, -⟩
    · rw [Cursor.remaining, hl, List.flatten_nil, List.append_nil] at hlt
      exact Nat.le_of_lt hlt
    · rwa [hr] at hn
  refine ⟨hle, h.advance hle (.inr ?_)⟩
  rw [remaining_advance hle]
  exact List.ne_nil_of_length_pos (by rw [List.length_drop]; omega)

theorem toLineEnd_of_shortOf (h : c.Prolongs m ms e) (hb : e.toLineEnd.ShortOf m ms) :
    e.rest = c.rest ∧ c.toLineEnd.Prolongs m ms e.toLineEnd := by
  obtain ⟨hle, hp⟩ := h.advance_of_shortOf (Nat.le_refl _) hb
  have hrest : e.rest = c.rest := by
    obtain ⟨u, hu, -, -⟩ := h.rest
    have hlength := congrArg List.length hu
    rw [List.length_append] at hlength
    rw [hu, List.eq_nil_of_length_eq_zero (by omega : u.length = 0), List.append_nil]
  refine ⟨hrest, ?_⟩
  rw [Cursor.toLineEnd, ← hrest]
  exact hp

theorem nextLine_of_shortOf (h : c.Prolongs m ms e) {l' : Text} {ls' : List Text}
    (hl' : e.later = l' :: ls') (hb : (atLine (e.number + 1) l' ls' e.ending).ShortOf m ms) :
    e.rest = c.rest ∧ ∃ l ls, c.later = l :: ls ∧
      (atLine (c.number + 1) l ls c.ending).Prolongs m ms
        (atLine (e.number + 1) l' ls' e.ending) := by
  have hlength : (m ++ ms.flatten).length < e.later.flatten.length := by
    rw [hl']
    exact hb
  rcases h.line_cases with ⟨-, -, hlater⟩ | ⟨hne, -, hlater⟩
  · -- The lines behind the last one are all added.
    rw [hlater, List.length_append] at hlength
    omega
  · obtain ⟨l, ls, hl⟩ := List.exists_cons_of_ne_nil hne
    have hopen : (atLine (c.number + 1) l ls c.ending).Open m ms := by
      rw [hlater, hl, Text.flatten_glue m ms (List.cons_ne_nil l ls)] at hlength
      simp only [List.length_append] at hlength
      refine .inr (List.ne_nil_of_length_pos ?_)
      rw [show (atLine (c.number + 1) l ls c.ending).remaining = (l :: ls).flatten from rfl]
      omega
    obtain ⟨hr, k, ks, hk, hp⟩ := h.nextLine hl hopen
    obtain ⟨rfl, rfl⟩ := List.cons.inj (hk.symm.trans hl')
    exact ⟨hr, l, ls, hl, hp⟩

end Cursor.Prolongs

/-- A block comment that ends before the point ends in the text that is cut off. -/
theorem open_of_afterComment? {later : List Text} (h : c.Prolongs m ms e) (hl : e.later = later)
    (hs : afterComment? e later = some e') (hb : e'.ShortOf m ms) :
    ∃ d, afterComment? c c.later = some d ∧ d.Open m ms := by
  have hhere {n : Nat} {c e : Cursor} (h : c.Prolongs m ms e)
      (hn : commentLengthFrom 0 e.rest = some n) (hb : (e.advance n).ShortOf m ms) :
      ∃ d, afterComment? c c.later = some d ∧ d.Open m ms := by
    obtain ⟨hle, hp⟩ := h.advance_of_shortOf (by simpa using commentLengthFrom_le hn) hb
    obtain ⟨u, hu, -, -⟩ := h.rest
    have hn' : commentLengthFrom 0 c.rest = some n :=
      commentLengthFrom_of_le (hu ▸ hn) (by omega)
    exact ⟨_, afterComment?_of_some hn' _, hp.open⟩
  induction later generalizing c e with
  | nil =>
    obtain ⟨n, hn, rfl⟩ := Option.map_eq_some_iff.1 hs
    exact hhere h hn hb
  | cons l' ls' ih =>
    cases hn : commentLengthFrom 0 e.rest with
    | some n =>
      rw [afterComment?_of_some hn] at hs
      cases hs
      exact hhere h hn hb
    | none =>
      simp only [afterComment?, hn] at hs
      obtain ⟨hr, l, ls, hlater, hp⟩ :=
        h.nextLine_of_shortOf hl ((leads_afterComment? rfl hs).shortOf hb)
      obtain ⟨d, hd, ho⟩ := ih hp rfl hs
      refine ⟨d, ?_, ho⟩
      simp only [hlater, afterComment?, ← hr, hn]
      exact hd

/-! ## Scanning -/

/-- A step that takes no more than `n` glyphs. -/
def QuotedStep.Within (n : Nat) : QuotedStep → Prop
  | closed _ k | more _ k => k ≤ n
  | _ => False

theorem QuotedForm.open_of_step {f : QuotedForm} {seen t u : Text} (ht : u = [] ∨ t.EndsBlank)
    (h : (f.step seen (t ++ u)).Within t.length) : (f.step seen t).Open u := by
  rcases ht with rfl | hends
  · cases f.step seen t <;> trivial
  obtain ⟨g, t, rfl⟩ := List.exists_cons_of_ne_nil hends.ne_nil
  simp only [List.cons_append, step] at h ⊢
  by_cases hg : g = .char f.quote
  · simp only [hg, if_true]
    split
    · split <;> trivial
    · trivial
  by_cases hesc : g = .char '\\' ∧ f.escapes
  · rw [if_neg hg, if_pos hesc] at h ⊢
    have hne : t ≠ [] := (hends.tail (by rw [hesc.1]; decide)).ne_nil
    have heq : Escape.ofText (t ++ u) = Escape.ofText t := by
      refine Escape.ofText_of_fits hne ?_ fun cause hlong => ?_
      · cases hlong : Escape.ofText (t ++ u) with
        | faulty => trivial
        | lineBreak n =>
          rw [hlong] at h
          exact Nat.le_of_succ_le_succ h
        | character ch n =>
          simp only [hlong] at h
          split at h <;> exact Nat.le_of_succ_le_succ h
      · rw [hlong] at h
        exact h
    rw [heq] at h
    cases hshort : Escape.ofText t with
    | faulty =>
      rw [hshort] at h
      exact h.elim
    | lineBreak => trivial
    | character =>
      simp only
      split <;> trivial
  · simp only [hg, hesc, if_false]
    split <;> trivial

theorem open_of_scanQuoted {f : QuotedForm} {seen text : Text}
    (hq : CharClass.isBlank f.quote = false) (h : c.Prolongs m ms e)
    (hs : scanQuoted f seen e = .closed text e') (hb : e'.ShortOf m ms) :
    (scanQuoted f seen c).Open m ms := by
  induction hn : c.unread using Nat.strongRecOn generalizing seen c e with
  | _ k ih =>
    subst hn
    have hfits := f.step_fits seen e.fill.rest
    obtain ⟨u, hrest, -, hu⟩ := h.fill.rest
    -- A step before the point is made in the text that is cut off as well.
    have hsame (hwithin : (f.step seen e.fill.rest).Within c.fill.rest.length) :
        f.step seen c.fill.rest = f.step seen e.fill.rest := by
      rw [hrest] at hwithin ⊢
      exact (f.step_prolong hq seen hu (f.open_of_step hu hwithin)).symm
    rw [scanQuoted_eq] at hs ⊢
    cases hlong : f.step seen e.fill.rest with
    | unclosed | faulty =>
      rw [hlong] at hs
      cases hs
    | closed text' n =>
      rw [hlong] at hs hfits
      cases hs
      obtain ⟨hle, hp⟩ := h.fill.advance_of_shortOf hfits.2 hb
      rw [hsame (hlong ▸ hle), hlong]
      exact hp.open
    | more seen' n =>
      rw [hlong] at hs hfits
      have hahead := scanQuoted_ahead f seen' (e.fill.advance n)
      rw [show scanQuoted f seen' (e.fill.advance n) = _ from hs] at hahead
      obtain ⟨hle, hp⟩ := h.fill.advance_of_shortOf hfits.2 (hahead.shortOf hb)
      rw [hsame (hlong ▸ hle), hlong]
      exact ih _ (c.unread_fill_advance_lt hfits.1 hle) hp hs rfl

/-- A token that ends before the point. -/
def Scan.ShortOf (m : Text) (ms : List Text) : Scan → Prop
  | token _ after => after.ShortOf m ms
  | _ => False

namespace Scan

variable {s s' : Scan} {start start' : Cursor} {layout : Bool}

theorem ShortOf.leads (h : s.ShortOf m ms) (ha : s.Ahead e) : e.ShortOf m ms := by
  cases s with
  | token => exact Cursor.Leads.shortOf ha h
  | fault | failure => exact h.elim

theorem shortOf_of_name {kind : TokenKind} {text : Text} {after : Cursor}
    (h : (name kind text layout start after).ShortOf m ms) : after.ShortOf m ms := by
  unfold name at h
  split at h
  · exact h.elim
  · exact h

theorem shortOf_of_dot {after : Cursor} (h : (dot layout start after).ShortOf m ms) :
    after.ShortOf m ms := by
  unfold dot at h
  split at h
  · exact h.elim
  · split at h <;> exact h

theorem closed_of_quoted {f : QuotedForm} {inside : Cursor}
    (h : (quoted f layout start inside).ShortOf m ms) :
    ∃ text after, scanQuoted f [] inside = .closed text after ∧ after.ShortOf m ms := by
  unfold quoted at h
  cases hq : scanQuoted f [] inside with
  | unclosed stopped =>
    simp only [hq, unended] at h
    split at h <;> exact h.elim
  | faulty =>
    rw [hq] at h
    exact h.elim
  | closed text after =>
    simp only [hq] at h
    split at h
    · exact ⟨text, after, rfl, shortOf_of_name h⟩
    · exact ⟨text, after, rfl, h⟩

theorem name_open {kind : TokenKind} {text : Text} {after after' : Cursor}
    (h : after.Prolongs m ms after') : (name kind text layout start after).Open m ms := by
  simp only [name, h.peek.1]
  exact h.open

theorem dot_open {after after' : Cursor} (h : after.Prolongs m ms after') :
    (dot layout start after).Open m ms := by
  simp only [dot, h.peek.1]
  split <;> exact h.open

theorem quoted_open {f : QuotedForm} {n : Nat} (hq : CharClass.isBlank f.quote = false)
    (h : start.Prolongs m ms start') (hn : n ≤ start'.rest.length)
    (hs : (quoted f layout start' (start'.advance n)).ShortOf m ms) :
    (quoted f layout start (start.advance n)).Open m ms := by
  obtain ⟨text, after', hclosed, hafter⟩ := closed_of_quoted hs
  have hahead := scanQuoted_ahead f [] (start'.advance n)
  rw [hclosed] at hahead
  obtain ⟨-, hp⟩ := h.advance_of_shortOf hn (hahead.shortOf hafter)
  have hsame := scanQuoted_prolongs hq hp (open_of_scanQuoted hq hp hclosed hafter)
  unfold quoted
  rw [hclosed] at hsame
  generalize scanQuoted f [] (start.advance n) = q at hsame
  cases hsame with
  | closed hp =>
    simp only
    split
    · exact name_open hp
    · exact hp.open

theorem lexeme_open {flags : Flags} {ch : Char} (h : start.Prolongs m ms start')
    (hr : start'.rest ≠ []) (hs : (lexeme flags layout ch start').ShortOf m ms) :
    (lexeme flags layout ch start).Open m ms := by
  have hfits := (Lexeme.ofText_fits ch hr).length_le
  unfold lexeme at hs ⊢
  rw [h.lexeme_eq] at hs hfits
  cases hl : Lexeme.ofText ch start.rest with
  | plain kind lead length =>
    rw [hl] at hs hfits
    exact (h.advance_of_shortOf hfits hs).2.open
  | name length =>
    rw [hl] at hs hfits
    exact name_open (h.advance_of_shortOf hfits (shortOf_of_name hs)).2
  | dot =>
    rw [hl] at hs hfits
    exact dot_open (h.advance_of_shortOf hfits (shortOf_of_dot hs)).2
  | quotedText q =>
    rw [hl] at hs hfits
    exact quoted_open (Lexeme.isBlank_of_quotedText hl) h hfits hs
  | charCode =>
    rw [hl] at hs hfits
    exact quoted_open (show CharClass.isBlank '\'' = false by decide) h hfits hs
  | unknown c =>
    rw [hl] at hs
    exact hs.elim

end Scan

theorem Cursor.Prolongs.exists_rest {g : Glyph} {t : Text} (h : c.Prolongs m ms e)
    (hr : e.rest = g :: t) : ∃ t', c.rest = g :: t' := by
  have hne : c.rest ≠ [] := fun hnil => by simp [h.rest_eq_nil.2 hnil] at hr
  obtain ⟨g', t', hrest⟩ := List.exists_cons_of_ne_nil hne
  obtain ⟨u, hu, -, -⟩ := h.rest
  rw [hr, hrest, List.cons_append] at hu
  exact ⟨t', by rw [hrest, (List.cons.inj hu).1]⟩

/-- Whether a comment opens does not depend on what is added. -/
theorem Cursor.Prolongs.opensComment_of_rest {g : Glyph} {t t' : Text} (h : c.Prolongs m ms e)
    (hd : e.fill.rest = g :: t) (ht' : c.fill.rest = g :: t')
    (hb : ¬CharClass.isBlank g.code = true) :
    Lexeme.opensComment (g :: t) = Lexeme.opensComment (g :: t') := by
  obtain ⟨u, hu, hopen⟩ := h.opensComment_eq ht' hb
  rw [hd] at hu
  rw [hu, hopen]

/-- A block comment that opens at a cursor and ends before the point. -/
theorem Cursor.Prolongs.exists_afterOpening {g : Glyph} {t : Text} (h : c.Prolongs m ms e)
    (hd : e.fill.rest = g :: t) (hb : ¬CharClass.isBlank g.code = true)
    (hc : Lexeme.opensComment (g :: t) = true)
    (ha : afterComment? (e.fill.advance 2) e.fill.later = some e') (hs : e'.ShortOf m ms) :
    ∃ t', c.fill.rest = g :: t' ∧ Lexeme.opensComment (g :: t') = true ∧
      ∃ d, afterComment? (c.fill.advance 2) c.fill.later = some d ∧ d.Open m ms ∧
        d.Prolongs m ms e' := by
  obtain ⟨t', ht'⟩ := h.fill.exists_rest hd
  have hinside := leads_afterComment? (c := e.fill.advance 2) rfl ha
  obtain ⟨-, hp⟩ := h.fill.advance_of_shortOf (hd ▸ Lexeme.two_le_of_opensComment hc)
    (hinside.shortOf hs)
  obtain ⟨d, hd', ho⟩ := open_of_afterComment? hp rfl ha hs
  obtain ⟨d', hd'', hafter⟩ := afterComment?_prolongs hp rfl hd' ho
  cases hd''.symm.trans ha
  exact ⟨t', ht', (h.opensComment_of_rest hd ht' hb).symm.trans hc, d, hd', ho, hafter⟩

/-- A token before the point is scanned in the text that is cut off. -/
theorem scanFrom_open (flags : Flags) (layout : Bool) (e : Cursor) :
    ∀ c, Cursor.Prolongs m ms c e → (scanFrom flags layout e).ShortOf m ms →
      (scanFrom flags layout c).Open m ms := by
  fun_induction scanFrom flags layout e with
  | case1 => exact fun c h hs => hs.elim
  | case2 layout e d hd he =>
    intro c h hs
    have hnil : e.fill.remaining = [] := e.remaining_fill.trans (Cursor.remaining_of_fill_nil hd)
    rw [Scan.ShortOf, Cursor.ShortOf, hnil] at hs
    exact absurd hs (Nat.not_lt_zero _)
  | case3 layout e d g t hd _ _ hb _ ih =>
    intro c h hs
    obtain ⟨t', ht'⟩ := h.fill.exists_rest hd
    have hp := h.fill.advance_of_shortOf (n := 1) (by simp [show e.fill.rest = _ from hd])
      (hs.leads (scanFrom_ahead ..))
    rw [scanFrom_blank layout ht' hb]
    exact ih _ hp.2 hs
  | case4 layout e d t _ after hk hd _ hb =>
    intro c h hs
    obtain ⟨t', ht'⟩ := h.fill.exists_rest hd
    obtain ⟨-, hp⟩ := h.fill.toLineEnd_of_shortOf hs
    simp only [scanFrom_eq flags layout c, ht', hb, hk, if_true]
    exact hp.open
  | case5 layout e d t _ after hk hd _ _ _ ih =>
    intro c h hs
    obtain ⟨t', ht'⟩ := h.fill.exists_rest hd
    obtain ⟨-, hp⟩ := h.fill.toLineEnd_of_shortOf (hs.leads (scanFrom_ahead ..))
    rw [scanFrom_line layout (by simpa using hk) ht']
    exact ih _ hp hs
  | case6 =>
    intro c h hs
    unfold Scan.unended at hs
    split at hs <;> exact hs.elim
  | case7 layout e d g t hd _ _ hb hp hc after ha hk =>
    intro c h hs
    obtain ⟨t', ht', ho, d, hd, hopen, -⟩ := h.exists_afterOpening hd hb hc ha hs
    simp only [scanFrom_eq flags layout c, ht', hb, hp, ho, hd, hk, if_true, if_false]
    exact hopen
  | case8 layout e d g t hd _ _ hb hp hc after ha hk _ ih =>
    intro c h hs
    obtain ⟨t', ht', ho, d, hd, -, hafter⟩ :=
      h.exists_afterOpening hd hb hc ha (hs.leads (scanFrom_ahead ..))
    simp only [scanFrom_eq flags layout c, ht', hb, hp, ho, hd, hk, if_true, if_false]
    exact ih _ hafter hs
  | case9 layout e d g t hd hne _ hb hp hc =>
    intro c h hs
    obtain ⟨t', ht'⟩ := h.fill.exists_rest hd
    have ho := h.opensComment_of_rest hd ht' hb
    rw [scanFrom_eq_lexeme ht' (by simpa using hb) hp (by simpa [← ho] using hc)]
    exact Scan.lexeme_open h.fill hne hs

/-- A token that is scanned before the point is scanned also in the text that is cut off there. -/
theorem scan_truncates {flags : Flags} {t' : Token} (h : c.Prolongs m ms e)
    (hs : scan flags e = .token t' e') (hb : e'.ShortOf m ms) :
    ∃ t after, scan flags c = .token t after ∧ t.unplaced = t'.unplaced ∧
      after.Prolongs m ms e' := by
  have hshort : (scan flags e).ShortOf m ms := by rwa [hs]
  have hsame := scan_prolongs flags h (scanFrom_open flags false e c h hshort)
  rw [hs] at hsame
  generalize scan flags c = s at hsame
  cases hsame with
  | token ht hafter => exact ⟨_, _, rfl, ht, hafter⟩

/-- Tokens that are scanned before the point are scanned also in the text that is cut off there. -/
theorem Scans.truncates {flags : Flags} {ts' : List Token} (hs : Scans flags e ts' e')
    (h : c.Prolongs m ms e) (hb : e'.ShortOf m ms) :
    ∃ ts c', Scans flags c ts c' ∧ c'.Prolongs m ms e' := by
  induction hs generalizing c with
  | nil => exact ⟨[], c, .nil, h⟩
  | cons ht hs ih =>
    obtain ⟨t, after, hscan, -, hafter⟩ := scan_truncates h ht (hs.leads.shortOf hb)
    obtain ⟨ts, c', hts, hc'⟩ := ih hafter hb
    exact ⟨t :: ts, c', .cons hscan hts, hc'⟩

/-- Tokens at the start of a text are scanned also if the text goes on. -/
theorem Scans.prolongs {flags : Flags} {c' : Cursor} {ts : List Token} (hs : Scans flags c ts c')
    (h : c.Prolongs m ms e) (ho : c'.Open m ms) :
    ∃ us e', Scans flags e us e' ∧ ts.map Token.unplaced = us.map Token.unplaced ∧
      c'.Prolongs m ms e' := by
  induction hs generalizing e with
  | nil => exact ⟨[], e, .nil, rfl, h⟩
  | cons ht hs ih =>
    obtain ⟨u, after, hu, htu, hafter⟩ := scan_token_prolongs ht h (hs.leads.open ho)
    obtain ⟨us, e', hus, heq, he'⟩ := ih hafter ho
    exact ⟨u :: us, e', .cons hu hus, by rw [List.map_cons, List.map_cons, htu, heq], he'⟩

end

end PrologText
