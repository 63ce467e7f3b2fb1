import PrologText.Token.Progress

/-!
# How cursors move

Scanning moves a cursor on within its lines and never past the end of one (`Cursor.Leads`). Main
statements: the text between two cursors and what remains at the second make up what remained at the
first (`Cursor.Leads.remaining_eq`), and every cursor that scanning comes to is ahead of the one it
set out from (`leads_of_scan_token`).
-/

namespace PrologText

namespace Cursor

/-- All glyphs before a cursor, those of later lines among them. -/
def remaining (c : Cursor) : Text :=
  c.rest ++ c.later.flatten

/-- A cursor is not past the end of its line. -/
def InLine (c : Cursor) : Prop :=
  c.column ≤ c.whole.length

/-- The second cursor stands in the same lines, at the same place or further on. -/
structure Leads (c d : Cursor) : Prop where
  ending : d.ending = c.ending
  lines :
    (d.number = c.number ∧ d.whole = c.whole ∧ d.later = c.later ∧ c.column ≤ d.column) ∨
      (c.number < d.number ∧ c.later.drop (d.number - c.number - 1) = d.whole :: d.later)
  inLine : c.InLine → d.InLine

variable {c d e : Cursor}

theorem advance_advance (c : Cursor) (n k : Nat) : (c.advance n).advance k = c.advance (n + k) := by
  simp only [advance, List.drop_drop, Nat.add_assoc]

theorem inLine_atLine (number : Nat) (line : Text) (later : List Text) (ending : Ending) :
    (atLine number line later ending).InLine :=
  Nat.zero_le _

theorem inLine_ofText (t : Text) : (ofText t).InLine := by
  unfold ofText ofLines
  split <;> exact inLine_atLine ..

theorem ending_ofText (t : Text) : (ofText t).ending = .endOfInput := by
  unfold ofText ofLines
  split <;> rfl

namespace Leads

theorem refl (c : Cursor) : c.Leads c :=
  ⟨rfl, .inl ⟨rfl, rfl, rfl, Nat.le_refl _⟩, id⟩

theorem number_le (h : c.Leads d) : c.number ≤ d.number :=
  h.lines.elim (fun h => Nat.le_of_eq h.1.symm) (fun h => Nat.le_of_lt h.1)

theorem trans (h : c.Leads d) (h' : d.Leads e) : c.Leads e := by
  refine ⟨h'.ending.trans h.ending, ?_, h'.inLine ∘ h.inLine⟩
  rcases h.lines with ⟨hn, hw, hl, hc⟩ | ⟨hn, hl⟩
  · rcases h'.lines with ⟨hn', hw', hl', hc'⟩ | ⟨hn', hl'⟩
    · exact .inl ⟨hn'.trans hn, hw'.trans hw, hl'.trans hl, Nat.le_trans hc hc'⟩
    · exact .inr ⟨hn ▸ hn', by rw [← hl, ← hn, hl']⟩
  · rcases h'.lines with ⟨hn', hw', hl', -⟩ | ⟨hn', hl'⟩
    · exact .inr ⟨hn' ▸ hn, by rw [hn', hl, hw', hl']⟩
    · refine .inr ⟨Nat.lt_trans hn hn', ?_⟩
      have hsum : e.number - c.number - 1 =
          d.number - c.number - 1 + ((e.number - d.number - 1) + 1) := by omega
      rw [hsum, ← List.drop_drop, hl, List.drop_succ_cons, hl']

end Leads

theorem leads_advance {n : Nat} (h : n ≤ c.rest.length) : c.Leads (c.advance n) := by
  refine ⟨rfl, .inl ⟨rfl, rfl, rfl, Nat.le_add_right _ _⟩, fun hc => ?_⟩
  have hrest : c.rest.length = c.whole.length - c.column := by rw [c.rest_eq, List.length_drop]
  simp only [InLine, advance] at hc ⊢
  omega

theorem leads_toLineEnd (c : Cursor) : c.Leads c.toLineEnd :=
  leads_advance (Nat.le_refl _)

theorem leads_atLine {line : Text} {later : List Text} (h : c.later = line :: later) :
    c.Leads (atLine (c.number + 1) line later c.ending) := by
  refine ⟨rfl, .inr ⟨Nat.lt_succ_self _, ?_⟩, fun _ => inLine_atLine ..⟩
  simp [atLine, h]

theorem leads_skipEmpty {later : List Text} (h : c.later = later) :
    c.Leads (c.skipEmpty later) := by
  induction later generalizing c with
  | nil => exact .refl c
  | cons line later ih =>
    simp only [skipEmpty]
    split
    · exact (leads_atLine h).trans (ih rfl)
    · exact leads_atLine h

theorem leads_fill (c : Cursor) : c.Leads c.fill := by
  unfold fill
  split
  · exact leads_skipEmpty rfl
  · exact .refl c

theorem leads_toEndOf {later : List Text} (h : c.later = later) : c.Leads (c.toEndOf later) := by
  induction later generalizing c with
  | nil => exact leads_toLineEnd c
  | cons line later ih => exact (leads_atLine h).trans (ih rfl)

theorem leads_toEnd (c : Cursor) : c.Leads c.toEnd :=
  leads_toEndOf rfl

theorem take_column_append_rest (c : Cursor) : c.whole.take c.column ++ c.rest = c.whole := by
  rw [c.rest_eq, List.take_append_drop]

/-- The text up to a later cursor and what remains there are all that remained. -/
theorem Leads.remaining_eq (h : c.Leads d) : c.remaining = c.upTo d ++ d.remaining := by
  rcases h.lines with ⟨hn, hw, hl, hc⟩ | ⟨hn, hl⟩
  · have hrest : d.rest = c.rest.drop (d.column - c.column) := by
      rw [d.rest_eq, c.rest_eq, List.drop_drop, hw, Nat.add_sub_cancel' hc]
    rw [upTo, if_pos hn.symm, remaining, remaining, hl, hrest, ← List.append_assoc,
      List.take_append_drop]
  · have hlater : c.later =
        c.later.take (d.number - c.number - 1) ++ d.whole :: d.later := by
      rw [← hl, List.take_append_drop]
    rw [upTo, if_neg (Nat.ne_of_lt hn), remaining, remaining]
    conv => lhs; rw [hlater]
    rw [List.flatten_append, List.flatten_cons]
    conv => lhs; rw [← d.take_column_append_rest]
    simp only [List.append_assoc]

theorem Leads.suffix (h : c.Leads d) : d.remaining <:+ c.remaining :=
  ⟨c.upTo d, h.remaining_eq.symm⟩

end Cursor

/-! ## Lexemes lie within the line -/

namespace Lexeme

/-- A lexeme takes no more than `n` glyphs, and its text starts within it. -/
def Fits (n : Nat) : Lexeme → Prop
  | plain _ lead length => lead ≤ length ∧ length ≤ n
  | l => l.length ≤ n

theorem run_le (p : Char → Bool) (t : Text) : run p t ≤ t.length :=
  (List.takeWhile_sublist _).length_le

theorem two_le_of_opensComment {t : Text} (h : opensComment t = true) : 2 ≤ t.length := by
  unfold opensComment at h
  split at h
  · exact Nat.le_add_left 2 _
  · cases h

theorem graphicRunFrom_le (n : Nat) (t : Text) : graphicRunFrom n t ≤ n + t.length := by
  induction t generalizing n with
  | nil => exact Nat.le_refl _
  | cons g t ih =>
    simp only [graphicRunFrom]
    split
    · have := ih (n + 1)
      simp only [List.length_cons]
      omega
    · omega

theorem graphicRun_le (t : Text) : graphicRun t ≤ t.length := by
  have := graphicRunFrom_le 0 t
  rwa [Nat.zero_add] at this

theorem digitGroupsFrom_le (p : Char → Bool) (n : Nat) (t : Text) :
    digitGroupsFrom p n t ≤ n + t.length := by
  fun_induction digitGroupsFrom p n t <;> simp only [List.length_cons, List.length_nil] <;> omega

theorem digitGroups_le (p : Char → Bool) (t : Text) : digitGroups p t ≤ t.length := by
  have := digitGroupsFrom_le p 0 t
  rwa [Nat.zero_add] at this

theorem exponentLength_le (t : Text) : exponentLength t ≤ t.length := by
  unfold exponentLength
  split
  · next c t =>
    -- The digits are counted behind the sign, so there is a sign only if there is room for it.
    have hbound (sign : Nat) : (if run CharClass.isDecimal (t.drop sign) = 0 then 0
        else 1 + sign + run CharClass.isDecimal (t.drop sign)) ≤ t.length + 1 := by
      have hrun := run_le CharClass.isDecimal (t.drop sign)
      rw [List.length_drop] at hrun
      split <;> omega
    split
    · exact hbound _
    · exact Nat.zero_le _
  · exact Nat.zero_le _

theorem floatLength_le (t : Text) : floatLength t ≤ t.length := by
  unfold floatLength
  simp only
  split
  · next rest h =>
    have hlen := congrArg List.length h
    have hfraction := digitGroups_le CharClass.isDecimal rest
    have hexponent := exponentLength_le (rest.drop (digitGroups CharClass.isDecimal rest))
    simp only [List.length_drop, List.length_cons] at hlen hexponent
    split <;> omega
  · exact Nat.zero_le _

theorem basedInteger?_le {t : Text} {base digits : Nat}
    (h : basedInteger? t = some (base, digits)) : 2 + digits ≤ t.length := by
  unfold basedInteger? at h
  split at h
  · next x t =>
    split at h
    · cases h
    · next isDigit _ =>
      have := digitGroups_le isDigit t
      simp only at h
      split at h
      · cases h
      · cases h
        simp only [List.length_cons]
        omega
  · cases h

theorem number_fits (t : Text) : (number t).Fits t.length := by
  unfold number
  split
  · simp [Fits, length]
  · split
    · next h => exact ⟨Nat.le_add_right _ _, basedInteger?_le h⟩
    · split
      · exact ⟨Nat.zero_le _, digitGroups_le _ _⟩
      · exact ⟨Nat.zero_le _, floatLength_le _⟩

theorem ofText_fits (c : Char) {t : Text} (ht : t ≠ []) : (ofText c t).Fits t.length := by
  have hpos : 1 ≤ t.length := List.length_pos_iff.2 ht
  unfold ofText
  split
  · exact run_le _ _
  · split
    · have := graphicRun_le t
      simp only
      split
      · exact hpos
      · simp only [Fits, length]
        split <;> omega
    · split
      · exact hpos
      · split
        · exact number_fits t
        · split
          · exact ⟨Nat.zero_le _, run_le _ _⟩
          · split
            · exact hpos
            · split
              · exact ⟨Nat.zero_le _, hpos⟩
              · exact hpos

theorem Fits.length_le {n : Nat} {l : Lexeme} (h : l.Fits n) : l.length ≤ n := by
  cases l with
  | plain => exact h.2
  | _ => exact h

end Lexeme

/-- An escape sequence takes no more than `n` glyphs. -/
def Escape.Fits (n : Nat) : Escape → Prop
  | lineBreak length | character _ length => length ≤ n
  | faulty _ => True

theorem Escape.numeric_fits (base : Nat) (isDigit : Char → Bool) (lead t : Text) :
    (numeric base isDigit lead t).Fits (lead.length + t.length) := by
  unfold numeric
  simp only
  split
  · trivial
  · next h =>
    -- The backslash that ends the digits is a glyph of its own.
    have hlen : (t.takeWhile fun g => isDigit g.code).length < t.length := by
      apply Decidable.byContradiction
      intro hle
      have hdrop := List.drop_eq_nil_of_le (Nat.le_of_not_lt hle)
      simp [hdrop] at h
    split
    · simp only [Fits]
      omega
    · trivial

theorem Escape.ofText_fits (t : Text) : (ofText t).Fits t.length := by
  unfold ofText
  split
  · trivial
  · simp [Fits]
  · simp [Fits]
  · next t =>
    have := numeric_fits 16 CharClass.isHexadecimal [.char 'x'] t
    rwa [List.length_singleton, Nat.add_comm] at this
  · next g t _ _ _ =>
    simp only
    split
    · simp [Fits]
    · split
      · simp [Fits]
      · split
        · have := numeric_fits 8 CharClass.isOctal [] (g :: t)
          rwa [List.length_nil, Nat.zero_add] at this
        · trivial

theorem commentLengthFrom_le {n m : Nat} {t : Text} (h : commentLengthFrom n t = some m) :
    m ≤ n + t.length := by
  fun_induction commentLengthFrom n t with
  | case1 => cases h
  | case2 =>
    cases h
    simp only [List.length_cons]
    omega
  | case3 _ _ _ _ ih =>
    have := ih h
    simp only [List.length_cons]
    omega

/-! ## Scanning, case by case -/

/-- What the rest of a line makes of quoted text. -/
inductive QuotedStep where
  /-- There is nothing left of the line. -/
  | unclosed
  | faulty (cause : SyntaxCause)
  /-- The text is complete behind `n` glyphs. -/
  | closed (text : Text) (n : Nat)
  /-- After `n` glyphs the text so far is `seen`, in reverse. -/
  | more (seen : Text) (n : Nat)

/-- What the rest of a line makes of quoted text, `seen` being the text before it in reverse. -/
def QuotedForm.step (f : QuotedForm) (seen : Text) : Text → QuotedStep
  | [] => .unclosed
  | g :: t =>
    if g = .char f.quote then
      if t.head? = some g then
        if f.single then .closed (g :: seen).reverse 2 else .more (g :: seen) 2
      else .closed (if f.single then g :: seen else seen).reverse 1
    else if g = .char '\\' ∧ f.escapes then
      match Escape.ofText t with
      | .faulty cause => .faulty cause
      | .lineBreak n => .more seen (n + 1)
      | .character ch n =>
        if f.single then .closed (.char ch :: seen).reverse (n + 1)
        else .more (.char ch :: seen) (n + 1)
    else if f.single then .closed (.char g.code :: seen).reverse 1
    else .more (g :: seen) 1

/-- A step takes at least one glyph of the `k` that there are. -/
def QuotedStep.Fits (k : Nat) : QuotedStep → Prop
  | closed _ n | more _ n => 0 < n ∧ n ≤ k
  | _ => True

theorem QuotedForm.step_fits (f : QuotedForm) (seen t : Text) : (f.step seen t).Fits t.length := by
  obtain _ | ⟨g, t⟩ := t
  · trivial
  have hone : 0 < 1 ∧ 1 ≤ (g :: t).length := ⟨Nat.one_pos, Nat.succ_pos _⟩
  simp only [step]
  split
  · split
    · next hh =>
      have htwo : 2 ≤ (g :: t).length := by cases t <;> simp_all
      split <;> exact ⟨Nat.two_pos, htwo⟩
    · exact hone
  · split
    · have hn := Escape.ofText_fits t
      split
      · trivial
      · next he =>
        rw [he] at hn
        exact ⟨Nat.succ_pos _, Nat.succ_le_succ hn⟩
      · next he =>
        rw [he] at hn
        split <;> exact ⟨Nat.succ_pos _, Nat.succ_le_succ hn⟩
    · split <;> exact hone

theorem Cursor.unread_fill_advance_lt (c : Cursor) {n : Nat} (hpos : 0 < n)
    (hn : n ≤ c.fill.rest.length) : (c.fill.advance n).unread < c.unread :=
  Nat.lt_of_lt_of_le
    (unread_advance_lt hpos (List.length_pos_iff.1 (Nat.lt_of_lt_of_le hpos hn))) c.unread_fill_le

theorem scanQuoted_eq (f : QuotedForm) (seen : Text) (c : Cursor) :
    scanQuoted f seen c =
      match f.step seen c.fill.rest with
      | .unclosed => .unclosed c.fill
      | .faulty cause => .faulty cause c.fill
      | .closed text n => .closed text (c.fill.advance n)
      | .more seen n => scanQuoted f seen (c.fill.advance n) := by
  rw [scanQuoted]
  split
  · next h =>
    rw [h]
    rfl
  · next g t h =>
    simp only [h, QuotedForm.step]
    split
    · split
      · split <;> rfl
      · rfl
    · split
      · cases Escape.ofText t with
        | lineBreak | faulty => rfl
        | character => cases f.single <;> rfl
      · split <;> rfl

theorem scanFrom_eq (flags : Flags) (layout : Bool) (c : Cursor) :
    scanFrom flags layout c =
      match c.fill.rest with
      | [] =>
        match c.fill.ending with
        | .failure reason => .failure reason c.fill
        | .endOfInput => .token ⟨.endOfFile, [], layout, false, c.fill.place⟩ c.fill
      | g :: t =>
        if CharClass.isBlank g.code then scanFrom flags true (c.fill.advance 1)
        else if g = .char '%' then
          if flags.keepComments then
            .token ⟨.comment, c.fill.rest.trimLineEnd, layout, false, c.fill.place⟩ c.fill.toLineEnd
          else scanFrom flags true c.fill.toLineEnd
        else if Lexeme.opensComment (g :: t) then
          match afterComment? (c.fill.advance 2) c.fill.later with
          | none => .unended .unterminatedComment c.fill c.fill.toEnd
          | some after =>
            if flags.keepComments then
              .token ⟨.comment, c.fill.upTo after, layout, false, c.fill.place⟩ after
            else scanFrom flags true after
        else .lexeme flags layout g.code c.fill := by
  rw [scanFrom]
  split
  · next h => cases he : c.fill.ending <;> simp only [h]
  · next h =>
    simp only [h]
    split
    · rfl
    · split
      · rfl
      · split
        · split <;> next ha => simp only [ha]
        · rfl

theorem scanFrom_eq_lexeme {flags : Flags} {layout : Bool} {c : Cursor} {g : Glyph} {t : Text}
    (hr : c.fill.rest = g :: t) (hb : CharClass.isBlank g.code = false) (hp : g ≠ .char '%')
    (ho : Lexeme.opensComment (g :: t) = false) :
    scanFrom flags layout c = .lexeme flags layout g.code c.fill := by
  rw [scanFrom_eq, hr]
  simp [hb, hp, ho]

/-- Brackets, commas and bars are tokens by themselves. -/
theorem scanFrom_solo {flags : Flags} {layout : Bool} {c : Cursor} {ch : Char} {kind : TokenKind}
    {t : Text} (hr : c.fill.rest = .char ch :: t) (hk : Lexeme.solo? ch = some kind) :
    scanFrom flags layout c =
      .token ⟨kind, [.char ch], layout, false, c.fill.place⟩ (c.fill.advance 1) := by
  have key : CharClass.isBlank ch = false ∧ ch ≠ '%' ∧ ch ≠ '/' ∧
      Lexeme.ofText ch (.char ch :: t) = .plain kind 0 1 := by
    unfold Lexeme.solo? at hk
    split at hk <;> cases hk <;> exact ⟨by decide, by decide, by decide, rfl⟩
  obtain ⟨hb, hp, hs, hl⟩ := key
  have ho : Lexeme.opensComment (.char ch :: t) = false := by
    unfold Lexeme.opensComment
    split
    · next heq =>
      cases heq
      exact absurd rfl hs
    · rfl
  rw [scanFrom_eq_lexeme hr hb (by simpa using hp) ho]
  simp only [Scan.lexeme, Glyph.code, hr, hl]
  rfl

/-! ## White space before tokens -/

namespace Scan

/-- What scanning comes to where white space or a comment has been passed over first. -/
def spaced : Scan → Scan
  | token t after => token { t with layoutBefore := true } after
  | s => s

variable (layout : Bool) (start : Cursor)

theorem name_spaced (kind : TokenKind) (text : Text) (after : Cursor) :
    name kind text true start after = (name kind text layout start after).spaced := by
  unfold name
  split <;> rfl

theorem dot_spaced (after : Cursor) :
    dot true start after = (dot layout start after).spaced := by
  unfold dot
  split
  · rfl
  · split <;> rfl

theorem unended_spaced (cause : SyntaxCause) (stopped : Cursor) :
    (unended cause start stopped).spaced = unended cause start stopped := by
  unfold unended
  split <;> rfl

theorem quoted_spaced (f : QuotedForm) (inside : Cursor) :
    quoted f true start inside = (quoted f layout start inside).spaced := by
  unfold quoted
  split
  · exact (unended_spaced ..).symm
  · rfl
  · simp only
    split
    · exact name_spaced ..
    · rfl

theorem lexeme_spaced (flags : Flags) (ch : Char) :
    lexeme flags true ch start = (lexeme flags layout ch start).spaced := by
  unfold lexeme
  split
  · rfl
  · exact name_spaced ..
  · exact dot_spaced ..
  · exact quoted_spaced ..
  · exact quoted_spaced ..
  · rfl

end Scan

/-- White space passed over first shows in the token alone. -/
theorem scanFrom_spaced (flags : Flags) (layout : Bool) (c : Cursor) :
    scanFrom flags true c = (scanFrom flags layout c).spaced := by
  induction hn : c.unread using Nat.strongRecOn generalizing layout c with
  | _ n ih =>
    subst hn
    rw [scanFrom_eq flags true c, scanFrom_eq flags layout c]
    cases hr : c.fill.rest with
    | nil => cases c.fill.ending <;> rfl
    | cons g t =>
      have hne : c.fill.rest ≠ [] := by simp [hr]
      have hlt {n : Nat} (hn : 0 < n) : (c.fill.advance n).unread < c.unread :=
        Nat.lt_of_lt_of_le (Cursor.unread_advance_lt hn hne) c.unread_fill_le
      simp only
      split
      · exact ih _ (hlt Nat.one_pos) true _ rfl
      · split
        · split
          · rfl
          · exact ih _ (hlt (List.length_pos_iff.2 hne)) true _ rfl
        · split
          · split
            · exact (Scan.unended_spaced ..).symm
            · next after ha =>
              split
              · rfl
              · refine ih _ ?_ true _ rfl
                exact Nat.lt_of_le_of_lt (afterComment?_unread_le (c := c.fill.advance 2) rfl ha)
                  (hlt Nat.two_pos)
          · exact Scan.lexeme_spaced ..

/-! ## Scanning moves on -/

theorem Cursor.leads_fill_advance {c : Cursor} {g : Glyph} {t : Text} {n : Nat}
    (h : c.fill.rest = g :: t) (hn : n ≤ t.length) : c.Leads (c.fill.advance (n + 1)) :=
  c.leads_fill.trans (leads_advance (by simpa [h] using hn))

theorem leads_afterComment? {c d : Cursor} {later : List Text} (hl : c.later = later)
    (h : afterComment? c later = some d) : c.Leads d := by
  have hadvance {c : Cursor} {n : Nat} (hn : commentLengthFrom 0 c.rest = some n) :
      c.Leads (c.advance n) :=
    Cursor.leads_advance (by simpa using commentLengthFrom_le hn)
  induction later generalizing c with
  | nil =>
    obtain ⟨n, hn, rfl⟩ := Option.map_eq_some_iff.1 h
    exact hadvance hn
  | cons line later ih =>
    simp only [afterComment?] at h
    split at h
    · next n hn =>
      cases h
      exact hadvance hn
    · exact (Cursor.leads_atLine hl).trans (ih rfl h)

/-- Reading quoted text comes to a cursor ahead of `c`. -/
def QuotedEnd.Ahead (c : Cursor) : QuotedEnd → Prop
  | closed _ at' | unclosed at' | faulty _ at' => c.Leads at'

theorem QuotedEnd.Ahead.mono {c d : Cursor} {q : QuotedEnd} (h : q.Ahead d) (hd : c.Leads d) :
    q.Ahead c := by
  cases q <;> exact hd.trans h

theorem scanQuoted_ahead (f : QuotedForm) (seen : Text) (c : Cursor) :
    (scanQuoted f seen c).Ahead c := by
  induction hn : c.unread using Nat.strongRecOn generalizing seen c with
  | _ k ih =>
    subst hn
    have hfits := f.step_fits seen c.fill.rest
    rw [scanQuoted_eq]
    cases hstep : f.step seen c.fill.rest with
    | unclosed | faulty => exact c.leads_fill
    | closed text n =>
      rw [hstep] at hfits
      exact c.leads_fill.trans (Cursor.leads_advance hfits.2)
    | more seen' n =>
      rw [hstep] at hfits
      exact (ih _ (c.unread_fill_advance_lt hfits.1 hfits.2) seen' _ rfl).mono
        (c.leads_fill.trans (Cursor.leads_advance hfits.2))

namespace Scan

/-- Scanning comes to a cursor ahead of `c`, and fails only where the lines do. -/
def Ahead (c : Cursor) : Scan → Prop
  | token _ at' | fault _ at' _ => c.Leads at'
  | failure reason at' => c.Leads at' ∧ at'.ending = .failure reason

variable {c start after stopped : Cursor} {layout : Bool}

theorem Ahead.mono {s : Scan} (h : s.Ahead start) (hc : c.Leads start) : s.Ahead c := by
  cases s with
  | token | fault => exact hc.trans h
  | failure => exact ⟨hc.trans h.1, h.2⟩

theorem ending_of_peek {reason : Text} (h : after.peek = .error reason) :
    after.ending = .failure reason := by
  rw [← after.leads_fill.ending]
  simp only [Cursor.peek] at h
  split at h
  · cases h
  · cases h
  · next he =>
    cases h
    exact he

theorem name_ahead {kind : TokenKind} {text : Text} (h : c.Leads after) :
    (name kind text layout start after).Ahead c := by
  unfold name
  split
  · next hp => exact ⟨h, ending_of_peek hp⟩
  · exact h

theorem dot_ahead (h : c.Leads after) : (dot layout start after).Ahead c := by
  unfold dot
  split
  · next hp => exact ⟨h, ending_of_peek hp⟩
  · split <;> exact h

theorem unended_ahead {cause : SyntaxCause} (h : start.Leads stopped) :
    (unended cause start stopped).Ahead start := by
  unfold unended
  split
  · next he => exact ⟨h, he⟩
  · exact Cursor.Leads.refl start

theorem quoted_ahead {f : QuotedForm} {inside : Cursor} (h : start.Leads inside) :
    (quoted f layout start inside).Ahead start := by
  have hend := (scanQuoted_ahead f [] inside).mono h
  unfold quoted
  split
  · next hq =>
    rw [hq] at hend
    exact unended_ahead hend
  · exact Cursor.Leads.refl start
  · next hq =>
    rw [hq] at hend
    simp only
    split
    · exact name_ahead hend
    · exact hend

theorem lexeme_ahead {flags : Flags} {ch : Char} (hr : start.rest ≠ []) :
    (lexeme flags layout ch start).Ahead start := by
  have hfits := (Lexeme.ofText_fits ch hr).length_le
  unfold lexeme
  split <;> next heq =>
    rw [heq] at hfits
    first
    | exact Cursor.leads_advance hfits
    | exact name_ahead (Cursor.leads_advance hfits)
    | exact dot_ahead (Cursor.leads_advance hfits)
    | exact quoted_ahead (Cursor.leads_advance hfits)
    | exact Cursor.Leads.refl start

end Scan

theorem scanFrom_ahead (flags : Flags) (layout : Bool) (c : Cursor) :
    (scanFrom flags layout c).Ahead c := by
  have hcomment {c : Cursor} {g : Glyph} {t : Text} (hd : c.fill.rest = g :: t)
      (ho : Lexeme.opensComment (g :: t) = true) : c.Leads (c.fill.advance 2) :=
    c.leads_fill.trans (Cursor.leads_advance (hd ▸ Lexeme.two_le_of_opensComment ho))
  fun_induction scanFrom flags layout c with
  | case1 _ c _ _ _ he => exact ⟨c.leads_fill, he⟩
  | case2 _ c => exact c.leads_fill
  | case3 _ c _ _ _ hd _ _ _ _ ih => exact ih.mono (Cursor.leads_fill_advance hd (Nat.zero_le _))
  | case4 _ c => exact c.leads_fill.trans (Cursor.leads_toLineEnd _)
  | case5 _ c _ _ _ _ _ _ _ _ _ ih =>
    exact ih.mono (c.leads_fill.trans (Cursor.leads_toLineEnd _))
  | case6 _ c => exact (Scan.unended_ahead (Cursor.leads_toEnd _)).mono c.leads_fill
  | case7 _ c _ _ _ hd _ _ _ _ ho after ha =>
    exact (hcomment hd ho).trans (leads_afterComment? rfl ha)
  | case8 _ c _ _ _ hd _ _ _ _ ho after ha _ _ ih =>
    exact ih.mono ((hcomment hd ho).trans (leads_afterComment? rfl ha))
  | case9 _ c _ _ _ _ hd => exact (Scan.lexeme_ahead hd).mono c.leads_fill

section

variable {flags : Flags} {c start after stopped : Cursor} {t : Token} {e : SyntaxError}
variable {exhausted : Bool} {reason : Text}

theorem leads_of_scan_token (h : scan flags c = .token t after) : c.Leads after := by
  have := scanFrom_ahead flags false c
  rwa [show scanFrom flags false c = _ from h] at this

theorem leads_of_scan_fault (h : scan flags c = .fault e start exhausted) : c.Leads start := by
  have := scanFrom_ahead flags false c
  rwa [show scanFrom flags false c = _ from h] at this

theorem leads_of_scan_failure (h : scan flags c = .failure reason stopped) : c.Leads stopped := by
  have := scanFrom_ahead flags false c
  rw [show scanFrom flags false c = _ from h] at this
  exact this.1

theorem ending_of_scan_failure (h : scan flags c = .failure reason stopped) :
    c.ending = .failure reason := by
  have := scanFrom_ahead flags false c
  rw [show scanFrom flags false c = _ from h] at this
  rw [← this.1.ending, this.2]

end

end PrologText
