import PrologText.Proofs.Literals
import PrologText.Proofs.Segments

/-!
# Texts put one after the other

Lines and bytes of two texts one after the other are those of the first and those of the second, but
for the line where they meet (`Text.lines_append`, `Text.ofBytes_append`). Main statement:
consulting two texts one after the other comes to the same as consulting both together, if the first
is made up of tokens and has white space behind its last full stop
(`Dialect.consult_ofBytes_append`).
-/

namespace PrologText

/-! ## Lines -/

namespace Text

/-- Puts a text in front of the first of some lines. -/
def onFirst (w : Text) : List Text → List Text
  | [] => [w]
  | l :: ls => (w ++ l) :: ls

theorem splitLines_done (done : List Text) (line t : Text) :
    splitLines done line t = done.reverse ++ splitLines [] line t := by
  induction t generalizing done line with
  | nil =>
    simp only [splitLines]
    split <;> simp
  | cons g t ih =>
    simp only [splitLines]
    split
    · rw [ih, ih [_]]
      simp
    · exact ih done _

theorem lines_newline (t : Text) : lines (.char '\n' :: t) = [.char '\n'] :: lines t := by
  rw [lines, splitLines, if_pos rfl, splitLines_done]
  rfl

theorem splitLines_of_ne_nil {line : Text} (h : line ≠ []) (t : Text) :
    splitLines [] line t = onFirst line.reverse (lines t) := by
  induction t generalizing line with
  | nil => simp [lines, splitLines, h, onFirst]
  | cons g t ih =>
    by_cases hg : g = .char '\n'
    · subst hg
      rw [lines_newline, splitLines, if_pos rfl, splitLines_done]
      simp [onFirst, lines]
    · have hline : lines (g :: t) = onFirst [g] (lines t) := by
        rw [lines, splitLines, if_neg hg, ih (List.cons_ne_nil _ _)]
        rfl
      rw [hline, splitLines, if_neg hg, ih (List.cons_ne_nil _ _)]
      cases lines t <;> simp [onFirst]

theorem lines_cons_of_ne {g : Glyph} (h : g ≠ .char '\n') (t : Text) :
    lines (g :: t) = onFirst [g] (lines t) := by
  rw [lines, splitLines, if_neg h, splitLines_of_ne_nil (List.cons_ne_nil _ _)]
  rfl

theorem flatten_lines (t : Text) : (lines t).flatten = t := by
  induction t with
  | nil => rfl
  | cons g t ih =>
    by_cases hg : g = .char '\n'
    · rw [hg, lines_newline, List.flatten_cons, ih]
      rfl
    · rw [lines_cons_of_ne hg]
      conv => rhs; rw [← ih]
      cases lines t <;> rfl

theorem lines_ne_nil {t : Text} (h : t ≠ []) : lines t ≠ [] := by
  intro hnil
  rw [← flatten_lines t, hnil] at h
  exact h rfl

theorem glue_onFirst (m w : Text) (ms : List Text) {ls : List Text} (h : ls ≠ []) :
    glue m ms (onFirst w ls) = onFirst w (glue m ms ls) := by
  match ls with
  | [] => exact absurd rfl h
  | [l] => simp [onFirst, glue]
  | l :: l' :: ls => rfl

theorem glue_cons (m l : Text) (ms : List Text) {ls : List Text} (h : ls ≠ []) :
    glue m ms (l :: ls) = l :: glue m ms ls := by
  cases ls with
  | nil => exact absurd rfl h
  | cons => rfl

/-- The second text goes on in the last line of the first one, or starts behind it. -/
theorem lines_append {t : Text} (ht : t ≠ []) (u : Text) :
    ∃ m ms, lines (t ++ u) = glue m ms (lines t) ∧
      (m = [] ∧ ms = lines u ∨ lines u = m :: ms) := by
  induction t with
  | nil => exact absurd rfl ht
  | cons g t ih =>
    rw [List.cons_append]
    -- Only at the last character does it matter whether a line ends there.
    by_cases hg : g = .char '\n'
    · subst hg
      rw [lines_newline, lines_newline]
      by_cases ht : t = []
      · subst ht
        exact ⟨[], lines u, rfl, .inl ⟨rfl, rfl⟩⟩
      · obtain ⟨m, ms, hlines, hu⟩ := ih ht
        exact ⟨m, ms, by rw [hlines, glue_cons m _ ms (lines_ne_nil ht)], hu⟩
    · rw [lines_cons_of_ne hg, lines_cons_of_ne hg]
      by_cases ht : t = []
      · subst ht
        rw [List.nil_append]
        cases lines u with
        | nil => exact ⟨[], [], rfl, .inl ⟨rfl, rfl⟩⟩
        | cons l ls => exact ⟨l, ls, rfl, .inr rfl⟩
      · obtain ⟨m, ms, hlines, hu⟩ := ih ht
        exact ⟨m, ms, by rw [hlines, glue_onFirst m _ ms (lines_ne_nil ht)], hu⟩

end Text

/-! ## Bytes -/

namespace Utf8

variable {count value n : Nat} {bytes rest : List UInt8}

/-- A byte that stands only behind the first one of a character. -/
def Follows (b : UInt8) : Prop :=
  0x80 ≤ b.toNat ∧ b.toNat < 0xC0

theorem continuation_append (h : continuation count value bytes = some (n, rest))
    (more : List UInt8) : continuation count value (bytes ++ more) = some (n, rest ++ more) := by
  fun_induction continuation count value bytes with
  | case1 => cases h; rfl
  | case2 => cases h
  | case3 count value b bytes hb ih =>
    rw [List.cons_append, continuation, if_pos hb]
    exact ih h
  | case4 => cases h

/-- Bytes that are continued by others are continued by themselves or all stand behind a first
one. -/
theorem continuation_of_append {more : List UInt8}
    (h : continuation count value (bytes ++ more) = some (n, rest)) :
    (∃ rest', continuation count value bytes = some (n, rest')) ∨ ∀ b ∈ bytes, Follows b := by
  induction bytes generalizing count value with
  | nil => exact .inr nofun
  | cons b bytes ih =>
    cases count with
    | zero => exact .inl ⟨b :: bytes, by cases h; rfl⟩
    | succ count =>
      rw [List.cons_append, continuation] at h
      rw [continuation]
      split at h
      · next hb =>
        rw [if_pos hb]
        refine (ih h).imp_right fun hall => ?_
        exact List.forall_mem_cons.2 ⟨hb, hall⟩
      · cases h

theorem exists_lead_of_decode? {b : UInt8} {c : Char} (h : decode? (b :: bytes) = some (c, rest)) :
    ∃ count value least n, lead b = some (count, value, least) ∧
      continuation count value bytes = some (n, rest) ∧ least ≤ n ∧ n.isValidChar ∧
      c = Char.ofNat n := by
  simp only [decode?] at h
  split at h
  · cases h
  · next hlead =>
    split at h
    · cases h
    · next hcontinuation =>
      split at h
      · next hn =>
        cases h
        exact ⟨_, _, _, _, hlead, hcontinuation, hn.1, hn.2, rfl⟩
      · cases h

theorem decode?_append {c : Char} (h : decode? bytes = some (c, rest)) (more : List UInt8) :
    decode? (bytes ++ more) = some (c, rest ++ more) := by
  cases bytes with
  | nil => cases h
  | cons b bytes =>
    obtain ⟨count, value, least, n, hlead, hcontinuation, hle, hv, rfl⟩ := exists_lead_of_decode? h
    exact decode?_of_lead hlead (continuation_append hcontinuation more) hle hv

theorem decode?_append_eq_none {b : UInt8} (h : decode? (b :: bytes) = none)
    (hb : ¬∀ x ∈ bytes, Follows x) (more : List UInt8) : decode? (b :: bytes ++ more) = none := by
  refine Option.eq_none_iff_forall_ne_some.2 fun ⟨c, rest⟩ hsome => ?_
  obtain ⟨count, value, least, n, hlead, hcontinuation, hle, hv, -⟩ := exists_lead_of_decode? hsome
  obtain ⟨rest', hbytes⟩ := (continuation_of_append hcontinuation).resolve_right hb
  rw [decode?_of_lead hlead hbytes hle hv] at h
  cases h

theorem decode?_of_follows {b : UInt8} (h : Follows b) (bytes : List UInt8) :
    decode? (b :: bytes) = none := by
  have hlead : lead b = none := by
    rw [lead, if_neg (Nat.not_lt.2 h.1), if_pos h.2]
  simp only [decode?, hlead]

end Utf8

namespace Text

theorem ofBytesAfter_eq (seen : Text) (bytes : List UInt8) :
    ofBytesAfter seen bytes = seen.reverse ++ ofBytes bytes := by
  induction hn : bytes.length using Nat.strongRecOn generalizing seen bytes with
  | _ n ih =>
    subst hn
    rw [ofBytes, ofBytesAfter, ofBytesAfter]
    split
    · next c rest h =>
      have hlt := Utf8.decode?_length_lt h
      rw [ih _ hlt _ _ rfl, ih _ hlt _ _ rfl]
      simp
    · cases bytes with
      | nil => simp
      | cons b rest =>
        have hlt : rest.length < (b :: rest).length := Nat.lt_succ_self _
        simp only
        rw [ih _ hlt _ _ rfl, ih _ hlt _ _ rfl]
        simp

theorem ofBytes_of_decode? {c : Char} {bytes rest : List UInt8}
    (h : Utf8.decode? bytes = some (c, rest)) : ofBytes bytes = .char c :: ofBytes rest := by
  rw [ofBytes, ofBytesAfter]
  split
  · next h' =>
    cases h.symm.trans h'
    exact ofBytesAfter_eq ..
  · next h' => cases h.symm.trans h'

theorem ofBytes_of_decode?_eq_none {b : UInt8} {bytes : List UInt8}
    (h : Utf8.decode? (b :: bytes) = none) : ofBytes (b :: bytes) = .stray b :: ofBytes bytes := by
  rw [ofBytes, ofBytesAfter]
  split
  · next h' => cases h.symm.trans h'
  · exact ofBytesAfter_eq ..

theorem ofBytes_nil : ofBytes [] = [] := by
  rw [ofBytes, ofBytesAfter]
  rfl

theorem ofBytes_of_follows {bytes : List UInt8} (h : ∀ b ∈ bytes, Utf8.Follows b) :
    ofBytes bytes = bytes.map .stray := by
  induction bytes with
  | nil => exact ofBytes_nil
  | cons b bytes ih =>
    obtain ⟨hb, hbytes⟩ := List.forall_mem_cons.1 h
    rw [ofBytes_of_decode?_eq_none (Utf8.decode?_of_follows hb bytes), ih hbytes, List.map_cons]

theorem ofBytes_ne_nil {bytes : List UInt8} (h : bytes ≠ []) : ofBytes bytes ≠ [] := by
  cases bytes with
  | nil => exact absurd rfl h
  | cons b bytes =>
    cases hd : Utf8.decode? (b :: bytes) with
    | some x =>
      rw [ofBytes_of_decode? hd]
      exact List.cons_ne_nil _ _
    | none =>
      rw [ofBytes_of_decode?_eq_none hd]
      exact List.cons_ne_nil _ _

theorem isBlank_stray (b : UInt8) : CharClass.isBlank (Glyph.stray b).code = false := by
  have h : CharClass.isBlank Glyph.replacement = false := by decide +kernel
  exact h

theorem not_endsBlank_map_stray (bytes : List UInt8) : ¬EndsBlank (bytes.map .stray) := by
  rintro ⟨g, hg, hb⟩
  obtain ⟨b, -, rfl⟩ := List.mem_map.1 (List.mem_of_getLast? hg)
  simp [isBlank_stray b] at hb

/-- A character that is complete stays what it is, and so do the stray bytes before it. -/
theorem ofBytes_append {a : List UInt8} (ha : (ofBytes a).EndsBlank) (b : List UInt8) :
    ofBytes (a ++ b) = ofBytes a ++ ofBytes b := by
  induction hn : a.length using Nat.strongRecOn generalizing a with
  | _ n ih =>
    subst hn
    cases hd : Utf8.decode? a with
    | some x =>
      obtain ⟨c, rest⟩ := x
      rw [ofBytes_of_decode? hd] at ha
      rw [ofBytes_of_decode? (Utf8.decode?_append hd b), ofBytes_of_decode? hd, List.cons_append]
      by_cases hrest : rest = []
      · rw [hrest, ofBytes_nil]
        rfl
      · have hends := ha.of_suffix (List.suffix_cons _ _) (ofBytes_ne_nil hrest)
        rw [ih _ (Utf8.decode?_length_lt hd) hends rfl]
    | none =>
      cases a with
      | nil => exact absurd ofBytes_nil ha.ne_nil
      | cons x a =>
        rw [ofBytes_of_decode?_eq_none hd] at ha
        have hends := ha.tail (isBlank_stray x)
        -- if all of them stood behind a first byte, the last one would be stray
        have hfollows : ¬∀ x ∈ a, Utf8.Follows x := fun hall =>
          not_endsBlank_map_stray a (ofBytes_of_follows hall ▸ hends)
        have hnone : Utf8.decode? (x :: (a ++ b)) = none :=
          Utf8.decode?_append_eq_none hd hfollows b
        rw [List.cons_append, ofBytes_of_decode?_eq_none hnone, ofBytes_of_decode?_eq_none hd,
          ih _ (Nat.lt_succ_self _) hends rfl, List.cons_append]

end Text

/-! ## White space between two texts -/

namespace Cursor

variable {c e : Cursor} {m : Text} {ms : List Text}

theorem fill_eq_of_later {l : Text} {ls : List Text} (hr : c.rest = []) (hl : c.later = l :: ls) :
    c.fill = (atLine (c.number + 1) l ls c.ending).fill := by
  simp only [fill, hr, hl, skipEmpty, List.isEmpty_nil, if_true]
  rfl

theorem Alike.refl (h : c.ending = .endOfInput) : c.Alike c :=
  ⟨h, h, (Text.glue_nil_nil _).symm, .inl ⟨rfl, rfl⟩⟩

end Cursor

section

variable (flags : Flags) (layout : Bool)

theorem scanFrom_eq_of_fill {c e : Cursor} (h : c.fill = e.fill) :
    scanFrom flags layout c = scanFrom flags layout e := by
  rw [scanFrom_eq flags layout c, scanFrom_eq flags layout e, h]

theorem scanFrom_blanks {c : Cursor} {w v : Text} (hc : c.rest = w ++ v)
    (hw : ∀ g ∈ w, CharClass.isBlank g.code = true) :
    scanFrom flags layout c = scanFrom flags (layout || !w.isEmpty) (c.advance w.length) := by
  induction w generalizing c layout with
  | nil => rw [List.isEmpty_nil, Bool.not_true, Bool.or_false]; rfl
  | cons g w ih =>
    have hfill : c.fill = c := by simp [Cursor.fill, hc]
    have hrest : (c.advance 1).rest = w ++ v := by simp [Cursor.advance, hc]
    have h := ih true hrest fun g hg => hw g (List.mem_cons_of_mem _ hg)
    rw [scanFrom_eq, hfill, hc]
    simp only [List.cons_append, hw g List.mem_cons_self, if_true]
    rw [h, Cursor.advance_advance, List.length_cons, Nat.add_comm, Bool.true_or, List.isEmpty_cons,
      Bool.not_false, Bool.or_true]

/-- Scanning passes over lines of white space to what has been added behind them. -/
theorem scanFrom_blank_lines {m : Text} {ms : List Text} {l : Text} {ls : List Text} {c : Cursor}
    (hc : c.rest :: c.later = Text.glue m ms (l :: ls))
    (hblank : ∀ g ∈ (l :: ls).flatten, CharClass.isBlank g.code = true) :
    ∃ layout' e, scanFrom flags layout c = scanFrom flags layout' e ∧ e.rest = m ∧ e.later = ms ∧
      e.ending = c.ending := by
  induction ls generalizing l c layout with
  | nil =>
    obtain ⟨hrest, hlater⟩ := List.cons.inj hc
    have h := scanFrom_blanks flags layout hrest fun g hg => hblank g (by simpa using hg)
    exact ⟨_, _, h, by simp [Cursor.advance, hrest], hlater, rfl⟩
  | cons l' ls ih =>
    obtain ⟨hrest, hlater⟩ := List.cons.inj hc
    have hhead (g : Glyph) (hg : g ∈ l) := hblank g (List.mem_append_left _ hg)
    have h := scanFrom_blanks flags layout (v := []) (hrest.trans (List.append_nil l).symm) hhead
    cases hnext : Text.glue m ms (l' :: ls) with
    | nil => cases ls <;> cases hnext
    | cons r rs =>
      have hlater : (c.advance l.length).later = r :: rs := hlater.trans hnext
      have hfill := Cursor.fill_eq_of_later (by simp [Cursor.advance, hrest]) hlater
      rw [h, scanFrom_eq_of_fill flags _ hfill]
      exact ih _ hnext.symm fun g hg => hblank g (List.mem_append_right l hg)

end

/-- What scanning comes to, without places and white space before the token. -/
def Scan.bare : Scan → Scan
  | token t after => token t.bare after
  | s => s

theorem Scan.bare_spaced (s : Scan) : s.spaced.bare = s.bare := by
  cases s <;> rfl

theorem scanFrom_bare (flags : Flags) (layout layout' : Bool) (c : Cursor) :
    (scanFrom flags layout c).bare = (scanFrom flags layout' c).bare := by
  rw [← Scan.bare_spaced, ← scanFrom_spaced flags layout c, scanFrom_spaced flags layout' c,
    Scan.bare_spaced]

/-- At the end of a complete text it does not matter whether white space has been passed over. -/
theorem scanFrom_akin (flags : Flags) (layout layout' : Bool) {c : Cursor}
    (hc : c.ending = .endOfInput) :
    Scan.Akin (scanFrom flags layout c) (scanFrom flags layout' c) := by
  have hbare := scanFrom_bare flags layout layout' c
  have hahead := scanFrom_ahead flags layout c
  generalize scanFrom flags layout c = s, scanFrom flags layout' c = s' at hbare hahead
  cases s with
  | token t after =>
    cases s' with
    | token t' after' =>
      obtain ⟨ht, rfl⟩ := Scan.token.inj hbare
      exact .token ht (.refl (hahead.ending.trans hc))
    | fault | failure => cases hbare
  | fault e start exhausted =>
    cases s' with
    | token => cases hbare
    | fault =>
      cases hbare
      exact .fault rfl (.refl (hahead.ending.trans hc))
    | failure => cases hbare
  | failure => cases (hahead.1.ending.trans hc).symm.trans hahead.2

/-! ## Consulting one text after the other -/

namespace Consultation

def append (a b : Consultation) : Consultation :=
  ⟨a.clauses ++ b.clauses, a.directives ++ b.directives, a.errors ++ b.errors⟩

theorem reverse_append (a b : Consultation) :
    (a.append b).reverse = b.reverse.append a.reverse := by
  simp only [append, reverse, List.reverse_append]

theorem addOutcome_append (a b : Consultation) (d : Dialect) (o : Outcome) :
    (a.append b).addOutcome d o = (a.addOutcome d o).append b := by
  obtain s | _ | (e | _ | _) := o
  · simp only [addOutcome, addSentence, append, List.append_assoc]
    split <;> rfl
  all_goals rfl

end Consultation

def Consulted.map (f : Consultation → Consultation) (x : Consulted) : Consulted :=
  { x with result := x.result.map f }

namespace Reader

variable {d : Dialect} {c : Cursor}

/-- What came before is left as it is. -/
theorem consult_append (d : Dialect) (x done : Consultation) (r : Reader) :
    r.consult d (x.append done) = (r.consult d x).map done.reverse.append := by
  induction hn : r.measure using Nat.strongRecOn generalizing d x r with
  | _ n ih =>
    subst hn
    by_cases hmore : (r.next d).1.Continues
    · rw [consult_of_continues hmore, consult_of_continues hmore, Consultation.addOutcome_append]
      exact ih _ (next_measure_lt hmore) _ _ _ rfl
    · rw [consult_eq, consult_eq]
      revert hmore
      generalize r.next d = y
      obtain ⟨s | _ | (e | _ | _), after⟩ := y
      · exact fun h => absurd trivial h
      · simp only [Consultation.reverse_append]
        exact fun _ => rfl
      · exact fun h => absurd trivial h
      · exact fun _ => rfl
      · exact fun _ => rfl

/-- White space is the end of a program. -/
theorem consult_blank (h : c.Blank) (hc : c.ending = .endOfInput) (issued : Nat)
    (done : Consultation) :
    (ofCursor c issued).consult d done = ⟨d, issued, .ok done.reverse⟩ := by
  obtain ⟨layout, e, hscan, hrest, hlater, hending⟩ := scanFrom_blank_lines d.flags false
    (Text.glue_nil_nil (c.rest :: c.later)).symm h.blank
  have hfill : e.fill = e := by simp [Cursor.fill, hrest, hlater, Cursor.skipEmpty]
  have hscan : scan d.flags c = .token ⟨.endOfFile, [], layout, false, e.place⟩ e := by
    rw [scan, hscan, scanFrom_eq, hfill, hrest]
    simp only [hending, hc]
  have hstep :=
    Reading.step_start_endOfFile d issued (t := ⟨.endOfFile, [], layout, false, e.place⟩) rfl
  have hnext : (ofCursor c issued).next d = (.endOfInput, ⟨e, false, issued⟩) := by
    have hrun : Run.at d issued c =
        ⟨.endOfInput, [⟨.endOfFile, [], layout, false, e.place⟩], e, issued⟩ := by
      rw [Run.at, Reading.run_over hscan (by simp) (by simp [hstep]), hstep]
      rfl
    simp only [next, readAt, ofCursor, hrun]
    rfl
  rw [consult_eq, hnext]

end Reader

theorem Cursor.lines_ofText {t l : Text} {ls : List Text} (h : t.lines = l :: ls) :
    (ofText t).rest :: (ofText t).later = l :: ls := by
  rw [ofText, h]
  rfl

theorem Cursor.remaining_ofText (t : Text) : (ofText t).remaining = t := by
  conv => rhs; rw [← t.flatten_lines]
  rw [ofText]
  cases t.lines <;> rfl

/-- The cursor at the start of two texts has the second one behind the first. -/
theorem Cursor.prolongs_ofText {t : Text} (ht : t.EndsBlank) (u : Text) :
    ∃ m ms, (ofText t).Prolongs m ms (ofText (t ++ u)) ∧
      (m = [] ∧ ms = u.lines ∨ u.lines = m :: ms) := by
  obtain ⟨m, ms, hlines, hu⟩ := Text.lines_append ht.ne_nil u
  refine ⟨m, ms, ⟨ending_ofText t, ending_ofText _, ?_, .inr ?_⟩, hu⟩
  · obtain ⟨l, ls, hl⟩ := List.exists_cons_of_ne_nil (Text.lines_ne_nil ht.ne_nil)
    obtain ⟨r, rs, hr⟩ := List.exists_cons_of_ne_nil
      (Text.lines_ne_nil (List.append_ne_nil_of_left_ne_nil ht.ne_nil u))
    rw [lines_ofText hr, lines_ofText hl, ← hr, hlines, hl]
  · rwa [remaining_ofText]

/-- Behind the first text scanning goes on as at the start of the second. -/
theorem scan_akin_ofText (flags : Flags) (layout : Bool) {e : Cursor} {u : Text}
    (he : e.ending = .endOfInput)
    (hu : e.rest = [] ∧ e.later = u.lines ∨ u.lines = e.rest :: e.later) :
    ∃ e' : Cursor, e'.Alike (.ofText u) ∧
      Scan.Akin (scanFrom flags layout e) (scan flags e') := by
  have halike {e : Cursor} (he : e.ending = .endOfInput)
      (hlines : (Cursor.ofText u).rest :: (Cursor.ofText u).later = e.rest :: e.later) :
      e.Alike (.ofText u) :=
    ⟨he, Cursor.ending_ofText u, hlines.trans (Text.glue_nil_nil _).symm, .inl ⟨rfl, rfl⟩⟩
  rcases hu with ⟨hrest, hlater⟩ | hu
  · cases hu : u.lines with
    | nil =>
      refine ⟨e, halike he ?_, scanFrom_akin flags layout false he⟩
      rw [hrest, hlater, Cursor.ofText, hu]
      rfl
    | cons l ls =>
      have hfill := Cursor.fill_eq_of_later hrest (hlater.trans hu)
      rw [scanFrom_eq_of_fill flags layout hfill]
      exact ⟨.atLine (e.number + 1) l ls e.ending, halike he (Cursor.lines_ofText hu),
        scanFrom_akin flags layout false he⟩
  · exact ⟨e, halike he (Cursor.lines_ofText hu), scanFrom_akin flags layout false he⟩

namespace Dialect

variable {d : Dialect} {issued : Nat}

theorem endsBlank_of_tokenises_ofText {t : Text} (h : d.tokenises issued (.ofText t) = true) :
    t.EndsBlank := by
  have := endsBlank_of_tokenises h
  rwa [Cursor.remaining_ofText] at this

/-- Behind the white space at the end of the first text, consulting goes on as at the start of the
second. -/
theorem consult_same_of_blank {here there : Consulting} {m : Text} {ms : List Text} {u : Text}
    (hsame : here.Same there) (hblank : here.cursor.Blank)
    (hp : here.cursor.Prolongs m ms there.cursor)
    (hu : m = [] ∧ ms = u.lines ∨ u.lines = m :: ms) :
    there.consult.Same
      ((here.dialect.consult here.issued (.ofText u)).map here.done.reverse.append) := by
  obtain ⟨d₁, n₁, c₁, x⟩ := here
  obtain ⟨_, _, e₁, x'⟩ := there
  obtain ⟨rfl, rfl, hx⟩ := hsame
  obtain ⟨layout, e, hscan, rfl, rfl, he⟩ :=
    scanFrom_blank_lines d₁.flags false hp.lines hblank.blank
  obtain ⟨e', halike, hakin⟩ := scan_akin_ofText d₁.flags layout (he.trans hp.ending') hu
  have hakin : Scan.Akin (scan d₁.flags e₁) (scan d₁.flags e') := by
    rw [scan, hscan]
    exact hakin
  have hbehind := Reader.consult_akin hakin n₁ hx.symm
  have hthere : ((Reader.ofCursor e' n₁).consult d₁ x).Same
      ((Reader.ofCursor (.ofText u) n₁).consult d₁ x) :=
    Reader.consult_alike ⟨halike, rfl, rfl⟩ rfl
  have hshift : (Reader.ofCursor (.ofText u) n₁).consult d₁ x =
      (d₁.consult n₁ (.ofText u)).map x.reverse.append :=
    Reader.consult_append d₁ .empty x _
  rw [hshift] at hthere
  exact hbehind.trans hthere

theorem consult_ofText_append {t : Text}
    (h : d.tokenises issued (.ofText t) = true) (u : Text) :
    ∃ here there : Consulting, Consulting.Passes ⟨d, issued, .ofText t, .empty⟩ here ∧
      Consulting.Passes ⟨d, issued, .ofText (t ++ u), .empty⟩ there ∧ here.Same there ∧
      here.cursor.Blank ∧
      d.consult issued (.ofText t) = ⟨here.dialect, here.issued, .ok here.done.reverse⟩ ∧
      (d.consult issued (.ofText (t ++ u))).Same
        ((here.dialect.consult here.issued (.ofText u)).map here.done.reverse.append) := by
  obtain ⟨m, ms, hp, hu⟩ := Cursor.prolongs_ofText (endsBlank_of_tokenises_ofText h) u
  have hstart : Consulting.Same ⟨d, issued, .ofText t, .empty⟩
      ⟨d, issued, .ofText (t ++ u), .empty⟩ := ⟨rfl, rfl, rfl⟩
  obtain ⟨here, there, hhere, hthere, hsame, hblank, hp'⟩ := Consulting.exists_passes hstart h hp
  refine ⟨here, there, hhere, hthere, hsame, hblank, ?_, ?_⟩
  · exact hhere.consult_eq.trans (Reader.consult_blank hblank hp'.ending _ _)
  · have hwhole : d.consult issued (.ofText (t ++ u)) = there.consult := hthere.consult_eq
    rw [hwhole]
    exact consult_same_of_blank hsame hblank hp' hu

/-- Consulting two texts together yields the clauses, directives and errors of the first and then
those of the second, read in the dialect that the first has left, and leaves the dialect that the
second leaves. The first text is made up of tokens, also where a sentence is malformed, and has
white space behind its last full stop. By itself and with the second text behind it, it is passed
over sentence by sentence, and each sentence that fails is passed over up to its own full stop. -/
theorem consult_ofBytes_append {a : List UInt8}
    (h : d.tokenises issued (.ofText (.ofBytes a)) = true) (b : List UInt8) :
    let first := d.consult issued (.ofText (.ofBytes a))
    let second := first.dialect.consult first.issued (.ofText (.ofBytes b))
    let whole := d.consult issued (.ofText (.ofBytes (a ++ b)))
    (∃ p q r, first.result = .ok p ∧ second.result = .ok q ∧ whole.result = .ok r ∧
      r.unplaced = (p.append q).unplaced ∧ whole.dialect = second.dialect ∧
      whole.issued = second.issued) ∧
    ∃ here there : Consulting,
      Consulting.Passes ⟨d, issued, .ofText (.ofBytes a), .empty⟩ here ∧
      Consulting.Passes ⟨d, issued, .ofText (.ofBytes (a ++ b)), .empty⟩ there ∧
      here.Same there ∧ here.cursor.Blank ∧
      first = ⟨here.dialect, here.issued, .ok here.done.reverse⟩ := by
  intro first second whole
  obtain ⟨here, there, hhere, hthere, hsame, hblank, hfirst, hwhole⟩ :=
    consult_ofText_append h (.ofBytes b)
  rw [← Text.ofBytes_append (endsBlank_of_tokenises_ofText h)] at hthere hwhole
  have hfirst : first = ⟨here.dialect, here.issued, .ok here.done.reverse⟩ := hfirst
  refine ⟨?_, here, there, hhere, hthere, hsame, hblank, hfirst⟩
  obtain ⟨-, q, -, -, hq⟩ := Reader.exists_calls first.dialect
    (.ofCursor (.ofText (.ofBytes b)) first.issued) .empty (Cursor.ending_ofText _)
  obtain ⟨-, r, -, -, hr⟩ := Reader.exists_calls d
    (.ofCursor (.ofText (.ofBytes (a ++ b))) issued) .empty (Cursor.ending_ofText _)
  have hq : second.result = .ok q := hq
  have hr : whole.result = .ok r := hr
  have hwhole : whole.Same (second.map here.done.reverse.append) := by
    simp only [second, hfirst]
    exact hwhole
  refine ⟨here.done.reverse, q, r, by rw [hfirst], hq, hr, ?_, hwhole.dialect, hwhole.issued⟩
  have hresult : whole.result.map Consultation.unplaced =
      (second.result.map here.done.reverse.append).map Consultation.unplaced := hwhole.result
  rw [hq, hr] at hresult
  exact Except.ok.inj hresult

/-- A program with a directive, two malformed sentences and a clause that needs the directive. -/
def motleyProgram : List UInt8 :=
  Text.bytes ":- op(700, xfx, ===>).\na ===> . f(b c)) '.' 0'. d.\nX ===> \"it's\". \n"

theorem consult_motleyProgram_append :
    let first := standard.consult 3 (.ofText (.ofBytes motleyProgram))
    let second := first.dialect.consult first.issued (.ofText (.ofBytes (Text.bytes "a. b ===> ")))
    let whole := standard.consult 3 (.ofText (.ofBytes (motleyProgram ++ Text.bytes "a. b ===> ")))
    standard.tokenises 3 (.ofText (.ofBytes motleyProgram)) = true ∧
      (∃ p q r, first.result = .ok p ∧ second.result = .ok q ∧ whole.result = .ok r ∧
        r.unplaced = (p.append q).unplaced ∧ whole.dialect = second.dialect ∧
        whole.issued = second.issued) ∧
      ∃ here there : Consulting,
        Consulting.Passes ⟨standard, 3, .ofText (.ofBytes motleyProgram), .empty⟩ here ∧
        Consulting.Passes
          ⟨standard, 3, .ofText (.ofBytes (motleyProgram ++ Text.bytes "a. b ===> ")), .empty⟩
          there ∧
        here.Same there ∧ here.cursor.Blank ∧
        first = ⟨here.dialect, here.issued, .ok here.done.reverse⟩ := by
  have h : standard.tokenises 3 (.ofText (.ofBytes motleyProgram)) = true := by decide +kernel
  exact ⟨h, consult_ofBytes_append h _⟩

end Dialect

end PrologText
