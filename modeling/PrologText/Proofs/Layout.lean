import PrologText.Proofs.Concatenation
import PrologText.Proofs.Spelling

/-!
# Layout before tokens

Layout is white space and, where comments are not kept, comments (`Text.IsLayout`). Main statement:
scanning passes over layout to a point with no layout before it and goes on from there
(`exists_passesTo`).
-/

namespace PrologText

/-! ## The text between two cursors -/

namespace Cursor

variable {c d e : Cursor}

theorem Leads.upTo_trans (h : c.Leads d) (h' : d.Leads e) :
    c.upTo e = c.upTo d ++ d.upTo e := by
  have hall := (h.trans h').remaining_eq
  rw [h.remaining_eq, h'.remaining_eq, ← List.append_assoc] at hall
  exact (List.append_cancel_right hall).symm

theorem upTo_advance (c : Cursor) (n : Nat) : c.upTo (c.advance n) = c.rest.take n := by
  simp [upTo, advance]

theorem remaining_advance {n : Nat} (h : n ≤ c.rest.length) :
    (c.advance n).remaining = c.remaining.drop n := by
  rw [(leads_advance h).remaining_eq, upTo_advance, List.drop_left' (List.length_take_of_le h)]

theorem upTo_self (c : Cursor) : c.upTo c = [] := by
  simp [upTo]

theorem upTo_atLine (c : Cursor) (line : Text) (later : List Text) :
    c.upTo (atLine (c.number + 1) line later c.ending) = c.rest := by
  simp [upTo, atLine]

theorem upTo_skipEmpty {later : List Text} (hr : c.rest = []) (h : c.later = later) :
    c.upTo (c.skipEmpty later) = [] := by
  induction later generalizing c with
  | nil => exact upTo_self c
  | cons line later ih =>
    simp only [skipEmpty]
    split
    · next hline =>
      have hempty : (atLine (c.number + 1) line later c.ending).rest = [] := by
        simpa [atLine] using hline
      have hskip : (atLine (c.number + 1) line later c.ending).Leads
          ((atLine (c.number + 1) line later c.ending).skipEmpty later) := leads_skipEmpty rfl
      rw [(leads_atLine h).upTo_trans hskip, upTo_atLine, hr, ih hempty rfl]
      rfl
    · rw [upTo_atLine, hr]

theorem upTo_fill (c : Cursor) : c.upTo c.fill = [] := by
  unfold fill
  split
  · next hr => exact upTo_skipEmpty (by simpa using hr) rfl
  · exact upTo_self c

theorem remaining_fill (c : Cursor) : c.fill.remaining = c.remaining := by
  rw [c.leads_fill.remaining_eq, upTo_fill, List.nil_append]

theorem later_skipEmpty {later : List Text} (h : c.later = later)
    (hr : (c.skipEmpty later).rest = []) : (c.skipEmpty later).later = [] := by
  induction later generalizing c with
  | nil => exact h
  | cons line later ih =>
    simp only [skipEmpty] at hr ⊢
    split at hr
    · next hline =>
      rw [if_pos hline]
      exact ih rfl hr
    · next hline => exact absurd (by simpa [atLine] using hr) hline

theorem later_fill (h : c.fill.rest = []) : c.fill.later = [] := by
  unfold fill at h ⊢
  split
  · next hr =>
    rw [if_pos hr] at h
    exact later_skipEmpty rfl h
  · next hr =>
    rw [if_neg hr] at h
    exact absurd (by simp [h]) hr

theorem remaining_of_fill_nil (h : c.fill.rest = []) : c.remaining = [] := by
  rw [← remaining_fill, remaining, h, later_fill h]
  rfl

theorem fill_rest_of_remaining_nil (h : c.remaining = []) : c.fill.rest = [] :=
  (List.append_eq_nil_iff.1 (c.remaining_fill.trans h)).1

theorem head?_fill_rest (c : Cursor) : c.fill.rest.head? = c.remaining.head? := by
  cases hr : c.fill.rest with
  | nil => rw [remaining_of_fill_nil hr]
  | cons g t => rw [← remaining_fill, remaining, hr]; rfl

theorem head?_of_peek {next : Option Glyph} (h : c.peek = .ok next) :
    next = c.remaining.head? := by
  rw [← head?_fill_rest]
  cases hr : c.fill.rest with
  | nil =>
    cases he : c.fill.ending with
    | endOfInput =>
      simp only [peek, hr, he] at h
      cases h
      rfl
    | failure reason =>
      simp only [peek, hr, he] at h
      cases h
  | cons g t =>
    simp only [peek, hr] at h
    cases h
    rfl

end Cursor

/-! ## Lines with their newlines -/

namespace Text

/-- Lines as a text is split into them: each has one newline, at its end, but the last may lack
it. -/
def IsSplit : List Text → Prop
  | [] => True
  | line :: later =>
    ((∃ body, line = body ++ [.char '\n'] ∧ .char '\n' ∉ body) ∨ later = [] ∧ .char '\n' ∉ line) ∧
      IsSplit later

theorem isSplit_onFirst {g : Glyph} (hg : g ≠ .char '\n') {ls : List Text} (h : IsSplit ls) :
    IsSplit (onFirst [g] ls) := by
  cases ls with
  | nil => exact ⟨.inr ⟨rfl, by simpa using hg.symm⟩, trivial⟩
  | cons line later =>
    refine ⟨?_, h.2⟩
    rcases h.1 with ⟨body, rfl, hbody⟩ | ⟨rfl, hline⟩
    · exact .inl ⟨g :: body, rfl, by simp [hg.symm, hbody]⟩
    · exact .inr ⟨rfl, by simp [hg.symm, hline]⟩

theorem isSplit_lines (t : Text) : IsSplit t.lines := by
  induction t with
  | nil => trivial
  | cons g t ih =>
    by_cases hg : g = .char '\n'
    · rw [hg, lines_newline]
      exact ⟨.inl ⟨[], rfl, by simp⟩, ih⟩
    · rw [lines_cons_of_ne hg]
      exact isSplit_onFirst hg ih

theorem ne_nil_of_mem_lines {t l : Text} (h : l ∈ t.lines) : l ≠ [] := by
  induction t generalizing l with
  | nil => cases h
  | cons g t ih =>
    by_cases hg : g = .char '\n'
    · rw [hg, lines_newline] at h
      rcases List.mem_cons.1 h with rfl | h
      · exact List.cons_ne_nil _ _
      · exact ih h
    · rw [lines_cons_of_ne hg] at h
      generalize lines t = ls at h ih
      cases ls with
      | nil => simp_all [onFirst]
      | cons line later =>
        rcases List.mem_cons.1 h with rfl | h
        · exact List.cons_ne_nil _ _
        · exact ih (List.mem_cons_of_mem _ h)

theorem lines_append_newline {body : Text} (h : .char '\n' ∉ body) (t : Text) :
    lines (body ++ .char '\n' :: t) = (body ++ [.char '\n']) :: lines t := by
  induction body with
  | nil => exact lines_newline t
  | cons g body ih =>
    have hg : g ≠ .char '\n' := fun hg => h (by simp [hg])
    rw [List.cons_append, lines_cons_of_ne hg, ih fun hm => h (List.mem_cons_of_mem g hm)]
    rfl

theorem lines_of_not_mem {t : Text} (h : .char '\n' ∉ t) (ht : t ≠ []) : lines t = [t] := by
  induction t with
  | nil => exact absurd rfl ht
  | cons g t ih =>
    have hg : g ≠ .char '\n' := fun hg => h (by simp [hg])
    rw [lines_cons_of_ne hg]
    cases t with
    | nil => rfl
    | cons g' t =>
      rw [ih (fun hm => h (List.mem_cons_of_mem g hm)) (List.cons_ne_nil _ _)]
      rfl

/-- A text has one split into lines that are not empty. -/
theorem IsSplit.lines_flatten {ls : List Text} (h : IsSplit ls) (hne : ∀ l ∈ ls, l ≠ []) :
    lines ls.flatten = ls := by
  induction ls with
  | nil => rfl
  | cons line later ih =>
    have hlater := ih h.2 fun l hl => hne l (List.mem_cons_of_mem _ hl)
    rcases h.1 with ⟨body, rfl, hbody⟩ | ⟨rfl, hline⟩
    · rw [List.flatten_cons, List.append_assoc, List.singleton_append,
        lines_append_newline hbody, hlater]
    · rw [List.flatten_cons, List.flatten_nil, List.append_nil]
      exact lines_of_not_mem hline (hne _ List.mem_cons_self)

theorem IsSplit.drop {ls : List Text} (h : IsSplit ls) (n : Nat) : IsSplit (ls.drop n) := by
  induction n generalizing ls with
  | zero => exact h
  | succ n ih =>
    cases ls with
    | nil => trivial
    | cons line later => exact ih h.2

end Text

namespace Cursor

variable {c d : Cursor}

/-- A cursor in the lines of a text. -/
def Lined (c : Cursor) : Prop :=
  Text.IsSplit (c.whole :: c.later)

theorem lined_ofText (t : Text) : (ofText t).Lined := by
  have h := t.isSplit_lines
  unfold ofText
  cases hl : t.lines with
  | nil => exact ⟨.inr ⟨rfl, by simp [ofLines, atLine]⟩, trivial⟩
  | cons line later =>
    rw [hl] at h
    exact h

theorem Leads.lined (h : c.Leads d) (hc : c.Lined) : d.Lined := by
  rcases h.lines with ⟨-, hw, hl, -⟩ | ⟨-, hl⟩
  · rw [Lined, hw, hl]
    exact hc
  · rw [Lined, ← hl]
    exact hc.2.drop _

theorem column_le_of_rest_ne_nil {body : Text} {g : Glyph} (hr : c.rest ≠ [])
    (hw : c.whole = body ++ [g]) : c.column ≤ body.length := by
  have hpos := List.length_pos_iff.2 hr
  simp only [c.rest_eq, hw, List.length_drop, List.length_append, List.length_singleton] at hpos
  omega

/-- What is left of a line ends in its only newline, unless the line is the last one. -/
theorem Lined.rest_cases (h : c.Lined) (hr : c.rest ≠ []) :
    (∃ body, c.rest = body ++ [.char '\n'] ∧ .char '\n' ∉ body) ∨
      c.later = [] ∧ .char '\n' ∉ c.rest := by
  rcases h.1 with ⟨body, hw, hbody⟩ | ⟨hl, hw⟩
  · refine .inl ⟨body.drop c.column, ?_, fun hmem => hbody (List.mem_of_mem_drop hmem)⟩
    rw [c.rest_eq, hw, List.drop_append_of_le_length (column_le_of_rest_ne_nil hr hw)]
  · rw [c.rest_eq]
    exact .inr ⟨hl, fun hmem => hw (List.mem_of_mem_drop hmem)⟩

/-- Glyphs before a cursor of which at most the last one is a newline lie in one line. -/
theorem Lined.exists_fill_rest (hc : c.Lined) {u v : Text} {g : Glyph} (hu : .char '\n' ∉ u)
    (h : c.remaining = u ++ g :: v) :
    ∃ w, c.fill.rest = u ++ g :: w ∧ w <+: v ∧ c.Leads (c.fill.advance (u.length + 1)) ∧
      (c.fill.advance (u.length + 1)).remaining = v := by
  have hfill : c.fill.rest ++ c.fill.later.flatten = u ++ g :: v := by
    rw [← h, ← remaining_fill]
    rfl
  have hw : ∃ w, c.fill.rest = u ++ g :: w := by
    have hne : c.fill.rest ≠ [] := fun hnil => by simp [remaining_of_fill_nil hnil] at h
    rcases (c.leads_fill.lined hc).rest_cases hne with ⟨body, hbody, -⟩ | ⟨hlater, -⟩
    · rw [hbody, List.append_assoc, List.append_eq_append_iff] at hfill
      rcases hfill with ⟨t, rfl, ht⟩ | ⟨t, rfl, ht⟩
      · cases t with
        | nil => exact ⟨[], by rw [hbody, ← (List.cons.inj ht).1, List.append_nil]⟩
        | cons g' t =>
          -- The newline of the line would stand too far in front.
          rw [← (List.cons.inj ht).1] at hu
          simp at hu
      · cases t with
        | nil => exact ⟨[], by rw [hbody, (List.cons.inj ht).1, List.append_nil]⟩
        | cons g' t => exact ⟨t ++ [.char '\n'], by rw [hbody, (List.cons.inj ht).1]; simp⟩
    · exact ⟨v, by simpa [hlater] using hfill⟩
  obtain ⟨w, hw⟩ := hw
  have hlength : u.length + 1 ≤ c.fill.rest.length := by simp [hw]
  refine ⟨w, hw, ⟨c.fill.later.flatten, by simpa [hw] using hfill⟩,
    c.leads_fill.trans (leads_advance hlength), ?_⟩
  rw [remaining_advance hlength, remaining_fill, h]
  simp

end Cursor

/-! ## Layout -/

/-- The end of a block comment. -/
def commentEnd : Text :=
  [.char '*', .char '/']

/-- A text in front of `behind` that is white space or, where comments are not kept, white space and
complete comments. A comment to the end of its line needs no newline where the whole text ends. -/
inductive Text.IsLayout (keepComments : Bool) : Text → Text → Prop where
  | nil {behind} : IsLayout keepComments [] behind
  | blank {g t behind} (hg : CharClass.isBlank g.code) (ht : IsLayout keepComments t behind) :
      IsLayout keepComments (g :: t) behind
  | line {body t behind} (hk : keepComments = false) (hb : .char '\n' ∉ body)
      (ht : IsLayout keepComments t behind) :
      IsLayout keepComments (.char '%' :: body ++ .char '\n' :: t) behind
  | lastLine {body} (hk : keepComments = false) (hb : .char '\n' ∉ body) :
      IsLayout keepComments (.char '%' :: body) []
  | block {body t behind} (hk : keepComments = false) (hb : ¬commentEnd <:+: body)
      (ht : IsLayout keepComments t behind) :
      IsLayout keepComments (.char '/' :: .char '*' :: body ++ commentEnd ++ t) behind

theorem not_infix_of_commentLengthFrom {n : Nat} {t : Text} (h : commentLengthFrom n t = none) :
    ¬commentEnd <:+: t := by
  fun_induction commentLengthFrom n t with
  | case1 => simp [commentEnd]
  | case2 => cases h
  | case3 n g t hne ih =>
    rw [List.infix_cons_iff, not_or]
    refine ⟨fun hprefix => ?_, ih h⟩
    obtain ⟨u, hu⟩ := hprefix
    cases hu
    exact hne u rfl rfl

/-- The first end of a block comment in a text. -/
theorem exists_of_commentLengthFrom {n m : Nat} {t : Text} (h : commentLengthFrom n t = some m) :
    ∃ body u, t = body ++ commentEnd ++ u ∧ m = n + body.length + 2 ∧ ¬commentEnd <:+: body := by
  fun_induction commentLengthFrom n t with
  | case1 => cases h
  | case2 n u =>
    cases h
    exact ⟨[], u, rfl, rfl, by simp [commentEnd]⟩
  | case3 n g t hne ih =>
    obtain ⟨body, u, rfl, hm, hbody⟩ := ih h
    refine ⟨g :: body, u, rfl, by simp only [List.length_cons]; omega, ?_⟩
    rw [List.infix_cons_iff, not_or]
    refine ⟨fun hprefix => ?_, hbody⟩
    obtain ⟨v, hv⟩ := hprefix
    cases hv
    exact hne (v ++ commentEnd ++ u) rfl (by simp)

/-- An end of a block comment does not reach over a newline. -/
theorem not_infix_append {t u : Text} (ht : ¬commentEnd <:+: t ++ [.char '\n'])
    (hu : ¬commentEnd <:+: u) : ¬commentEnd <:+: t ++ .char '\n' :: u := by
  induction t with
  | nil =>
    rw [List.nil_append, List.infix_cons_iff, not_or]
    refine ⟨fun hprefix => ?_, hu⟩
    obtain ⟨v, hv⟩ := hprefix
    cases hv
  | cons g t ih =>
    rw [List.cons_append, List.infix_cons_iff, not_or] at ht ⊢
    refine ⟨fun hprefix => ht.1 ?_, ih ht.2⟩
    cases t with
    | nil => obtain ⟨v, hv⟩ := hprefix; cases hv
    | cons h t =>
      obtain ⟨v, hv⟩ := hprefix
      cases hv
      exact ⟨t ++ [.char '\n'], rfl⟩

theorem upTo_afterComment? {c after : Cursor} {later : List Text} (hc : c.Lined)
    (hl : c.later = later) (h : afterComment? c later = some after) :
    ∃ body, c.upTo after = body ++ commentEnd ∧ ¬commentEnd <:+: body := by
  have hsome {c : Cursor} {n : Nat} (hn : commentLengthFrom 0 c.rest = some n) :
      ∃ body, c.upTo (c.advance n) = body ++ commentEnd ∧ ¬commentEnd <:+: body := by
    obtain ⟨body, u, hrest, rfl, hbody⟩ := exists_of_commentLengthFrom hn
    refine ⟨body, ?_, hbody⟩
    rw [Cursor.upTo_advance, hrest]
    exact List.take_left' (by simp [commentEnd])
  induction later generalizing c with
  | nil =>
    obtain ⟨n, hn, rfl⟩ := Option.map_eq_some_iff.1 h
    exact hsome hn
  | cons line later ih =>
    simp only [afterComment?] at h
    split at h
    · next n hn =>
      cases h
      exact hsome hn
    · next hn =>
      have hline := Cursor.leads_atLine hl
      obtain ⟨body, hbody, hinfix⟩ := ih (hline.lined hc) rfl h
      refine ⟨c.rest ++ body, ?_, ?_⟩
      · rw [hline.upTo_trans (leads_afterComment? rfl h), Cursor.upTo_atLine, hbody,
          List.append_assoc]
      · by_cases hr : c.rest = []
        · rwa [hr, List.nil_append]
        · rcases hc.rest_cases hr with ⟨front, hrest, -⟩ | ⟨hnil, -⟩
          · have := not_infix_of_commentLengthFrom hn
            rw [hrest] at this ⊢
            rw [List.append_assoc]
            exact not_infix_append this hinfix
          · simp [hl] at hnil

theorem Cursor.upTo_toLineEnd (c : Cursor) : c.upTo c.toLineEnd = c.rest := by
  rw [toLineEnd, upTo_advance, List.take_length]

/-- A comment from a percent sign on ends in the newline of its line, or nothing comes behind it. -/
theorem Cursor.Lined.percent_cases {c : Cursor} {t : Text} (hc : c.Lined)
    (hr : c.rest = .char '%' :: t) :
    (∃ body, c.rest = .char '%' :: body ++ [.char '\n'] ∧ .char '\n' ∉ body) ∨
      c.toLineEnd.remaining = [] ∧ .char '\n' ∉ t := by
  rcases hc.rest_cases (by simp [hr]) with ⟨body, hbody, hnewline⟩ | ⟨hlater, hnewline⟩
  · cases body with
    | nil => simp [hr] at hbody
    | cons g body =>
      obtain rfl : g = .char '%' := (List.cons.inj (hbody.symm.trans hr)).1
      exact .inl ⟨body, hbody, fun h => hnewline (List.mem_cons_of_mem _ h)⟩
  · rw [hr] at hnewline
    refine .inr ⟨?_, fun h => hnewline (List.mem_cons_of_mem _ h)⟩
    simp [remaining, toLineEnd, advance, hlater]

/-- The comment that a percent sign starts, with the layout behind it. -/
theorem Cursor.Lined.isLayout_line {c : Cursor} {t gap behind : Text} {keepComments : Bool}
    (hc : c.Lined) (hr : c.rest = .char '%' :: t) (hk : keepComments = false)
    (hsplit : c.toLineEnd.remaining = gap ++ behind) (hgap : gap.IsLayout keepComments behind) :
    (c.rest ++ gap).IsLayout keepComments behind := by
  rcases hc.percent_cases hr with ⟨body, hbody, hnewline⟩ | ⟨hnil, hnewline⟩
  · rw [hbody]
    simpa using Text.IsLayout.line hk hnewline hgap
  · obtain ⟨rfl, rfl⟩ := List.append_eq_nil_iff.1 (hsplit.symm.trans hnil)
    rw [hr, List.append_nil]
    exact .lastLine hk hnewline

/-- The text of a block comment. -/
theorem Cursor.Lined.upTo_block {c after : Cursor} {g : Glyph} {t : Text} (hc : c.Lined)
    (hr : c.rest = g :: t) (ho : Lexeme.opensComment (g :: t))
    (ha : afterComment? (c.advance 2) c.later = some after) :
    c.Leads after ∧ ∃ body,
      c.upTo after = .char '/' :: .char '*' :: body ++ commentEnd ∧ ¬commentEnd <:+: body := by
  have hopen : c.Leads (c.advance 2) := leads_advance (hr ▸ Lexeme.two_le_of_opensComment ho)
  have hclose : (c.advance 2).Leads after := leads_afterComment? rfl ha
  obtain ⟨body, hbody, hinfix⟩ := upTo_afterComment? (hopen.lined hc) rfl ha
  refine ⟨hopen.trans hclose, body, ?_, hinfix⟩
  have htake : c.rest.take 2 = [.char '/', .char '*'] := by
    rw [hr]
    unfold Lexeme.opensComment at ho
    split at ho
    · next heq => rw [heq]; rfl
    · cases ho
  rw [hopen.upTo_trans hclose, upTo_advance, htake, hbody]
  rfl

/-! ## Where a token starts -/

namespace Cursor

variable {c start : Cursor} {keepComments : Bool}

theorem fill_skipEmpty {later : List Text} (h : c.later = later) :
    (c.skipEmpty later).fill = c.skipEmpty later := by
  induction later generalizing c with
  | nil =>
    unfold skipEmpty fill
    rw [h]
    split <;> rfl
  | cons line later ih =>
    simp only [skipEmpty]
    split
    · exact ih rfl
    · next hline => simp [fill, atLine, hline]

theorem fill_fill (c : Cursor) : c.fill.fill = c.fill := by
  by_cases hr : c.rest.isEmpty
  · rw [show c.fill = c.skipEmpty c.later from if_pos hr]
    exact fill_skipEmpty rfl
  · rw [show c.fill = c from if_neg hr]
    exact if_neg hr

theorem remaining_toEndOf {later : List Text} (h : c.later = later) :
    (c.toEndOf later).remaining = [] := by
  induction later generalizing c with
  | nil => simp [toEndOf, toLineEnd, advance, remaining, h]
  | cons line later ih => exact ih rfl

theorem remaining_toEnd (c : Cursor) : c.toEnd.remaining = [] :=
  remaining_toEndOf rfl

/-- A cursor that has no layout before it. -/
structure AtToken (keepComments : Bool) (c : Cursor) : Prop where
  fill : c.fill = c
  bare : ∀ gap behind, c.remaining = gap ++ behind → gap.IsLayout keepComments behind → gap = []

theorem atToken_fill_of_nil (h : c.fill.rest = []) : c.fill.AtToken keepComments := by
  refine ⟨c.fill_fill, fun gap behind hsplit _ => ?_⟩
  rw [remaining_fill, remaining_of_fill_nil h] at hsplit
  exact (List.append_eq_nil_iff.1 hsplit.symm).1

end Cursor

/-- A block comment goes on to the end of the text just if its end stands nowhere in it. -/
theorem afterComment?_eq_none_iff {c : Cursor} (hc : c.Lined) :
    afterComment? c c.later = none ↔ ¬commentEnd <:+: c.remaining := by
  refine ⟨fun h => ?_, fun h => ?_⟩
  · generalize hl : c.later = later at h
    induction later generalizing c with
    | nil =>
      simp only [afterComment?, Option.map_eq_none_iff] at h
      rw [Cursor.remaining, hl, List.flatten_nil, List.append_nil]
      exact not_infix_of_commentLengthFrom h
    | cons line later ih =>
      simp only [afterComment?] at h
      split at h
      · cases h
      · next hn =>
        have hlast := ih ((Cursor.leads_atLine hl).lined hc) rfl h
        have hremaining : c.remaining =
            c.rest ++ (Cursor.atLine (c.number + 1) line later c.ending).remaining := by
          rw [Cursor.remaining, hl]
          rfl
        rw [hremaining]
        by_cases hr : c.rest = []
        · rwa [hr, List.nil_append]
        · rcases hc.rest_cases hr with ⟨front, hrest, -⟩ | ⟨hnil, -⟩
          · have hfront := not_infix_of_commentLengthFrom hn
            rw [hrest] at hfront ⊢
            rw [List.append_assoc]
            exact not_infix_append hfront hlast
          · simp [hl] at hnil
  · cases ha : afterComment? c c.later with
    | none => rfl
    | some after =>
      obtain ⟨body, hbody, -⟩ := upTo_afterComment? hc rfl ha
      refine absurd ⟨body, after.remaining, ?_⟩ h
      rw [(leads_afterComment? rfl ha).remaining_eq, hbody]

/-- There is no layout where neither white space nor a complete comment stands. -/
theorem Cursor.Lined.atToken_fill {c : Cursor} {keepComments : Bool} {g : Glyph} {t : Text}
    (hc : c.Lined) (hr : c.fill.rest = g :: t) (hblank : CharClass.isBlank g.code = false)
    (hline : keepComments = false → g ≠ .char '%')
    (hblock : keepComments = false → Lexeme.opensComment (g :: t) →
      afterComment? (c.fill.advance 2) c.fill.later = none) : c.fill.AtToken keepComments := by
  have hremaining : c.fill.remaining = g :: (t ++ c.fill.later.flatten) := by
    rw [remaining, hr]
    rfl
  refine ⟨c.fill_fill, fun gap behind hsplit hgap => ?_⟩
  have hhead := hremaining.symm.trans hsplit
  cases hgap with
  | nil => rfl
  | blank hg =>
    rw [← (List.cons.inj hhead).1, hblank] at hg
    cases hg
  | line hk | lastLine hk => exact absurd (List.cons.inj hhead).1 (hline hk)
  | @block body u behind hk =>
    -- The comment has its opening in one line, and its end in this line or a later one.
    rw [remaining_fill] at hsplit
    obtain ⟨w, hw, -, hopen, hinside⟩ := hc.exists_fill_rest (u := [.char '/']) (by decide) hsplit
    have hopens : Lexeme.opensComment (g :: t) := by
      rw [← hr, hw]
      rfl
    refine absurd ?_ ((afterComment?_eq_none_iff (hopen.lined hc)).1 (hblock hk hopens))
    exact ⟨body, u ++ behind, (List.append_assoc ..).symm.trans hinside.symm⟩

theorem scanFrom_fill (flags : Flags) (layout : Bool) (c : Cursor) :
    scanFrom flags layout c.fill = scanFrom flags layout c :=
  scanFrom_eq_of_fill flags layout c.fill_fill

/-- Scanning passes over layout to a point that has none before it, and goes on from there. -/
structure Cursor.PassesTo (flags : Flags) (layout : Bool) (c start : Cursor) : Prop where
  leads : c.Leads start
  gap : (c.upTo start).IsLayout flags.keepComments start.remaining
  atToken : start.AtToken flags.keepComments
  scan : scanFrom flags layout c = scanFrom flags (layout || !(c.upTo start).isEmpty) start

namespace Cursor

variable {flags : Flags} {layout : Bool} {c d start : Cursor}

theorem AtToken.passesTo (h : c.fill.AtToken flags.keepComments) :
    c.PassesTo flags layout c.fill := by
  refine ⟨c.leads_fill, ?_, h, ?_⟩
  · rw [upTo_fill]
    exact .nil
  · rw [upTo_fill, scanFrom_fill]
    simp

theorem PassesTo.behind (h : d.PassesTo flags true start) (hcd : c.fill.Leads d)
    (hne : c.fill.upTo d ≠ []) (hscan : scanFrom flags layout c = scanFrom flags true d)
    (hlayout : ∀ gap behind, d.remaining = gap ++ behind → gap.IsLayout flags.keepComments behind →
      (c.fill.upTo d ++ gap).IsLayout flags.keepComments behind) :
    c.PassesTo flags layout start := by
  have hupTo : c.upTo start = c.fill.upTo d ++ d.upTo start := by
    rw [c.leads_fill.upTo_trans (hcd.trans h.leads), c.upTo_fill, hcd.upTo_trans h.leads,
      List.nil_append]
  refine ⟨c.leads_fill.trans (hcd.trans h.leads), ?_, h.atToken, ?_⟩
  · rw [hupTo]
    exact hlayout _ _ h.leads.remaining_eq h.gap
  · have hfalse : (c.upTo start).isEmpty = false := by simp [hupTo, hne]
    rw [hscan, h.scan, hfalse]
    simp

end Cursor

section

variable {flags : Flags} {c : Cursor} {g : Glyph} {t : Text}

theorem scanFrom_blank (layout : Bool) (hr : c.fill.rest = g :: t)
    (hb : CharClass.isBlank g.code = true) :
    scanFrom flags layout c = scanFrom flags true (c.fill.advance 1) := by
  rw [scanFrom_eq, hr]
  simp [hb]

theorem scanFrom_line (layout : Bool) (hk : flags.keepComments = false)
    (hr : c.fill.rest = .char '%' :: t) :
    scanFrom flags layout c = scanFrom flags true c.fill.toLineEnd := by
  rw [scanFrom_eq, hr]
  simp [hk, show CharClass.isBlank (Glyph.char '%').code = false by decide]

theorem scanFrom_block {after : Cursor} (layout : Bool) (hk : flags.keepComments = false)
    (hr : c.fill.rest = .char '/' :: .char '*' :: t)
    (ha : afterComment? (c.fill.advance 2) c.fill.later = some after) :
    scanFrom flags layout c = scanFrom flags true after := by
  rw [scanFrom_eq, hr]
  simp [hk, ha, Lexeme.opensComment, show CharClass.isBlank (Glyph.char '/').code = false by decide]

end

theorem exists_passesTo (flags : Flags) (layout : Bool) (c : Cursor) (hc : c.Lined) :
    ∃ start, c.PassesTo flags layout start := by
  have hfill {c : Cursor} (hc : c.Lined) := c.leads_fill.lined hc
  have hopens {g : Glyph} {t : Text} (ho : Lexeme.opensComment (g :: t) = true) :
      ∃ u, g :: t = .char '/' :: .char '*' :: u := by
    obtain ⟨u, hu⟩ := Lexeme.opensComment_iff.1 ho
    exact ⟨u, hu.symm⟩
  fun_induction scanFrom flags layout c with
  | case1 _ c _ hr | case2 _ c _ hr =>
    exact ⟨c.fill, (Cursor.atToken_fill_of_nil hr).passesTo⟩
  | case3 layout c d g t hr _ _ hblank _ ih =>
    replace hr : c.fill.rest = g :: t := hr
    have hleads : c.fill.Leads (c.fill.advance 1) := Cursor.leads_advance (by simp [hr])
    have hgap : c.fill.upTo (c.fill.advance 1) = [g] := by
      rw [Cursor.upTo_advance, hr]
      rfl
    obtain ⟨start, hstart⟩ := ih (hleads.lined (hfill hc))
    refine ⟨start, hstart.behind hleads (hgap ▸ List.cons_ne_nil g [])
      (scanFrom_blank layout hr hblank) ?_⟩
    intro gap behind _ hlayout
    rw [hgap]
    exact .blank hblank hlayout
  | case4 layout c d t _ after hk hr _ hblank =>
    have htoken : c.fill.AtToken flags.keepComments :=
      hc.atToken_fill hr (by simpa using hblank) (by simp [hk]) (by simp [hk])
    exact ⟨c.fill, htoken.passesTo⟩
  | case5 layout c d t _ after hk hr _ _ _ ih =>
    have hdrop : flags.keepComments = false := by simpa using hk
    have hleads := c.fill.leads_toLineEnd
    have hgap := c.fill.upTo_toLineEnd
    obtain ⟨start, hstart⟩ := ih (hleads.lined (hfill hc))
    refine ⟨start, hstart.behind hleads ?_ (scanFrom_line layout hdrop hr) ?_⟩
    · rw [hgap, show c.fill.rest = _ from hr]
      exact List.cons_ne_nil _ _
    · intro gap behind hsplit hlayout
      rw [hgap]
      exact (hfill hc).isLayout_line hr hdrop hsplit hlayout
  | case6 layout c d g t hr _ _ hblank hpercent ho ha =>
    have htoken : c.fill.AtToken flags.keepComments :=
      hc.atToken_fill hr (by simpa using hblank) (fun _ => hpercent) fun _ _ => ha
    exact ⟨c.fill, htoken.passesTo⟩
  | case7 layout c d g t hr _ _ hblank hpercent ho after ha hk =>
    have htoken : c.fill.AtToken flags.keepComments :=
      hc.atToken_fill hr (by simpa using hblank) (by simp [hk]) (by simp [hk])
    exact ⟨c.fill, htoken.passesTo⟩
  | case8 layout c d g t hr _ _ _ _ ho after ha hk _ ih =>
    have hdrop : flags.keepComments = false := by simpa using hk
    obtain ⟨hleads, body, hgap, hbody⟩ := (hfill hc).upTo_block hr ho ha
    obtain ⟨u, hu⟩ := hopens ho
    obtain ⟨start, hstart⟩ := ih (hleads.lined (hfill hc))
    refine ⟨start, hstart.behind hleads (by simp [hgap])
      (scanFrom_block layout hdrop (hr.trans hu) ha) ?_⟩
    intro gap behind _ hlayout
    rw [hgap]
    exact .block hdrop hbody hlayout
  | case9 layout c d g t hr _ _ hblank hpercent ho =>
    have htoken : c.fill.AtToken flags.keepComments :=
      hc.atToken_fill hr (by simpa using hblank) (fun _ => hpercent) fun _ h => absurd h ho
    exact ⟨c.fill, htoken.passesTo⟩

/-- What scanning finds at a point that has no layout before it. -/
def Scan.found (flags : Flags) (layout : Bool) (c : Cursor) : Scan :=
  match c.rest with
  | [] =>
    match c.ending with
    | .failure reason => .failure reason c
    | .endOfInput => .token ⟨.endOfFile, [], layout, false, c.place⟩ c
  | g :: t =>
    if g = .char '%' then
      .token ⟨.comment, c.rest.trimLineEnd, layout, false, c.place⟩ c.toLineEnd
    else if Lexeme.opensComment (g :: t) then
      match afterComment? (c.advance 2) c.later with
      | none => .unended .unterminatedComment c c.toEnd
      | some after => .token ⟨.comment, c.upTo after, layout, false, c.place⟩ after
    else .lexeme flags layout g.code c

theorem Cursor.AtToken.scanFrom_eq {flags : Flags} {c : Cursor}
    (h : c.AtToken flags.keepComments) (hc : c.Lined) (layout : Bool) :
    scanFrom flags layout c = .found flags layout c := by
  have hbare {d : Cursor} {gap : Text} (hd : c.Leads d) (hspan : c.upTo d = gap)
      (hgap : gap.IsLayout flags.keepComments d.remaining) : gap = [] :=
    h.bare gap _ (hspan ▸ hd.remaining_eq) hgap
  rw [PrologText.scanFrom_eq, h.fill, Scan.found]
  cases hr : c.rest with
  | nil => rfl
  | cons g t =>
    -- White space and comments that are not kept would be layout.
    have hblank : CharClass.isBlank g.code = false := by
      rw [Bool.eq_false_iff]
      intro hblank
      have hspan : c.upTo (c.advance 1) = [g] := by
        rw [upTo_advance, hr]
        rfl
      have hnil := hbare (leads_advance (by simp [hr])) hspan (.blank hblank .nil)
      cases hnil
    have hline (hg : g = .char '%') : flags.keepComments = true := by
      rw [← Bool.not_eq_false]
      intro hk
      have hline := hc.isLayout_line (hg ▸ hr) hk (List.nil_append _).symm .nil
      rw [List.append_nil] at hline
      have hnil := hbare c.leads_toLineEnd c.upTo_toLineEnd hline
      simp [hr] at hnil
    have hblock {after : Cursor} (ho : Lexeme.opensComment (g :: t))
        (ha : afterComment? (c.advance 2) c.later = some after) : flags.keepComments = true := by
      rw [← Bool.not_eq_false]
      intro hk
      obtain ⟨hleads, body, hspan, hbody⟩ := hc.upTo_block hr ho ha
      have hblock : Text.IsLayout flags.keepComments _ after.remaining :=
        .block (t := []) hk hbody .nil
      rw [List.append_nil] at hblock
      have hnil := hbare hleads hspan hblock
      cases hnil
    simp only [hblank, Bool.false_eq_true, if_false]
    split
    · next hg => simp only [hline hg, if_true]
    · split
      · next ho =>
        cases ha : afterComment? (c.advance 2) c.later with
        | none => rfl
        | some after => simp only [hblock ho ha, if_true]
      · rfl

end PrologText
