import PrologText.Proofs.Classes
import PrologText.Proofs.Motion

/-!
# How far a token is looked at

A lexeme is complete before white space, and in most cases before a full stop that ends the sentence
(`Lexeme.ofText_blank`, `Lexeme.ofText_stop`). So a text that ends in white space starts with the
same lexeme however it goes on (`Lexeme.ofText_prolong`). An escape sequence and a comment that are
complete stay what they are.
-/

namespace PrologText

/-- A text that ends in white space. -/
def Text.EndsBlank (t : Text) : Prop :=
  ∃ g, t.getLast? = some g ∧ CharClass.isBlank g.code = true

namespace Text.EndsBlank

variable {t u : Text} {g : Glyph}

theorem ne_nil (h : t.EndsBlank) : t ≠ [] := by
  rintro rfl
  obtain ⟨g, hg, _⟩ := h
  cases hg

theorem of_suffix (h : t.EndsBlank) (hu : u <:+ t) (hne : u ≠ []) : u.EndsBlank := by
  obtain ⟨g, hg, hb⟩ := h
  obtain ⟨s, rfl⟩ := hu
  refine ⟨g, ?_, hb⟩
  rw [List.getLast?_append] at hg
  cases hu : u.getLast? with
  | none => exact absurd (List.getLast?_eq_none_iff.1 hu) hne
  | some g' =>
    rw [hu] at hg
    exact hg

theorem append_left (h : t.EndsBlank) (u : Text) : EndsBlank (u ++ t) := by
  obtain ⟨g, hg, hb⟩ := h
  exact ⟨g, by rw [List.getLast?_append, hg, Option.some_or], hb⟩

/-- Something stands behind a glyph that is no white space. -/
theorem tail (h : EndsBlank (g :: t)) (hg : CharClass.isBlank g.code = false) : t.EndsBlank := by
  refine h.of_suffix (List.suffix_cons g t) ?_
  rintro rfl
  obtain ⟨g', hg', hb⟩ := h
  cases hg'
  simp [hg] at hb

theorem exists_cons (h : EndsBlank (g :: t)) (hg : CharClass.isBlank g.code = false) :
    ∃ g' t', t = g' :: t' :=
  List.exists_cons_of_ne_nil (h.tail hg).ne_nil

end Text.EndsBlank

/-! ## Lexemes before a break -/

/-- What no lexeme goes on with, symbolic names aside: nothing, white space, or a full stop that
ends a sentence. -/
inductive Text.Break : Text → Prop where
  | nil : Break []
  | blank {g : Glyph} (h : CharClass.isBlank g.code = true) (u : Text) : Break (g :: u)
  | stop {u : Text} (h : Lexeme.endsSentence u = true) : Break (.char '.' :: u)

namespace Lexeme

variable {t m u : Text} {g : Glyph} {p : Char → Bool}

/-- A class of characters without white space and the full stop. -/
def Inky (p : Char → Bool) : Prop :=
  ∀ c, p c = true → CharClass.isBlank c = false ∧ c ≠ '.'

theorem inky_isAlphanumeric : Inky CharClass.isAlphanumeric := by
  intro c h
  refine ⟨CharClass.isBlank_eq_false_of_isAlphanumeric h, ?_⟩
  rintro rfl
  exact absurd h (by decide)

theorem inky_isDecimal : Inky CharClass.isDecimal :=
  fun _ h => inky_isAlphanumeric _ (CharClass.isAlphanumeric_of_isDecimal h)

theorem inky_isHexadecimal : Inky CharClass.isHexadecimal :=
  fun _ h => inky_isAlphanumeric _ (CharClass.isAlphanumeric_of_isHexadecimal h)

theorem inky_isOctal : Inky CharClass.isOctal :=
  fun _ h => inky_isHexadecimal _ (CharClass.isHexadecimal_of_isOctal h)

theorem inky_of_base? {x : Char} {base : Nat} (h : base? x = some (base, p)) : Inky p := by
  unfold base? at h
  split at h <;> cases h
  · exact inky_isHexadecimal
  · exact inky_isOctal
  · exact fun _ h => inky_isHexadecimal _ (CharClass.isHexadecimal_of_isBinary h)

end Lexeme

namespace Text.Break

variable {m : Text} {g : Glyph}

theorem head_eq_false (hm : m.Break) {p : Char → Bool} (hp : Lexeme.Inky p)
    (hg : m.head? = some g) : p g.code = false := by
  rw [Bool.eq_false_iff]
  intro hpg
  obtain ⟨hblank, hstop⟩ := hp g.code hpg
  cases hm with
  | nil => cases hg
  | blank h =>
    cases hg
    simp [h] at hblank
  | stop =>
    cases hg
    exact hstop rfl

theorem head_ne (hm : m.Break) {c : Char} (hc : CharClass.isBlank c = false) (hstop : c ≠ '.') :
    m.head? ≠ some (.char c) := by
  intro h
  have := hm.head_eq_false (p := fun x => x = c) (fun x hx => by simp_all) h
  simp [Glyph.code] at this

/-- What a class of characters takes from a text it takes before a break as well. -/
theorem takeWhile (hm : m.Break) {p : Char → Bool} (hp : Lexeme.Inky p) (t : Text) :
    ((t ++ m).takeWhile fun g => p g.code) = t.takeWhile fun g => p g.code := by
  have hnil : (m.takeWhile fun g => p g.code) = [] := by
    cases m with
    | nil => rfl
    | cons g u => simp [hm.head_eq_false hp rfl]
  rw [List.takeWhile_append, hnil, List.append_nil]
  split
  · next h => exact ((List.takeWhile_sublist _).eq_of_length h).symm
  · rfl

end Text.Break

namespace Lexeme

variable {t m u : Text} {g : Glyph} {p : Char → Bool}

theorem run_break (hp : Inky p) (hm : m.Break) : run p (t ++ m) = run p t := by
  rw [run, run, hm.takeWhile hp]

theorem digitGroupsFrom_of_not (h : p g.code = false) (n : Nat)
    (t : Text) : digitGroupsFrom p n (g :: t) = n := by
  unfold digitGroupsFrom
  split
  · rfl
  · next heq =>
    cases heq
    simp [h]
  · next heq =>
    cases heq
    simp [h]

theorem digitGroupsFrom_of_head (h : ∀ g, t.head? = some g → p g.code = false) (n : Nat) :
    digitGroupsFrom p n t = n := by
  cases t with
  | nil => rfl
  | cons g t => exact digitGroupsFrom_of_not (h g rfl) n t

theorem digitGroupsFrom_break (hp : Inky p) (hm : m.Break) (n : Nat) :
    digitGroupsFrom p n (t ++ m) = digitGroupsFrom p n t := by
  have hscore : m.head? ≠ some (.char '_') := hm.head_ne (by decide) (by decide)
  fun_induction digitGroupsFrom p n t with
  | case1 => exact digitGroupsFrom_of_head (fun _ => hm.head_eq_false hp) _
  | case2 n g t hg hnext ih =>
    -- An underscore between digits.
    obtain ⟨g', t, rfl⟩ : ∃ g' t', t = g' :: t' := by
      cases t with
      | nil => cases hnext
      | cons g' t => exact ⟨g', t, rfl⟩
    rw [← ih, List.cons_append, List.cons_append, digitGroupsFrom, if_pos hg]
    exact if_pos hnext
  | case3 n g t hg hnext =>
    have hhead : ((t ++ m).head?.map fun d => p d.code) ≠ some true := by
      cases t with
      | nil =>
        intro h
        obtain ⟨d, hd, hpd⟩ := Option.map_eq_some_iff.1 h
        simp [hm.head_eq_false hp hd] at hpd
      | cons => exact hnext
    rw [List.cons_append, List.cons_append, digitGroupsFrom, if_pos hg, if_neg hhead]
  | case4 n g t hg => exact digitGroupsFrom_of_not (by simpa using hg) n _
  | case5 n g t hnot hg ih =>
    rw [List.cons_append, digitGroupsFrom, if_pos hg, ih]
    intro u hu
    cases t with
    | nil => exact hscore (by rw [← List.nil_append m, hu]; rfl)
    | cons g' t =>
      cases hu
      exact hnot _ rfl
  | case6 n g t hnot hg => exact digitGroupsFrom_of_not (by simpa using hg) n _

theorem digitGroups_break (hp : Inky p) (hm : m.Break) :
    digitGroups p (t ++ m) = digitGroups p t :=
  digitGroupsFrom_break hp hm 0

theorem exponentLength_cons (c : Char) (t : Text) :
    exponentLength (.char c :: t) =
      if c = 'e' ∨ c = 'E' then
        let sign := if t.head? = some (.char '+') ∨ t.head? = some (.char '-') then 1 else 0
        let digits := run CharClass.isDecimal (t.drop sign)
        if digits = 0 then 0 else 1 + sign + digits
      else 0 := by
  cases t with
  | nil => rfl
  | cons g t =>
    by_cases hplus : g = .char '+'
    · subst hplus
      rfl
    · by_cases hminus : g = .char '-'
      · subst hminus
        rfl
      · simp [exponentLength, hplus, hminus]

theorem exponentLength_of_break (hm : m.Break) : exponentLength m = 0 := by
  cases m with
  | nil => rfl
  | cons g u =>
    cases g with
    | stray => rfl
    | char c =>
      rw [exponentLength_cons, if_neg]
      rintro (rfl | rfl)
      · exact hm.head_ne (by decide) (by decide) rfl
      · exact hm.head_ne (by decide) (by decide) rfl

theorem exponentLength_break (hm : m.Break) : exponentLength (t ++ m) = exponentLength t := by
  have hplus : m.head? ≠ some (.char '+') := hm.head_ne (by decide) (by decide)
  have hminus : m.head? ≠ some (.char '-') := hm.head_ne (by decide) (by decide)
  have hrun (t : Text) : run CharClass.isDecimal (t ++ m) = run CharClass.isDecimal t :=
    run_break inky_isDecimal hm
  match t with
  | [] => exact exponentLength_of_break hm
  | .stray _ :: t => rfl
  | [.char c] =>
    have hnone : run CharClass.isDecimal m = 0 := hrun []
    have hnil : run CharClass.isDecimal [] = 0 := rfl
    rw [List.cons_append, exponentLength_cons, exponentLength_cons]
    simp [hplus, hminus, hnone, hnil]
  | .char c :: g :: t =>
    have hgrun := hrun (g :: t)
    rw [List.cons_append] at hgrun
    rw [List.cons_append, exponentLength_cons, exponentLength_cons]
    by_cases hsign : g = .char '+' ∨ g = .char '-'
    · simp [hsign, hrun]
    · simp [hsign, hgrun]

/-- The text behind the full stop of a break has no digits in front. -/
theorem digitGroups_of_stop (hm : Text.Break (.char '.' :: u)) :
    digitGroups CharClass.isDecimal u = 0 := by
  refine digitGroupsFrom_of_head (fun g hg => ?_) 0
  cases hm with
  | blank h => exact absurd h (by decide)
  | stop h =>
    cases u with
    | nil => cases hg
    | cons g' u =>
      cases hg
      simp only [endsSentence, Bool.or_eq_true, decide_eq_true_eq] at h
      rw [Bool.eq_false_iff]
      intro hd
      rcases h with h | rfl
      · simp [(inky_isDecimal _ hd).1] at h
      · exact absurd hd (by decide)

theorem floatLength_break (hm : m.Break) : floatLength (t ++ m) = floatLength t := by
  have hle := digitGroups_le CharClass.isDecimal t
  simp only [floatLength, digitGroups_break inky_isDecimal hm, List.drop_append_of_le_length hle]
  cases hrest : t.drop (digitGroups CharClass.isDecimal t) with
  | nil =>
    -- The whole text is digits; a full stop behind them has no digits behind it.
    rw [List.nil_append]
    split
    · rw [digitGroups_of_stop hm]
      simp
    · rfl
  | cons g rest =>
    by_cases hg : g = .char '.'
    · subst hg
      simp only [List.cons_append, digitGroups_break inky_isDecimal hm,
        List.drop_append_of_le_length (digitGroups_le CharClass.isDecimal rest),
        exponentLength_break hm]
    · simp [hg]

theorem base?_of_break {x : Char} (hm : Text.Break (.char x :: u)) : base? x = none := by
  unfold base?
  split
  · exact absurd rfl (hm.head_ne (c := 'x') (by decide) (by decide))
  · exact absurd rfl (hm.head_ne (c := 'o') (by decide) (by decide))
  · exact absurd rfl (hm.head_ne (c := 'b') (by decide) (by decide))
  · rfl

theorem basedInteger?_break (hm : m.Break) : basedInteger? (t ++ m) = basedInteger? t := by
  match t, m with
  | t, [] => rw [List.append_nil]
  | [], g :: m =>
    have hzero : g ≠ .char '0' := by
      rintro rfl
      exact hm.head_ne (by decide) (by decide) rfl
    simp [basedInteger?, hzero]
  | [g], .stray _ :: m => simp [basedInteger?]
  | [g], .char x :: m =>
    by_cases hg : g = .char '0'
    · simp [basedInteger?, hg, base?_of_break hm]
    · simp [basedInteger?, hg]
  | g :: g' :: t, m =>
    unfold basedInteger?
    split
    · next x _ heq =>
      cases heq
      simp only
      cases hbase : base? x with
      | none => rfl
      | some b =>
        have hdigits : digitGroups b.2 (t.append m) = _ :=
          digitGroups_break (inky_of_base? hbase) hm
        simp only [hdigits]
    · next hnot =>
      split
      · next heq =>
        cases heq
        exact absurd rfl (hnot _ _)
      · rfl

/-- A number other than a character code. -/
theorem number_of_ne (h : ∀ u, t ≠ .char '0' :: .char '\'' :: u) :
    number t =
      match basedInteger? t with
      | some (base, digits) => .plain (.integer base) 2 (2 + digits)
      | none =>
        match floatLength t with
        | 0 => .plain (.integer 10) 0 (digitGroups CharClass.isDecimal t)
        | length => .plain .float 0 length := by
  unfold number
  split
  · exact absurd rfl (h _)
  · rfl

theorem number_break (hm : m.Break) : number (t ++ m) = number t := by
  by_cases h : ∃ u, t = .char '0' :: .char '\'' :: u
  · obtain ⟨u, rfl⟩ := h
    rfl
  · have hne (u : Text) : t ++ m ≠ .char '0' :: .char '\'' :: u := by
      intro hu
      match t with
      | [] =>
        have hzero : m.head? = some (.char '0') := congrArg List.head? hu
        exact hm.head_ne (by decide) (by decide) hzero
      | [g] =>
        cases hu
        exact hm.head_ne (c := '\'') (by decide) (by decide) rfl
      | g :: g' :: t =>
        cases hu
        exact h ⟨_, rfl⟩
    rw [number_of_ne hne, number_of_ne (not_exists.1 h), basedInteger?_break hm,
      floatLength_break hm, digitGroups_break inky_isDecimal hm]

theorem opensComment_prolong (m : Text) (g : Glyph) (ht : t ≠ []) :
    opensComment (g :: (t ++ m)) = opensComment (g :: t) := by
  obtain ⟨g', t, rfl⟩ := List.exists_cons_of_ne_nil ht
  unfold opensComment
  split
  · next heq =>
    cases heq
    rfl
  · next h =>
    split
    · next heq =>
      cases heq
      exact absurd rfl (h _)
    · rfl

theorem opensComment_break (hm : m.Break) :
    opensComment (g :: (t ++ m)) = opensComment (g :: t) := by
  match t, m with
  | t, [] => rw [List.append_nil]
  | [], g' :: m =>
    have hstar : g' ≠ .char '*' := by
      rintro rfl
      exact hm.head_ne (by decide) (by decide) rfl
    simp [opensComment, hstar]
  | g' :: t, m => exact opensComment_prolong m g (by simp)

/-- The symbol characters of a text with something behind it that makes no comment of a slash. -/
theorem graphicRunFrom_break (hm : m.Break) (n : Nat) :
    graphicRunFrom n (t ++ m) =
      if graphicRunFrom n t = n + t.length then graphicRunFrom (n + t.length) m
      else graphicRunFrom n t := by
  induction t generalizing n with
  | nil => simp [graphicRunFrom]
  | cons g t ih =>
    have hle := graphicRunFrom_le (n + 1) t
    simp only [List.cons_append, graphicRunFrom, opensComment_break hm, ih, List.length_cons,
      Nat.add_right_comm n 1, Nat.add_assoc]
    split
    · rfl
    · rw [if_neg (by omega)]

theorem graphicRunFrom_of_blank (hg : CharClass.isBlank g.code = true) (n : Nat) :
    graphicRunFrom n (g :: u) = n := by
  have hnot : CharClass.isGraphic g.code = false := by
    rw [Bool.eq_false_iff]
    intro h
    simp [CharClass.isBlank_eq_false_of_isGraphic h] at hg
  simp [graphicRunFrom, hnot]

theorem graphicRunFrom_of_stop (hu : endsSentence u = true) (n : Nat) :
    graphicRunFrom n (.char '.' :: u) = n + 1 := by
  have hopens : opensComment (.char '.' :: u) = false := rfl
  have hrest : graphicRunFrom (n + 1) u = n + 1 := by
    cases u with
    | nil => rfl
    | cons g u =>
      simp only [endsSentence, Bool.or_eq_true, decide_eq_true_eq] at hu
      rcases hu with hu | rfl
      · exact graphicRunFrom_of_blank hu (n + 1)
      · rfl
  rw [graphicRunFrom, hopens, hrest]
  rfl

theorem stopAfter_append_left {n : Nat} (hn : n ≤ t.length)
    (hm : n = t.length → endsSentence m = true) : stopAfter (t ++ m) n = stopAfter t n := by
  have hends : endsSentence (t.drop n ++ m) = endsSentence (t.drop n) := by
    cases hdrop : t.drop n with
    | nil => exact hm (Nat.le_antisymm hn (List.drop_eq_nil_iff.1 hdrop))
    | cons => rfl
  by_cases hone : 1 < n
  · simp only [stopAfter, List.drop_append_of_le_length hn, hends]
    rw [List.getElem?_append_left (by omega), List.getElem?_append_left (by omega)]
  · simp [stopAfter, hone]

theorem stopAfter_length (hlast : t.getLast? ≠ some (.char '.')) :
    stopAfter t t.length = false := by
  rw [List.getLast?_eq_getElem?] at hlast
  simp [stopAfter, hlast]

theorem stopAfter_stop (hu : endsSentence u = true) (ht : t ≠ [])
    (hlast : t.getLast? ≠ some (.char '.')) :
    stopAfter (t ++ .char '.' :: u) (t.length + 1) = true := by
  have hpos : 0 < t.length := List.length_pos_iff.2 ht
  have hbefore : (t ++ .char '.' :: u)[t.length - 1]? ≠ some (.char '.') := by
    rw [List.getElem?_append_left (by omega)]
    rwa [List.getLast?_eq_getElem?] at hlast
  simp [stopAfter, hu, hpos, hbefore]

/-- The lexeme at a symbol character. -/
theorem ofText_graphic {c : Char} (hc : CharClass.isGraphic c = true) :
    ofText c t =
      if graphicRun t = 1 ∧ c = '.' then .dot
      else .name (if stopAfter t (graphicRun t) then graphicRun t - 1 else graphicRun t) := by
  rw [ofText, if_neg (by simp [CharClass.isNameStart_eq_false_of_isGraphic hc]), if_pos hc]

/-- White space behind a text leaves the lexeme that the text starts with as it is. -/
theorem ofText_blank (c : Char) (hm : m.Break) (hends : endsSentence m = true) :
    ofText c (t ++ m) = ofText c t := by
  have hgraphic : graphicRun (t ++ m) = graphicRun t := by
    have hnone : graphicRunFrom (0 + t.length) m = 0 + t.length := by
      cases hm with
      | nil => rfl
      | blank h => exact graphicRunFrom_of_blank h _
      | stop => cases hends
    simp only [graphicRun, graphicRunFrom_break hm, hnone]
    split
    · next h => exact h.symm
    · rfl
  simp only [ofText, run_break inky_isAlphanumeric hm, number_break hm, hgraphic,
    stopAfter_append_left (graphicRun_le t) fun _ => hends]

/-- A full stop that ends a sentence leaves the lexeme before it as it is, unless it comes behind
another full stop in a symbolic name. -/
theorem ofText_stop (hu : endsSentence u = true)
    (hlast : graphicRun (g :: t) = (g :: t).length → (g :: t).getLast? ≠ some (.char '.')) :
    ofText g.code (g :: t ++ .char '.' :: u) = ofText g.code (g :: t) := by
  have hm : Text.Break (.char '.' :: u) := .stop hu
  have hlonger : graphicRun (g :: t ++ .char '.' :: u) =
      if graphicRun (g :: t) = (g :: t).length then (g :: t).length + 1
      else graphicRun (g :: t) := by
    rw [graphicRun, graphicRunFrom_break hm, graphicRunFrom_of_stop hu, Nat.zero_add]
    rfl
  by_cases hrun : graphicRun (g :: t) = (g :: t).length
  · -- The run of symbol characters takes the full stop with it, and the name gives it back.
    have hlast := hlast hrun
    have hstop := stopAfter_stop hu (List.cons_ne_nil g t) hlast
    have hnone := stopAfter_length hlast
    have hdot : ¬((g :: t).length = 1 ∧ g.code = '.') := by
      rintro ⟨hone, hcode⟩
      have hnil : t = [] := by simpa using hone
      rw [hnil, Glyph.eq_char_of_code (by decide) hcode] at hlast
      exact hlast rfl
    have hlong : ¬((g :: t).length + 1 = 1 ∧ g.code = '.') := by simp
    rw [if_pos hrun] at hlonger
    simp only [ofText, run_break inky_isAlphanumeric hm, number_break hm, hlonger, hrun,
      hstop, hnone, if_neg hdot, if_neg hlong, if_true, Bool.false_eq_true, if_false,
      Nat.add_sub_cancel]
  · simp only [ofText, run_break inky_isAlphanumeric hm, number_break hm, hlonger, if_neg hrun,
      stopAfter_append_left (graphicRun_le (g :: t)) fun h => absurd h hrun]

theorem ofText_prolong (m : Text) (c : Char) (ht : t.EndsBlank) :
    ofText c (t ++ m) = ofText c t := by
  obtain ⟨g, hg, hb⟩ := ht
  obtain ⟨t, rfl⟩ := List.getLast?_eq_some_iff.1 hg
  have hends (u : Text) : endsSentence (g :: u) = true := by simp [endsSentence, hb]
  rw [List.append_assoc, List.singleton_append, ofText_blank c (.blank hb m) (hends m),
    ofText_blank c (.blank hb []) (hends [])]

theorem spec_of_quotedText {c q : Char} (h : ofText c t = .quotedText q) :
    c = q ∧ q ∈ ['\'', '"', '\x60'] := by
  have hnumber : number t ≠ .quotedText q := by
    unfold number
    split
    · exact nofun
    · split
      · exact nofun
      · split <;> exact nofun
  simp only [ofText] at h
  split at h
  · cases h
  · split at h
    · split at h <;> cases h
    · split at h
      · cases h
      · split at h
        · exact absurd h hnumber
        · split at h
          · cases h
          · split at h
            · next hc =>
              cases h
              exact ⟨rfl, hc⟩
            · split at h <;> cases h

theorem mem_of_quotedText {c q : Char} (h : ofText c t = .quotedText q) :
    q ∈ ['\'', '"', '\x60'] :=
  (spec_of_quotedText h).2

/-- No quote is white space. -/
theorem isBlank_of_quotedText {c q : Char} (h : ofText c t = .quotedText q) :
    CharClass.isBlank q = false := by
  have hq := mem_of_quotedText h
  simp only [List.mem_cons, List.not_mem_nil, or_false] at hq
  rcases hq with rfl | rfl | rfl <;> decide

end Lexeme

/-! ## Escape sequences and comments -/

namespace Escape

variable {t : Text} (m : Text)

theorem numeric_prolong {base : Nat} {isDigit : Char → Bool} {lead : Text}
    (h : ∀ cause, numeric base isDigit lead t ≠ .faulty cause) :
    numeric base isDigit lead (t ++ m) = numeric base isDigit lead t := by
  by_cases hend : (t.drop (t.takeWhile fun g => isDigit g.code).length).head? = some (.char '\\')
  · -- The backslash that ends the sequence lies within the first text.
    have hlt : (t.takeWhile fun g => isDigit g.code).length < t.length := by
      apply Nat.lt_of_not_le
      intro hle
      rw [List.drop_eq_nil_of_le hle] at hend
      cases hend
    have hdigits : ((t ++ m).takeWhile fun g => isDigit g.code) =
        t.takeWhile fun g => isDigit g.code := by
      rw [List.takeWhile_append, if_neg (Nat.ne_of_lt hlt)]
    have hhead : ((t ++ m).drop (t.takeWhile fun g => isDigit g.code).length).head? =
        (t.drop (t.takeWhile fun g => isDigit g.code).length).head? := by
      rw [List.drop_append_of_le_length (Nat.le_of_lt hlt), List.head?_append, hend]
      rfl
    simp only [numeric, hdigits, hhead]
  · refine absurd ?_
      (h (.malformedEscape (.char '\\' :: lead ++ t.takeWhile fun g => isDigit g.code)))
    simp only [numeric]
    rw [if_pos (.inr hend)]

/-- An escape sequence that is no line break and has no letter `x` in front. -/
theorem ofText_cons_of_ne {g : Glyph} (hx : g ≠ .char 'x') (hn : g ≠ .char '\n')
    (hr : ∀ u, g :: t ≠ .char '\r' :: .char '\n' :: u) :
    ofText (g :: t) =
      if g.code ∈ ['\\', '\'', '"', '\x60'] then .character g.code 1
      else
        match control? g.code with
        | some control => .character control 1
        | none =>
          if CharClass.isOctal g.code then numeric 8 CharClass.isOctal [] (g :: t)
          else .faulty (.undefinedEscape (Char.ofNat (g.bytes.headD 0).toNat)) := by
  unfold ofText
  split
  · contradiction
  · next heq => exact absurd (List.cons.inj heq).1 hn
  · next heq => exact absurd heq (hr _)
  · next heq => exact absurd (List.cons.inj heq).1 hx
  · next heq =>
    cases heq
    rfl

/-- What is added to a text makes a line break at its start only behind a carriage return. -/
theorem ne_lineBreak_append {g : Glyph} {t m : Text}
    (hr : ¬∃ u, g :: t = .char '\r' :: .char '\n' :: u)
    (hm : t = [] → g = .char '\r' → m.head? ≠ some (.char '\n')) (u : Text) :
    g :: (t ++ m) ≠ .char '\r' :: .char '\n' :: u := by
  intro hu
  obtain _ | ⟨g', t⟩ := t
  · cases hu
    exact hm rfl rfl rfl
  · cases hu
    exact hr ⟨_, rfl⟩

theorem ofText_prolong (h : ∀ cause, ofText t ≠ .faulty cause) : ofText (t ++ m) = ofText t := by
  obtain _ | ⟨g, t⟩ := t
  · exact absurd rfl (h _)
  by_cases hn : g = .char '\n'
  · subst hn
    rfl
  by_cases hx : g = .char 'x'
  · subst hx
    exact numeric_prolong m h
  by_cases hr : ∃ u, g :: t = .char '\r' :: .char '\n' :: u
  · obtain ⟨u, hu⟩ := hr
    cases hu
    rfl
  · have hr' : ∀ u, g :: (t ++ m) ≠ .char '\r' :: .char '\n' :: u := by
      -- A carriage return at the end of the first text is a faulty sequence.
      refine ne_lineBreak_append hr ?_
      rintro rfl rfl
      exact absurd rfl (h _)
    have hr := not_exists.1 hr
    rw [ofText_cons_of_ne hx hn hr] at h ⊢
    rw [List.cons_append, ofText_cons_of_ne hx hn hr']
    by_cases hself : g.code ∈ ['\\', '\'', '"', '\x60']
    · simp only [hself, if_true]
    by_cases hoctal : CharClass.isOctal g.code = true
    · simp only [hself, hoctal, if_true, if_false] at h ⊢
      cases hc : control? g.code with
      | some control => rfl
      | none =>
        rw [hc] at h
        exact numeric_prolong m h
    · simp only [hself, hoctal, Bool.false_eq_true, if_false]

theorem numeric_break {base : Nat} {isDigit : Char → Bool} (hp : Lexeme.Inky isDigit) (lead : Text)
    {m : Text} (hm : m.Break) :
    numeric base isDigit lead (t ++ m) = numeric base isDigit lead t := by
  have hle : (t.takeWhile fun g => isDigit g.code).length ≤ t.length :=
    (List.takeWhile_sublist _).length_le
  have hslash : m.head? ≠ some (.char '\\') := hm.head_ne (by decide) (by decide)
  have hhead : ((t.drop (t.takeWhile fun g => isDigit g.code).length ++ m).head? ≠
        some (.char '\\')) =
      ((t.drop (t.takeWhile fun g => isDigit g.code).length).head? ≠ some (.char '\\')) := by
    cases t.drop (t.takeWhile fun g => isDigit g.code).length with
    | nil => simpa using hslash
    | cons => rfl
  simp only [numeric, hm.takeWhile hp, List.drop_append_of_le_length hle, hhead]

/-- An escape sequence is complete before a break that makes no line break of a carriage return. -/
theorem ofText_break {m : Text} (hm : m.Break) (hn : m.head? ≠ some (.char '\n')) (ht : t ≠ []) :
    ofText (t ++ m) = ofText t := by
  obtain ⟨g, t, rfl⟩ := List.exists_cons_of_ne_nil ht
  by_cases hnewline : g = .char '\n'
  · subst hnewline
    rfl
  by_cases hx : g = .char 'x'
  · subst hx
    exact numeric_break Lexeme.inky_isHexadecimal _ hm
  by_cases hr : ∃ u, g :: t = .char '\r' :: .char '\n' :: u
  · obtain ⟨u, hu⟩ := hr
    cases hu
    rfl
  · rw [List.cons_append, ofText_cons_of_ne hx hnewline (ne_lineBreak_append hr fun _ _ => hn),
      ofText_cons_of_ne hx hnewline (not_exists.1 hr), ← List.cons_append,
      numeric_break Lexeme.inky_isOctal _ hm]

end Escape

theorem commentLengthFrom_break {t m : Text} (hm : m.Break)
    (hnone : ∀ n, commentLengthFrom n m = none) (n : Nat) :
    commentLengthFrom n (t ++ m) = commentLengthFrom n t := by
  have hslash : m.head? ≠ some (.char '/') := hm.head_ne (by decide) (by decide)
  fun_induction commentLengthFrom n t with
  | case1 n => exact hnone n
  | case2 => simp [commentLengthFrom]
  | case3 n g t hnot ih =>
    rw [List.cons_append, commentLengthFrom, ih]
    intro u hg hu
    obtain _ | ⟨g', t⟩ := t
    · exact hslash (by rw [← List.nil_append m, hu]; rfl)
    · cases hu
      exact hnot _ hg rfl

theorem commentLengthFrom_prolong {t : Text} (m : Text) {n k : Nat}
    (h : commentLengthFrom n t = some k) : commentLengthFrom n (t ++ m) = some k := by
  fun_induction commentLengthFrom n t with
  | case1 => cases h
  | case2 => simpa [commentLengthFrom] using h
  | case3 n g t hnot ih =>
    rw [List.cons_append, commentLengthFrom]
    · exact ih h
    · intro u hg hu
      subst hg
      obtain _ | ⟨g', t⟩ := t
      · cases h
      · cases hu
        exact hnot _ rfl rfl

end PrologText
