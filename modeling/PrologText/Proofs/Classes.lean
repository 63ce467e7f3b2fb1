import PrologText.Text.CharClass

/-!
# Character classes are disjoint

Every character class lies within a few general categories, and a character has one category. So a
character that a token starts with tells which token it is, and no token holds white space.
-/

namespace PrologText.CharClass

variable {c : Char}

/-! ## The categories of a class -/

/-- The category of an ASCII character that satisfies `p`, from the table of all of them. -/
theorem category_of_ascii {p : Char → Bool} {q : Category → Bool} (hc : c.toNat < 0x80)
    (h : ∀ n < 0x80, p (Char.ofNat n) → q (Category.ofChar (Char.ofNat n))) (hp : p c) :
    q (Category.ofChar c) := by
  have := h c.toNat hc
  rw [Char.ofNat_toNat] at this
  exact this hp

theorem category_of_isDecimal (h : isDecimal c) : Category.ofChar c = .digit := by
  have hle : c ≤ '9' := by simp_all [isDecimal]
  have hc : c.toNat < 0x80 := Nat.lt_of_le_of_lt hle (by decide)
  exact of_decide_eq_true (category_of_ascii (q := (· = .digit)) hc (by decide +kernel) h)

theorem category_of_isGraphic (h : isGraphic c) :
    Category.ofChar c = .symbol ∨ Category.ofChar c = .punctuation := by
  by_cases hc : c.toNat < 0x80
  · have := category_of_ascii (q := fun k => k = .symbol ∨ k = .punctuation) hc
      (by decide +kernel) h
    exact of_decide_eq_true this
  · simpa [isGraphic, hc] using h

theorem category_of_isAlphanumeric (h : isAlphanumeric c) :
    c = '_' ∨ Category.ofChar c ∈ [.upper, .lower, .letter, .digit] := by
  simp only [isAlphanumeric, isLetter, isDigit, Bool.or_eq_true, decide_eq_true_eq] at h
  rcases h with (rfl | h) | h
  · exact .inl rfl
  · exact .inr (by grind)
  · exact .inr (by simp [h])

theorem category_of_isBlank (h : isBlank c) :
    Category.ofChar c = .separator ∨ Category.ofChar c = .control := by
  simp only [isBlank, decide_eq_true_eq] at h
  rcases h with h | h | h
  · exact .inl h
  · have hc : c.toNat < 0x80 := by omega
    have := category_of_ascii (p := fun c => 0x09 ≤ c.toNat ∧ c.toNat ≤ 0x0D)
      (q := (· = .control)) hc (by decide +kernel) (by simpa using h)
    exact .inr (of_decide_eq_true this)
  · have : c = '\x85' := Char.toNat_inj.1 h
    subst this
    exact .inr (by decide +kernel)

/-! ## What a character of one class is not -/

theorem isGraphic_eq_false_of_isAlphanumeric (h : isAlphanumeric c) : isGraphic c = false := by
  rcases category_of_isAlphanumeric h with rfl | h
  · decide
  · rw [Bool.eq_false_iff]
    intro hg
    rcases category_of_isGraphic hg with hk | hk <;> simp [hk] at h

theorem isBlank_eq_false_of_isAlphanumeric (h : isAlphanumeric c) : isBlank c = false := by
  rcases category_of_isAlphanumeric h with rfl | h
  · decide
  · rw [Bool.eq_false_iff]
    intro hb
    rcases category_of_isBlank hb with hk | hk <;> simp [hk] at h

theorem isBlank_eq_false_of_isGraphic (h : isGraphic c) : isBlank c = false := by
  rw [Bool.eq_false_iff]
  intro hb
  rcases category_of_isBlank hb with hk | hk <;> simpa [hk] using category_of_isGraphic h

theorem isNameStart_eq_false_of_isGraphic (h : isGraphic c) : isNameStart c = false := by
  rcases category_of_isGraphic h with hk | hk <;> simp [isNameStart, isLetter, hk]

theorem isNameStart_of_isLower (h : isLower c) : isNameStart c := by
  simp_all [isLower, isNameStart, isLetter, isUpper]

theorem isNameStart_eq_false_of_isDecimal (h : isDecimal c) : isNameStart c = false := by
  simp [isNameStart, isLetter, category_of_isDecimal h]

theorem isAlphanumeric_of_isDecimal (h : isDecimal c) : isAlphanumeric c := by
  simp [isAlphanumeric, isDigit, category_of_isDecimal h]

theorem toNat_lt_of_isHexadecimal (h : isHexadecimal c) : c.toNat < 0x80 := by
  have hle : c ≤ 'f' := by
    simp only [isHexadecimal, isDecimal, Bool.or_eq_true, Bool.and_eq_true, decide_eq_true_eq] at h
    rcases h with (⟨-, h⟩ | ⟨-, h⟩) | ⟨-, h⟩
    · exact Char.le_trans h (by decide)
    · exact h
    · exact Char.le_trans h (by decide)
  exact Nat.lt_of_le_of_lt hle (by decide)

theorem isAlphanumeric_of_isHexadecimal (h : isHexadecimal c) : isAlphanumeric c := by
  have := category_of_ascii (q := fun k => k ∈ [.upper, .lower, .digit])
    (toNat_lt_of_isHexadecimal h) (by decide +kernel) h
  simp only [List.mem_cons, List.not_mem_nil, or_false, decide_eq_true_eq] at this
  simp only [isAlphanumeric, isLetter, isDigit, Bool.or_eq_true, decide_eq_true_eq]
  grind

theorem isHexadecimal_of_isOctal (h : isOctal c) : isHexadecimal c := by
  simp only [isOctal, Bool.and_eq_true, decide_eq_true_eq] at h
  simp [isHexadecimal, isDecimal, h.1, Char.le_trans h.2 (show '7' ≤ '9' by decide)]

theorem isHexadecimal_of_isBinary (h : isBinary c) : isHexadecimal c := by
  simp only [isBinary, Bool.or_eq_true, decide_eq_true_eq] at h
  rcases h with rfl | rfl <;> decide

/-- A variable starts with an underscore or a capital letter. -/
theorem isVariableStart_cases (h : isVariableStart c) : c = '_' ∨ Category.ofChar c = .upper := by
  simpa [isVariableStart, isUpper] using h

theorem isNameStart_eq_false_of_isVariableStart (h : isVariableStart c) :
    isNameStart c = false := by
  rcases isVariableStart_cases h with rfl | hk
  · decide
  · simp [isNameStart, isUpper, hk]

theorem isDecimal_eq_false_of_isVariableStart (h : isVariableStart c) : isDecimal c = false := by
  rcases isVariableStart_cases h with rfl | hk
  · decide
  · rw [Bool.eq_false_iff]
    intro hd
    simp [category_of_isDecimal hd] at hk

end PrologText.CharClass

/-- Only a stray byte and the character that stands for it have the same code. -/
theorem PrologText.Glyph.eq_char_of_code {g : Glyph} {c : Char} (hc : c ≠ replacement)
    (h : g.code = c) : g = .char c := by
  cases g with
  | char c' => exact congrArg char h
  | stray => exact absurd h.symm hc
