import PrologText.Token.Escape

/-!
# Literals stand for what they were written from

Digits give back the number, the bytes of a character the character, and the escape sequence of a
character the character.
-/

namespace PrologText

/-! ## Digits -/

namespace Positional

variable {base n d : Nat}

/-- Digits before others are worth the number times a power of the base. -/
theorem foldl_digitsBefore (tail : List Nat) :
    (digitsBefore base tail n).foldl (fun v d => v * base + d) 0 =
      tail.foldl (fun v d => v * base + d) n := by
  fun_induction digitsBefore base tail n with
  | case1 tail n h => simp
  | case2 tail n h ih => rw [ih, List.foldl_cons, Nat.div_add_mod']

theorem value_digits : value base (digits base n) = n :=
  foldl_digitsBefore []

theorem digitsBefore_ne_nil (tail : List Nat) : digitsBefore base tail n ≠ [] := by
  fun_induction digitsBefore base tail n with
  | case1 => simp
  | case2 _ _ _ ih => exact ih

theorem digits_ne_nil : digits base n ≠ [] :=
  digitsBefore_ne_nil []

theorem lt_of_mem_digitsBefore {tail : List Nat} (hb : 2 ≤ base) (ht : ∀ d ∈ tail, d < base)
    (h : d ∈ digitsBefore base tail n) : d < base := by
  fun_induction digitsBefore base tail n with
  | case1 tail n hn =>
    rcases List.mem_cons.1 h with rfl | h
    · omega
    · exact ht d h
  | case2 tail n hn ih =>
    refine ih ?_ h
    simpa using ⟨Nat.mod_lt n (by omega), ht⟩

theorem lt_of_mem_digits (hb : 2 ≤ base) (h : d ∈ digits base n) : d < base :=
  lt_of_mem_digitsBefore hb (by simp) h

theorem digitValue?_digitChar (hb : base ≤ 36) (hd : d < base) :
    digitValue? base (digitChar d) = some d := by
  have all : ∀ base ≤ 36, ∀ d < base, digitValue? base (digitChar d) = some d := by decide +kernel
  exact all base hb d hd

/-- The digits of a number in a base are characters of digits below the base. -/
theorem exists_of_mem_text {g : Glyph} (hb : 2 ≤ base) (h : g ∈ text base n) :
    ∃ d < base, g = .char (digitChar d) := by
  obtain ⟨d, hd, rfl⟩ := List.mem_map.1 h
  exact ⟨d, lt_of_mem_digits hb hd, rfl⟩

theorem text_ne_nil : text base n ≠ [] := by
  simpa [text] using digits_ne_nil

theorem mapM_digitValue?_text (hb : 2 ≤ base) (hb' : base ≤ 36) :
    (text base n).mapM (fun g => digitValue? base g.code) = some (digits base n) := by
  have hd : ∀ d ∈ digits base n, d < base := fun d => lt_of_mem_digits hb
  unfold text
  generalize digits base n = ds at hd
  induction ds with
  | nil => rfl
  | cons d ds ih =>
    rw [List.map_cons, List.mapM_cons, ih fun d' h => hd d' (List.mem_cons_of_mem d h)]
    simp [Glyph.code, digitValue?_digitChar hb' (hd d List.mem_cons_self)]

theorem filterMap_digitValue?_text (hb : 2 ≤ base) (hb' : base ≤ 36) :
    (text base n).filterMap (fun g => digitValue? base g.code) = digits base n := by
  have hd : ∀ d ∈ digits base n, d < base := fun d => lt_of_mem_digits hb
  unfold text
  generalize digits base n = ds at hd
  induction ds with
  | nil => rfl
  | cons d ds ih =>
    rw [List.map_cons, List.filterMap_cons, ih fun d' h => hd d' (List.mem_cons_of_mem d h)]
    simp [Glyph.code, digitValue?_digitChar hb' (hd d List.mem_cons_self)]

theorem isDecimal_digitChar (h : d < 10) : CharClass.isDecimal (digitChar d) := by
  have all : ∀ d < 10, CharClass.isDecimal (digitChar d) := by decide
  exact all d h

/-- Decimal text consists of decimal digits. -/
theorem isDecimal_of_mem_decimal {g : Glyph} (h : g ∈ decimal n) :
    ∃ c, g = .char c ∧ CharClass.isDecimal c := by
  obtain ⟨d, hd, rfl⟩ := exists_of_mem_text (by decide) h
  exact ⟨_, rfl, isDecimal_digitChar hd⟩

end Positional

namespace NumberLiteral

theorem natural?_decimal (n : Nat) : natural? 10 (Positional.decimal n) = some n := by
  have hne : Positional.text 10 n ≠ [] := Positional.text_ne_nil
  have hm : (Positional.text 10 n).mapM (fun g => Positional.digitValue? 10 g.code) =
      some (Positional.digits 10 n) := Positional.mapM_digitValue?_text (by decide) (by decide)
  simp [natural?, hne, Positional.decimal, hm, Positional.value_digits]

/-- Text of decimal digits has no sign. -/
theorem integer?_eq_natural? {t : Text} (h : ∀ g ∈ t, ∃ c, g = .char c ∧ CharClass.isDecimal c) :
    integer? 10 t = (natural? 10 t).map fun n => (n : Int) := by
  unfold integer?
  split
  · obtain ⟨c, hc, hd⟩ := h _ List.mem_cons_self
    cases hc
    exact absurd hd (by decide)
  · obtain ⟨c, hc, hd⟩ := h _ List.mem_cons_self
    cases hc
    exact absurd hd (by decide)
  · rfl

theorem integer?_integer (n : Int) : integer? 10 (Positional.integer n) = some n := by
  unfold Positional.integer
  split
  · next hn =>
    simp only [integer?, natural?_decimal]
    show some (-(n.natAbs : Int)) = some n
    rw [Option.some.injEq]
    omega
  · next hn =>
    rw [integer?_eq_natural? fun g => Positional.isDecimal_of_mem_decimal, natural?_decimal]
    show some (n.natAbs : Int) = some n
    rw [Option.some.injEq]
    omega

end NumberLiteral

theorem Positional.eq_of_decimal_eq {m n : Nat} (h : decimal m = decimal n) : m = n := by
  have hvalue := NumberLiteral.natural?_decimal m
  rw [h, NumberLiteral.natural?_decimal] at hvalue
  exact (Option.some.inj hvalue).symm

theorem Positional.eq_of_integer_eq {m n : Int} (h : integer m = integer n) : m = n := by
  have hvalue := NumberLiteral.integer?_integer m
  rw [h, NumberLiteral.integer?_integer] at hvalue
  exact (Option.some.inj hvalue).symm

theorem Term.ofDigits_decimal (n : Nat) :
    Term.ofDigits 10 (Positional.decimal n) = .ok (.ofInt n) := by
  have hdigits :
      NumberLiteral.withoutUnderscores (Positional.decimal n) = Positional.decimal n := by
    refine List.filter_eq_self.2 fun g hg => ?_
    obtain ⟨c, rfl, hd⟩ := Positional.isDecimal_of_mem_decimal hg
    simp only [decide_eq_true_eq, ne_eq, Glyph.char.injEq]
    rintro rfl
    exact absurd hd (by decide)
  rw [Term.ofDigits, hdigits,
    NumberLiteral.integer?_eq_natural? fun g => Positional.isDecimal_of_mem_decimal,
    NumberLiteral.natural?_decimal]
  rfl

/-! ## UTF-8 -/

namespace Utf8

variable {n : Nat}

theorem toNat_ofNat_of_lt (h : n < 256) : (UInt8.ofNat n).toNat = n :=
  Nat.mod_eq_of_lt h

theorem lead_of_lt (h : n < 0x80) : lead (.ofNat n) = some (0, n, 0) := by
  simp [lead, toNat_ofNat_of_lt (show n < 256 by omega), h]

theorem lead_two (h : n < 0x20) : lead (.ofNat (0xC0 + n)) = some (1, n, 0x80) := by
  rw [lead, toNat_ofNat_of_lt (by omega), if_neg (by omega), if_neg (by omega), if_pos (by omega),
    Nat.add_sub_cancel_left]

theorem lead_three (h : n < 0x10) : lead (.ofNat (0xE0 + n)) = some (2, n, 0x800) := by
  rw [lead, toNat_ofNat_of_lt (by omega), if_neg (by omega), if_neg (by omega), if_neg (by omega),
    if_pos (by omega), Nat.add_sub_cancel_left]

theorem lead_four (h : n < 0x08) : lead (.ofNat (0xF0 + n)) = some (3, n, 0x10000) := by
  rw [lead, toNat_ofNat_of_lt (by omega), if_neg (by omega), if_neg (by omega), if_neg (by omega),
    if_neg (by omega), if_pos (by omega), Nat.add_sub_cancel_left]

theorem continuation_succ {count value : Nat} {rest : List UInt8} (h : n < 0x40) :
    continuation (count + 1) value (.ofNat (0x80 + n) :: rest) =
      continuation count (value * 64 + n) rest := by
  rw [continuation, toNat_ofNat_of_lt (by omega), if_pos (by omega), Nat.add_sub_cancel_left]

theorem decode?_of_lead {b : UInt8} {bytes rest : List UInt8} {count value least : Nat}
    (hl : lead b = some (count, value, least))
    (hc : continuation count value bytes = some (n, rest)) (hle : least ≤ n)
    (hv : n.isValidChar) : decode? (b :: bytes) = some (Char.ofNat n, rest) := by
  simp [decode?, hl, hc, hle, hv]

/-- Every character is the first one of its bytes and any others. -/
theorem decode?_encode (c : Char) (rest : List UInt8) :
    decode? (encode c ++ rest) = some (c, rest) := by
  have hv : c.toNat.isValidChar := c.valid
  have hlt : c.toNat < 0x110000 := by
    rcases hv with h | h <;> omega
  have hc : Char.ofNat c.toNat = c := Char.ofNat_toNat c
  generalize hn : c.toNat = n at hv hlt hc
  subst hc
  simp only [encode, hn]
  split
  · next h => exact decode?_of_lead (lead_of_lt h) rfl (Nat.zero_le n) hv
  · split
    · next h1 h2 =>
      simp only [List.cons_append, List.nil_append]
      refine decode?_of_lead (lead_two (by omega)) ?_ (by omega) hv
      rw [continuation_succ (by omega), continuation, Nat.div_add_mod']
    · split
      · next h1 h2 h3 =>
        simp only [List.cons_append, List.nil_append]
        refine decode?_of_lead (lead_three (by omega)) ?_ (by omega) hv
        rw [continuation_succ (by omega), continuation_succ (by omega), continuation,
          show (n / 4096 * 64 + n / 64 % 64) * 64 + n % 64 = n by omega]
      · next h1 h2 h3 =>
        simp only [List.cons_append, List.nil_append]
        refine decode?_of_lead (lead_four (by omega)) ?_ (by omega) hv
        rw [continuation_succ (by omega), continuation_succ (by omega),
          continuation_succ (by omega), continuation,
          show ((n / 262144 * 64 + n / 4096 % 64) * 64 + n / 64 % 64) * 64 + n % 64 = n by omega]

end Utf8

namespace Text

theorem ofBytesAfter_bytes (seen : Text) (cs : List Char) :
    ofBytesAfter seen (bytes (cs.map .char)) = seen.reverse ++ cs.map .char := by
  induction cs generalizing seen with
  | nil =>
    show ofBytesAfter seen [] = seen.reverse ++ []
    rw [ofBytesAfter, List.append_nil]
    rfl
  | cons c cs ih =>
    have hb : bytes (Glyph.char c :: cs.map .char) = Utf8.encode c ++ bytes (cs.map .char) := rfl
    rw [List.map_cons, hb, ofBytesAfter]
    split
    · next c' rest h =>
      rw [Utf8.decode?_encode] at h
      cases h
      simp [ih]
    · next h => simp [Utf8.decode?_encode] at h

/-- A text of characters has no stray bytes to be read as other characters. -/
theorem rejoin_map_char (cs : List Char) : rejoin (cs.map .char) = cs.map .char :=
  ofBytesAfter_bytes [] cs

end Text

/-! ## Escape sequences -/

namespace Escape

theorem numeric_text {base n : Nat} {isDigit : Char → Bool} {lead : Text} (hb : 2 ≤ base)
    (hb' : base ≤ 36) (hd : ∀ d < base, isDigit (Positional.digitChar d))
    (hs : isDigit '\\' = false) (hn : n.isValidChar) (rest : Text) :
    numeric base isDigit lead (Positional.text base n ++ .char '\\' :: rest) =
      .character (Char.ofNat n) (lead.length + (Positional.text base n).length + 1) := by
  have hall : ∀ g ∈ Positional.text base n, isDigit g.code := by
    intro g hg
    obtain ⟨d, hlt, rfl⟩ := Positional.exists_of_mem_text hb hg
    exact hd d hlt
  have htake : (Positional.text base n ++ .char '\\' :: rest).takeWhile (fun g => isDigit g.code) =
      Positional.text base n := by
    rw [List.takeWhile_append_of_pos hall, List.takeWhile_cons, Glyph.code, hs]
    simp
  have hne : Positional.text base n ≠ [] := Positional.text_ne_nil
  simp [numeric, htake, hne, Positional.filterMap_digitValue?_text hb hb',
    Positional.value_digits, hn]

theorem ofText_controlLetter {c l : Char} (h : controlLetter? c = some l) :
    l ≠ '\n' ∧ ∀ rest, ofText (.char l :: rest) = .character c 1 := by
  rw [← Char.ofNat_toNat c]
  unfold controlLetter? at h
  split at h
  case h_8 => cases h
  all_goals
    next hn =>
      cases h
      rw [hn]
      exact ⟨by decide, fun rest => rfl⟩

theorem ofText_hexadecimal (c : Char) (rest : Text) :
    ofText (.char 'x' :: Positional.text 16 c.toNat ++ .char '\\' :: rest) =
      .character c ((Positional.text 16 c.toNat).length + 2) := by
  have hd : ∀ d < 16, CharClass.isHexadecimal (Positional.digitChar d) := by decide
  have hv : c.toNat.isValidChar := c.valid
  rw [List.cons_append, ofText, numeric_text (by decide) (by decide) hd (by decide) hv,
    Char.ofNat_toNat]
  congr 1
  simp
  omega

/-- A character inside a literal stands for itself, or for its escape sequence. -/
theorem quotedChar_cases {q : Char} (hq : q = '\'' ∨ q = '"') (c : Char) :
    (Text.quotedChar q c = [.char c] ∧ c ≠ q ∧ c ≠ '\\' ∧ c ≠ '\n') ∨
      ∃ e : Text, Text.quotedChar q c = .char '\\' :: e ∧ .char '\n' ∉ e ∧
        ∀ rest, ofText (e ++ rest) = .character c e.length := by
  unfold Text.quotedChar
  split
  · next h =>
    refine .inr ⟨[.char c], rfl, ?_, fun rest => ?_⟩
    · rcases hq with rfl | rfl <;> rcases h with rfl | rfl <;> decide
    · rcases hq with rfl | rfl <;> rcases h with rfl | rfl <;> rfl
  · next h =>
    split
    · next l hl =>
      obtain ⟨hne, htext⟩ := ofText_controlLetter hl
      exact .inr ⟨[.char l], rfl, by simpa using hne.symm, htext⟩
    · next hl =>
      split
      · next h0 =>
        subst h0
        exact .inr ⟨[.char '0', .char '\\'], rfl, by decide, fun rest => rfl⟩
      · split
        · refine .inr
            ⟨.char 'x' :: (Positional.text 16 c.toNat ++ [.char '\\']), rfl, ?_, fun rest => ?_⟩
          · have hn : .char '\n' ∉ Positional.text 16 c.toNat := by
              intro hmem
              obtain ⟨d, hd, hg⟩ := Positional.exists_of_mem_text (by decide) hmem
              have all : ∀ d < 16, Glyph.char '\n' ≠ .char (Positional.digitChar d) := by decide
              exact all d hd hg
            simp [hn]
          · simpa using ofText_hexadecimal c rest
        · refine .inl ⟨rfl, fun hc => h (.inl hc), fun hc => h (.inr hc), ?_⟩
          rintro rfl
          exact absurd hl (by decide)

end Escape

end PrologText
