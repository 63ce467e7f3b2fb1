import Mathlib.Tactic.IntervalCases
import PrologText.Proofs.Nearest
import PrologText.Proofs.Spelling
import PrologText.Term.Canonical

/-!
# Floating point numbers are read as they are written

The canonical text of a finite number is a `FloatLiteral`, with a minus before it if the number is
negative. Such a literal is one token (`FloatLiteral.yields`), and it stands for the number without
its sign (`Binary64.exists_literal`).
-/

namespace PrologText

/-! ## Digits -/

namespace Positional

variable {base : Nat}

theorem foldl_value (v : Nat) (ds : List Nat) :
    ds.foldl (fun v d => v * base + d) v = v * base ^ ds.length + value base ds := by
  induction ds generalizing v with
  | nil => simp [value]
  | cons d ds ih =>
    rw [value, List.foldl_cons, List.foldl_cons, ih, ih (0 * base + d), List.length_cons]
    ring

theorem value_append (ds es : List Nat) :
    value base (ds ++ es) = value base ds * base ^ es.length + value base es := by
  rw [value, List.foldl_append, foldl_value]
  rfl

theorem value_replicate_zero (n : Nat) : value base (List.replicate n 0) = 0 := by
  induction n with
  | zero => rfl
  | succ n ih => rw [List.replicate_succ, ← List.singleton_append, value_append, ih]; simp [value]

/-- How many digits a number has. -/
theorem exists_length_digitsBefore (hb : 2 ≤ base) (tail : List Nat) (n : Nat) :
    ∃ k, (digitsBefore base tail n).length = tail.length + k + 1 ∧ (0 < n → base ^ k ≤ n) ∧
      n < base ^ (k + 1) := by
  fun_induction digitsBefore base tail n with
  | case1 tail n h => exact ⟨0, by simp, fun hn => hn, by simp; omega⟩
  | case2 tail n h ih =>
    obtain ⟨k, hlength, hlow, hhigh⟩ := ih
    have hpos : 0 < n / base := Nat.div_pos (by omega) (by omega)
    refine ⟨k + 1, by rw [hlength, List.length_cons]; omega, fun _ => ?_, ?_⟩
    · rw [pow_succ]
      exact (Nat.mul_le_mul_right base (hlow hpos)).trans (Nat.div_mul_le_self n base)
    · rw [pow_succ]
      exact (Nat.div_lt_iff_lt_mul (by omega)).1 hhigh

end Positional

/-- Decimal digits, at least one. -/
structure DigitRun where
  digits : List Nat
  lt_ten : ∀ d ∈ digits, d < 10
  ne_nil : digits ≠ []

namespace DigitRun

variable (r : DigitRun)

def text : Text :=
  r.digits.map fun d => .char (Positional.digitChar d)

@[simp] theorem length_text : r.text.length = r.digits.length :=
  List.length_map _

theorem isDecimal_of_mem_text : ∀ g ∈ r.text, ∃ c, g = .char c ∧ CharClass.isDecimal c := by
  intro g hg
  obtain ⟨d, hd, rfl⟩ := List.mem_map.1 hg
  exact ⟨_, rfl, Positional.isDecimal_digitChar (r.lt_ten d hd)⟩

theorem exists_text_eq : ∃ ch t, r.text = .char ch :: t ∧ CharClass.isDecimal ch := by
  cases hr : r.text with
  | nil => exact absurd (List.map_eq_nil_iff.1 hr) r.ne_nil
  | cons g t =>
    obtain ⟨ch, rfl, hch⟩ := r.isDecimal_of_mem_text g (by simp [hr])
    exact ⟨ch, t, rfl, hch⟩

/-- The digits of a number, with zeros in front to at least two. -/
def padded (n : Nat) : DigitRun where
  digits := List.replicate (2 - (Positional.digits 10 n).length) 0 ++ Positional.digits 10 n
  lt_ten := by
    intro d hd
    rcases List.mem_append.1 hd with hd | hd
    · rw [List.eq_of_mem_replicate hd]
      decide
    · exact Positional.lt_of_mem_digits (by decide) hd
  ne_nil := List.append_ne_nil_of_right_ne_nil _ Positional.digits_ne_nil

theorem text_padded (n : Nat) : (padded n).text = Positional.padded 2 (Positional.decimal n) := by
  simp only [text, padded, List.map_append, List.map_replicate, Positional.padded,
    Positional.decimal, Positional.text, List.length_map]
  rfl

theorem value_padded (n : Nat) : Positional.value 10 (padded n).digits = n := by
  rw [padded, Positional.value_append, Positional.value_replicate_zero, Positional.value_digits,
    Nat.zero_mul, Nat.zero_add]

/-- Digits are read up to what is none. -/
theorem leadingDigits_text {u : Text}
    (hu : ∀ g, u.head? = some g → Positional.digitValue? 10 g.code = none) :
    Binary64.leadingDigits 10 (r.text ++ u) = (r.digits, u) := by
  have hvalue : ∀ d ∈ r.digits, Positional.digitValue? 10 (Positional.digitChar d) = some d :=
    fun d hd => Positional.digitValue?_digitChar (by decide) (r.lt_ten d hd)
  have hall : ∀ g ∈ r.text, (Positional.digitValue? 10 g.code).isSome := by
    intro g hg
    obtain ⟨d, hd, rfl⟩ := List.mem_map.1 hg
    simp [Glyph.code, hvalue d hd]
  have hdigits : r.text.filterMap (fun g => Positional.digitValue? 10 g.code) = r.digits := by
    rw [text, List.filterMap_map]
    conv_rhs => rw [← List.filterMap_some (l := r.digits)]
    exact List.filterMap_congr hvalue
  unfold Binary64.leadingDigits
  simp only
  rw [List.takeWhile_append_of_pos hall, List.dropWhile_append_of_pos hall]
  cases u with
  | nil => simp [hdigits]
  | cons g u => simp [hu g rfl, hdigits]

end DigitRun

/-! ## Literals -/

theorem Positional.exists_digitChar_eq {c : Char} (h : CharClass.isDecimal c) :
    ∃ d < 10, c = digitChar d := by
  have hle : '0' ≤ c ∧ c ≤ '9' := by simpa [CharClass.isDecimal] using h
  have hlow : 48 ≤ c.toNat := hle.1
  have hhigh : c.toNat ≤ 57 := hle.2
  refine ⟨c.toNat - 48, by omega, ?_⟩
  rw [← Char.ofNat_toNat c]
  generalize c.toNat = n at hlow hhigh
  interval_cases n <;> rfl

/-- A text that starts with a digit is no special value and has no sign. -/
theorem Binary64.parse_of_isDecimal {c : Char} (h : CharClass.isDecimal c) (t : Text) :
    parse (.char c :: t) =
      match scientific? (.char c :: t) with
      | none => .error .malformed
      | some s =>
        match s.round? false with
        | none => .error .outOfRange
        | some x => .ok x := by
  obtain ⟨d, hd, rfl⟩ := Positional.exists_digitChar_eq h
  have hspecial : special? (.char (Positional.digitChar d) :: t) = none := by
    interval_cases d <;> rfl
  unfold parse
  rw [hspecial]
  interval_cases d <;> rfl

/-- A floating point number as it is written: digits with a point among them, and possibly an
exponent with its sign. -/
structure FloatLiteral where
  whole : DigitRun
  fraction : DigitRun
  /-- Whether the exponent is negative, and its digits. -/
  exponent : Option (Bool × DigitRun)

namespace FloatLiteral

variable (l : FloatLiteral)

def exponentText : Text :=
  match l.exponent with
  | none => []
  | some (negative, e) => .char 'e' :: (if negative then .char '-' else .char '+') :: e.text

def text : Text :=
  l.whole.text ++ .char '.' :: (l.fraction.text ++ l.exponentText)

def exponentValue : Int :=
  match l.exponent with
  | none => 0
  | some (negative, e) =>
    if negative then -Binary64.exponentValue e.digits else Binary64.exponentValue e.digits

/-- What a literal stands for before it is rounded. -/
def scientific : Binary64.Scientific where
  digits := Positional.value 10 (l.whole.digits ++ l.fraction.digits)
  radix := 10
  exponent := l.exponentValue - l.fraction.digits.length

/-- The number that a literal is. -/
def value : ℚ :=
  l.scientific.digits * 10 ^ l.scientific.exponent

theorem exponent?_exponentText :
    Binary64.exponent? ['e', 'E'] l.exponentText = some (l.exponentValue, []) := by
  unfold exponentText exponentValue
  cases l.exponent with
  | none => rfl
  | some e =>
    obtain ⟨negative, e⟩ := e
    have hdigits : Binary64.leadingDigits 10 e.text = (e.digits, []) := by
      simpa using e.leadingDigits_text (u := []) nofun
    obtain ⟨d, ds, hds⟩ := List.exists_cons_of_ne_nil e.ne_nil
    cases negative <;> simp [Binary64.exponent?, hdigits, hds]

theorem mantissa?_text :
    Binary64.mantissa? 10 l.text =
      some (l.whole.digits ++ l.fraction.digits, l.fraction.digits.length, l.exponentText) := by
  have hwhole : Binary64.leadingDigits 10 l.text =
      (l.whole.digits, .char '.' :: (l.fraction.text ++ l.exponentText)) :=
    l.whole.leadingDigits_text (by simp [Glyph.code]; decide)
  have hfraction : Binary64.leadingDigits 10 (l.fraction.text ++ l.exponentText) =
      (l.fraction.digits, l.exponentText) := by
    refine l.fraction.leadingDigits_text fun g hg => ?_
    unfold exponentText at hg
    split at hg
    · cases hg
    · cases hg
      decide
  simp [Binary64.mantissa?, hwhole, hfraction, l.whole.ne_nil]

theorem scientific?_text : Binary64.scientific? l.text = some l.scientific := by
  have hdecimal : Binary64.scientific?.decimal? l.text = some l.scientific := by
    simp [Binary64.scientific?.decimal?, l.mantissa?_text, l.exponent?_exponentText, scientific]
  obtain ⟨ch, t, ht, -⟩ := l.whole.exists_text_eq
  unfold Binary64.scientific?
  split
  · next x g rest heq =>
    -- What comes behind the first digit is a digit or the point.
    have hne : ∀ c, CharClass.isDecimal c = false → c ≠ '.' → x ≠ c := by
      rintro _ hc hpoint rfl
      have hds : ∀ g ∈ t, ∃ c, g = .char c ∧ CharClass.isDecimal c := fun g hg =>
        l.whole.isDecimal_of_mem_text g (by simp [ht, hg])
      have hhead : (Glyph.char '.' :: (l.fraction.text ++ l.exponentText)).head? ≠ some (.char x) :=
        by simpa using hpoint.symm
      refine Lexeme.head?_ne_of_decimal hds hhead hc ?_
      rw [text, ht, List.cons_append] at heq
      rw [(List.cons.inj heq).2]
      rfl
    rw [if_neg (by rintro (h | h) <;> exact hne _ (by decide) (by decide) h)]
    exact hdecimal
  · exact hdecimal

theorem exists_text_eq : ∃ ch t, l.text = .char ch :: t ∧ CharClass.isDecimal ch := by
  obtain ⟨ch, t, ht, hch⟩ := l.whole.exists_text_eq
  exact ⟨ch, t ++ .char '.' :: (l.fraction.text ++ l.exponentText), by simp [text, ht], hch⟩

theorem mem_text {g : Glyph} (h : g ∈ l.text) :
    (∃ c, g = .char c ∧ CharClass.isDecimal c) ∨
      g ∈ [.char '.', .char 'e', .char '-', .char '+'] := by
  have hrun : ∀ {r : DigitRun}, g ∈ r.text → ∃ c, g = .char c ∧ CharClass.isDecimal c :=
    fun hg => DigitRun.isDecimal_of_mem_text _ g hg
  unfold text exponentText at h
  split at h
  · grind
  · grind

theorem not_mem_text {c : Char} (hc : CharClass.isDecimal c = false)
    (hc' : c ∉ ['.', 'e', '-', '+']) : .char c ∉ l.text := by
  intro h
  rcases l.mem_text h with ⟨c', hc'', hdec⟩ | hmem
  · cases hc''
    simp [hc] at hdec
  · exact hc' (by simpa using hmem)

theorem parse_text {x : Binary64} (h : l.scientific.round? false = some x) :
    Binary64.parse l.text = .ok x := by
  obtain ⟨ch, t, ht, hch⟩ := l.exists_text_eq
  have hscientific := l.scientific?_text
  rw [ht] at hscientific ⊢
  rw [Binary64.parse_of_isDecimal hch, hscientific]
  simp only [h]

theorem ofFloatText_text {x : Binary64} (h : l.scientific.round? false = some x) :
    Term.ofFloatText l.text = .ok (.float x) := by
  have hplain : NumberLiteral.withoutUnderscores l.text = l.text := by
    refine List.filter_eq_self.2 fun g hg => ?_
    simp only [ne_eq, decide_not, Bool.not_eq_true', decide_eq_false_iff_not]
    rintro rfl
    exact l.not_mem_text (by decide) (by decide) hg
  rw [Term.ofFloatText, hplain, l.parse_text h]

/-! ### One token -/

variable {flags : Flags} {c : Cursor} {rest : Text}

theorem exponentLength_exponentText (hr : rest.Apart) :
    Lexeme.exponentLength (l.exponentText ++ rest) = l.exponentText.length := by
  unfold exponentText
  cases l.exponent with
  | none =>
    obtain ⟨ch, u, rfl, hch⟩ := hr
    have hne : ch ≠ 'e' ∧ ch ≠ 'E' := by
      constructor <;> (rintro rfl; exact absurd hch (by decide))
    simp [Lexeme.exponentLength, hne]
  | some e =>
    obtain ⟨negative, e⟩ := e
    have hrun : Lexeme.run CharClass.isDecimal (e.text ++ rest) = e.text.length := by
      refine Lexeme.run_append (fun g hg => ?_) fun g => hr.head_eq_false (by decide)
      obtain ⟨ch, rfl, hch⟩ := e.isDecimal_of_mem_text g hg
      exact hch
    have hpos : e.digits.length ≠ 0 := by simpa using e.ne_nil
    cases negative <;> simp [Lexeme.exponentLength, hrun, hpos] <;> omega

theorem endsDigits_exponentText (hr : rest.Apart) : (l.exponentText ++ rest).EndsDigits := by
  unfold exponentText
  split
  · exact hr.endsDigits
  · exact ⟨'e', _, rfl, by decide⟩

theorem floatLength_text (hr : rest.Apart) :
    Lexeme.floatLength (l.text ++ rest) = l.text.length := by
  have htext : l.text ++ rest =
      l.whole.text ++ .char '.' :: (l.fraction.text ++ (l.exponentText ++ rest)) := by
    simp [text]
  have hwhole : Lexeme.digitGroups CharClass.isDecimal (l.text ++ rest) = l.whole.text.length := by
    rw [htext, Lexeme.digitGroups, Lexeme.digitGroupsFrom_append l.whole.isDecimal_of_mem_text
      ⟨'.', _, rfl, by decide⟩, Nat.zero_add]
  have hfraction : Lexeme.digitGroups CharClass.isDecimal
      (l.fraction.text ++ (l.exponentText ++ rest)) = l.fraction.text.length := by
    rw [Lexeme.digitGroups, Lexeme.digitGroupsFrom_append l.fraction.isDecimal_of_mem_text
      (l.endsDigits_exponentText hr), Nat.zero_add]
  have hpos : l.whole.digits.length ≠ 0 ∧ l.fraction.digits.length ≠ 0 := by
    simpa using ⟨l.whole.ne_nil, l.fraction.ne_nil⟩
  unfold Lexeme.floatLength
  simp only [hwhole]
  rw [htext, List.drop_left]
  simp [hfraction, hpos, l.exponentLength_exponentText hr, text]
  omega

theorem number_text (hr : rest.Apart) :
    Lexeme.number (l.text ++ rest) = .plain .float 0 l.text.length := by
  obtain ⟨ch, t, ht, -⟩ := l.whole.exists_text_eq
  have hlength := l.floatLength_text hr
  have hpos : l.text.length ≠ 0 := by simp [text]
  have htext : l.text ++ rest =
      .char ch :: t ++ .char '.' :: (l.fraction.text ++ (l.exponentText ++ rest)) := by
    simp [text, ht]
  rw [htext] at hlength ⊢
  rw [Lexeme.number_digits (ht ▸ l.whole.isDecimal_of_mem_text) ⟨'.', _, rfl, by decide⟩, hlength,
    if_neg hpos]

/-- A literal is one token. -/
theorem yields (h : c.Before (l.text ++ rest)) (hr : rest.Apart) :
    c.Yields flags .float l.text false rest := by
  have hnumber := l.number_text hr
  obtain ⟨ch, t, ht, hch⟩ := l.exists_text_eq
  rw [ht] at h hnumber ⊢
  exact yields_number h hch hnumber

end FloatLiteral

/-! ## The text of a number -/

/-- An exponent of at most five digits is read as it is. -/
theorem Binary64.exponentValue_eq {ds : List Nat} (h : Positional.value 10 ds < 100000) :
    exponentValue ds = Positional.value 10 ds := by
  induction ds using List.reverseRecOn with
  | nil => rfl
  | append_singleton ds d ih =>
    have hvalue : Positional.value 10 (ds ++ [d]) = Positional.value 10 ds * 10 + d := by
      simp [Positional.value]
    have hds : exponentValue ds = Positional.value 10 ds := ih (by omega)
    have hstep : exponentValue (ds ++ [d]) =
        if exponentValue ds < 10000 then exponentValue ds * 10 + d else exponentValue ds := by
      rw [exponentValue, List.foldl_append]
      rfl
    rw [hstep, hds, hvalue, if_pos (by omega)]

namespace Term

/-- Digits with a point after some of them. -/
theorem exists_pointed_eq {ds : List Nat} (hd : ∀ d ∈ ds, d < 10) {whole : Nat} (hpos : 0 < whole)
    (hle : whole ≤ ds.length) :
    ∃ w f : DigitRun,
      floatNotation.pointed whole (ds.map fun d => .char (Positional.digitChar d)) =
        w.text ++ .char '.' :: f.text ∧
      (Positional.value 10 (w.digits ++ f.digits) : ℚ) * 10 ^ (-f.digits.length : ℤ) =
        Positional.value 10 ds * 10 ^ ((whole : ℤ) - ds.length) := by
  let w : DigitRun := ⟨ds.take whole, fun d h => hd d (List.mem_of_mem_take h), by
    rw [← List.length_pos_iff]
    simp
    omega⟩
  rcases hle.lt_or_eq with hlt | rfl
  · let f : DigitRun := ⟨ds.drop whole, fun d h => hd d (List.mem_of_mem_drop h), by
      rw [← List.length_pos_iff]
      simp
      omega⟩
    refine ⟨w, f, ?_, ?_⟩
    · unfold Notation.pointed
      split
      · next hnil =>
        rw [← List.map_drop, List.map_eq_nil_iff] at hnil
        exact absurd hnil f.ne_nil
      · rw [← List.map_drop, ← List.map_take]
        rfl
    · have hwhole : w.digits ++ f.digits = ds := List.take_append_drop whole ds
      have hlength : f.digits.length = ds.length - whole := List.length_drop
      rw [hwhole, hlength, Nat.cast_sub hle, neg_sub]
  · refine ⟨w, ⟨[0], by simp, by simp⟩, ?_, ?_⟩
    · unfold Notation.pointed
      rw [← List.map_drop, ← List.map_take, List.drop_length]
      rfl
    · have hwhole : w.digits = ds := List.take_length
      rw [hwhole, Positional.value_append]
      simp [Positional.value]

/-- Digits with a point after some of them are a literal without an exponent. -/
theorem exists_literal_of_pointed {ds : List Nat} (hd : ∀ d ∈ ds, d < 10) {whole : Nat}
    (hpos : 0 < whole) (hle : whole ≤ ds.length) :
    ∃ l : FloatLiteral,
      floatNotation.pointed whole (ds.map fun d => .char (Positional.digitChar d)) = l.text ∧
      l.value = Positional.value 10 ds * 10 ^ ((whole : ℤ) - ds.length) := by
  obtain ⟨w, f, htext, hvalue⟩ := exists_pointed_eq hd hpos hle
  refine ⟨⟨w, f, none⟩, ?_, ?_⟩
  · simpa [FloatLiteral.text, FloatLiteral.exponentText] using htext
  · rw [← hvalue]
    simp [FloatLiteral.value, FloatLiteral.scientific, FloatLiteral.exponentValue]

/-- Digits behind zeros, with a point after the first zero. -/
theorem exists_literal_of_leadingZeros {ds : List Nat} (hd : ∀ d ∈ ds, d < 10) {zeros : Nat}
    (hpos : 0 < zeros) :
    ∃ l : FloatLiteral,
      floatNotation.pointed 1 (List.replicate zeros (.char '0') ++
        ds.map fun d => .char (Positional.digitChar d)) = l.text ∧
      l.value = Positional.value 10 ds * 10 ^ (1 - zeros - ds.length : ℤ) := by
  have hdigits : ∀ n ∈ List.replicate zeros 0 ++ ds, n < 10 := by
    simp only [List.mem_append, List.mem_replicate]
    rintro n (⟨-, rfl⟩ | hn)
    · decide
    · exact hd n hn
  obtain ⟨l, htext, hl⟩ := exists_literal_of_pointed hdigits Nat.one_pos (by simp; omega)
  refine ⟨l, ?_, ?_⟩
  · rw [← htext, List.map_append, List.map_replicate]
    rfl
  · rw [hl, Positional.value_append, Positional.value_replicate_zero, Nat.zero_mul, Nat.zero_add,
      List.length_append, List.length_replicate]
    congr 2
    push_cast
    omega

/-- Digits with a point after some of them, or behind as many zeros as are missing there. -/
theorem exists_literal_of_trailingZeros {ds : List Nat} (hd : ∀ d ∈ ds, d < 10) {whole : Nat}
    (hpos : 0 < whole) :
    ∃ l : FloatLiteral,
      floatNotation.pointed whole ((ds.map fun d => .char (Positional.digitChar d)) ++
        List.replicate (whole - ds.length) (.char '0')) = l.text ∧
      l.value = Positional.value 10 ds * 10 ^ ((whole : ℤ) - ds.length) := by
  have hdigits : ∀ n ∈ ds ++ List.replicate (whole - ds.length) 0, n < 10 := by
    simp only [List.mem_append, List.mem_replicate]
    rintro n (hn | ⟨-, rfl⟩)
    · exact hd n hn
    · decide
  obtain ⟨l, htext, hl⟩ := exists_literal_of_pointed hdigits hpos (by simp; omega)
  refine ⟨l, ?_, ?_⟩
  · rw [← htext, List.map_append, List.map_replicate]
    rfl
  · rw [hl, Positional.value_append, Positional.value_replicate_zero, List.length_append,
      List.length_replicate, Nat.add_zero, Nat.cast_mul, Nat.cast_pow, Nat.cast_ofNat, mul_assoc,
      ← zpow_natCast, ← zpow_add₀ (by norm_num)]
    congr 2
    push_cast
    omega

/-- Digits with a point after the first one, and an exponent. -/
theorem exists_literal_of_exponent {ds : List Nat} (hd : ∀ d ∈ ds, d < 10) (hne : ds ≠ []) {e : Int}
    (he : e.natAbs < 100000) :
    ∃ l : FloatLiteral,
      floatNotation.pointed 1 (ds.map fun d => .char (Positional.digitChar d)) ++
        Notation.exponent e = l.text ∧
      l.value = Positional.value 10 ds * 10 ^ (e + 1 - ds.length) := by
  obtain ⟨w, f, htext, hvalue⟩ := exists_pointed_eq hd Nat.one_pos (List.length_pos_iff.2 hne)
  refine ⟨⟨w, f, some (e < 0, .padded e.natAbs)⟩, ?_, ?_⟩
  · rw [htext]
    simp only [FloatLiteral.text, FloatLiteral.exponentText, DigitRun.text_padded,
      Notation.exponent, List.append_assoc, List.cons_append, decide_eq_true_eq]
  · have hdigits : Binary64.exponentValue (DigitRun.padded e.natAbs).digits = e.natAbs := by
      rw [Binary64.exponentValue_eq, DigitRun.value_padded]
      rwa [DigitRun.value_padded]
    have hexponent : FloatLiteral.exponentValue ⟨w, f, some (e < 0, .padded e.natAbs)⟩ = e := by
      simp only [FloatLiteral.exponentValue, hdigits, decide_eq_true_eq]
      omega
    simp only [FloatLiteral.value, FloatLiteral.scientific, hexponent]
    calc (Positional.value 10 (w.digits ++ f.digits) : ℚ) * 10 ^ (e - f.digits.length)
      _ = Positional.value 10 (w.digits ++ f.digits) * 10 ^ (-f.digits.length : ℤ) * 10 ^ e := by
        rw [mul_assoc, ← zpow_add₀ (by norm_num)]
        congr 2
        omega
      _ = Positional.value 10 ds * 10 ^ (e + 1 - ds.length) := by
        rw [hvalue, mul_assoc, ← zpow_add₀ (by norm_num)]
        congr 2
        push_cast
        omega

/-- The layout of a decimal is a literal of the same value. -/
theorem exists_literal_of_layout {d : Decimal} (hm : d.magnitude.natAbs < 100000) :
    ∃ l : FloatLiteral, floatNotation.layout d = l.text ∧ l.value = d.value := by
  have hlt : ∀ n ∈ Positional.digits 10 d.digits, n < 10 :=
    fun n => Positional.lt_of_mem_digits (by decide)
  have hne : Positional.digits 10 d.digits ≠ [] := Positional.digits_ne_nil
  have hmagnitude : d.magnitude = (Positional.digits 10 d.digits).length - 1 + d.exponent := rfl
  have hvalue {e : Int} (he : e = d.exponent) :
      (Positional.value 10 (Positional.digits 10 d.digits) : ℚ) * 10 ^ e = d.value := by
    rw [Positional.value_digits, he, Decimal.value]
  unfold Notation.layout
  simp only [Positional.decimal, Positional.text, List.length_map]
  split
  · split
    · obtain ⟨l, htext, hl⟩ :=
        exists_literal_of_leadingZeros hlt (show 0 < (-d.magnitude).toNat by omega)
      exact ⟨l, htext, hl.trans (hvalue (by omega))⟩
    · obtain ⟨l, htext, hl⟩ :=
        exists_literal_of_trailingZeros hlt (Nat.succ_pos d.magnitude.toNat)
      exact ⟨l, htext, hl.trans (hvalue (by push_cast; omega))⟩
  · obtain ⟨l, htext, hl⟩ := exists_literal_of_exponent hlt hne hm
    exact ⟨l, htext, hl.trans (hvalue (by omega))⟩

end Term

/-- The magnitude of a decimal is the exponent of its leading digit. -/
theorem Decimal.magnitude_spec {d : Decimal} (h : 0 < d.digits) :
    (10 : ℚ) ^ d.magnitude ≤ d.value ∧ d.value < 10 ^ (d.magnitude + 1) := by
  obtain ⟨k, hlength, hlow, hhigh⟩ :=
    @Positional.exists_length_digitsBefore 10 (by decide) [] d.digits
  have hmagnitude : d.magnitude = k + d.exponent := by
    rw [magnitude, Positional.digits, hlength]
    simp
  have hlow' : (10 : ℚ) ^ (k : ℤ) ≤ d.digits := by exact_mod_cast hlow h
  have hhigh' : (d.digits : ℚ) < 10 ^ ((k : ℤ) + 1) := by exact_mod_cast hhigh
  rw [hmagnitude, value]
  constructor
  · rw [zpow_add₀ (by norm_num)]
    gcongr
  · rw [add_right_comm, zpow_add₀ (by norm_num)]
    gcongr

namespace Binary64

variable {x : Binary64}

/-! ### Fields -/

section Fields

variable {field fraction : Nat} (negative : Bool)

theorem toNat_bits_ofFields (hfield : field < 2048) (hfraction : fraction < 2 ^ 52) :
    (ofFields negative field fraction).bits.toNat =
      (if negative then 2 ^ 63 else 0) + field * 2 ^ 52 + fraction := by
  have hlt : (if negative then 2 ^ 63 else 0) + field * 2 ^ 52 + fraction < UInt64.size := by
    have hsize : UInt64.size = 2 ^ 64 := rfl
    cases negative <;> simp [hsize] <;> omega
  simp only [ofFields, signWeight, Nat.pow_eq]
  exact UInt64.toNat_ofNat_of_lt' hlt

theorem isNegative_ofFields (hfield : field < 2048) (hfraction : fraction < 2 ^ 52) :
    (ofFields negative field fraction).isNegative = negative := by
  rw [isNegative, toNat_bits_ofFields negative hfield hfraction]
  cases negative <;> simp [signWeight] <;> omega

theorem exponentField_ofFields (hfield : field < 2048) (hfraction : fraction < 2 ^ 52) :
    (ofFields negative field fraction).exponentField = field := by
  rw [exponentField, toNat_bits_ofFields negative hfield hfraction]
  cases negative <;> simp <;> omega

theorem fraction_ofFields (hfield : field < 2048) (hfraction : fraction < 2 ^ 52) :
    (ofFields negative field fraction).fraction = fraction := by
  rw [Binary64.fraction, toNat_bits_ofFields negative hfield hfraction]
  cases negative <;> simp <;> omega

theorem negate_ofFields (hfield : field < 2048) (hfraction : fraction < 2 ^ 52) :
    (ofFields negative field fraction).negate = ofFields (!negative) field fraction := by
  rw [negate, isNegative_ofFields negative hfield hfraction,
    exponentField_ofFields negative hfield hfraction, fraction_ofFields negative hfield hfraction]

end Fields

theorem exponentField_lt (x : Binary64) : x.exponentField < 2048 :=
  Nat.mod_lt _ (by decide)

theorem ofFields_fields (x : Binary64) :
    ofFields x.isNegative x.exponentField x.fraction = x := by
  have hlt : x.bits.toNat < 2 ^ 64 := x.bits.toNat_lt
  have hbits : (if x.isNegative then signWeight else 0) + x.exponentField * Nat.pow 2 52 +
      x.fraction = x.bits.toNat := by
    by_cases hsign : signWeight ≤ x.bits.toNat
    · rw [isNegative, decide_eq_true hsign]
      simp [exponentField, Binary64.fraction, signWeight] at hsign ⊢
      omega
    · rw [isNegative, decide_eq_false hsign]
      simp [exponentField, Binary64.fraction, signWeight] at hsign ⊢
      omega
  rw [ofFields, hbits, UInt64.ofNat_toNat]

/-! ### Literals of numbers -/

theorem round?_of_contains {s : Scientific} (hradix : s.radix = 10) (hfinite : x.IsFinite)
    (h0 : 0 < x.significand.1)
    (h : (Rounding.ofBinary x).Contains (s.digits * 10 ^ s.exponent)) (negative : Bool) :
    s.round? negative = some (ofFields negative x.exponentField x.fraction) := by
  have hpos : 0 < s.digits := by
    exact_mod_cast pos_of_mul_pos_left (pos_of_contains hfinite h0 h) (by positivity)
  rw [Scientific.round?, if_neg hpos.ne', hradix]
  refine ofRatio?_of_contains (Nat.mul_pos hpos (Nat.pow_pos (by decide)))
    (Nat.pow_pos (by decide)) ?_ hfinite h0 h negative
  have hpow : ((10 ^ s.exponent.toNat : ℕ) : ℚ) =
      10 ^ s.exponent * ((10 ^ (-s.exponent).toNat : ℕ) : ℚ) := pow_toNat_eq (by decide) s.exponent
  rw [Nat.cast_mul, hpow]
  ring

/-- The literal of a number that is not zero. -/
theorem exists_literal_of_shortest (hfinite : x.IsFinite) (h0 : 0 < x.significand.1) :
    ∃ l : FloatLiteral, Term.floatNotation.layout x.shortest = l.text ∧
      l.scientific.round? false = some (ofFields false x.exponentField x.fraction) := by
  have hcontains := contains_shortest h0
  obtain ⟨hlow, hhigh⟩ := bounds_of_contains hfinite h0 hcontains
  have hpos : 0 < x.shortest.digits := by
    exact_mod_cast pos_of_mul_pos_left (pos_of_contains hfinite h0 hcontains) (by positivity)
  have hmagnitude : x.shortest.magnitude.natAbs < 100000 := by
    obtain ⟨hle, hlt⟩ := Decimal.magnitude_spec hpos
    have hupper : x.shortest.magnitude < 1024 := by
      rw [← zpow_lt_zpow_iff_right₀ (show (1 : ℚ) < 10 by norm_num)]
      calc (10 : ℚ) ^ x.shortest.magnitude
        _ ≤ x.shortest.value := hle
        _ < 2 ^ (1024 : ℤ) := hhigh
        _ ≤ 10 ^ (1024 : ℤ) := zpow_le_zpow_left₀ (by norm_num) (by norm_num) (by norm_num)
    have hlower : -1075 < x.shortest.magnitude + 1 := by
      rw [← zpow_lt_zpow_iff_right₀ (show (1 : ℚ) < 10 by norm_num)]
      calc (10 : ℚ) ^ (-1075 : ℤ)
        _ ≤ 2 ^ (-1075 : ℤ) := by
          rw [zpow_neg, zpow_neg]
          exact inv_anti₀ (by positivity)
            (zpow_le_zpow_left₀ (by norm_num) (by norm_num) (by norm_num))
        _ ≤ x.shortest.value := hlow
        _ < 10 ^ (x.shortest.magnitude + 1) := hlt
    omega
  obtain ⟨l, htext, hvalue⟩ := Term.exists_literal_of_layout hmagnitude
  refine ⟨l, htext, round?_of_contains rfl hfinite h0 ?_ false⟩
  rw [← hvalue] at hcontains
  exact hcontains

/-- The canonical text of a finite number is a literal, after its sign, and the literal stands for
the number without its sign. -/
theorem exists_literal (hfinite : x.IsFinite) :
    ∃ l : FloatLiteral,
      x.render Term.floatNotation = (if x.isNegative then [.char '-'] else []) ++ l.text ∧
      Term.ofFloatText l.text = .ok (.float (ofFields false x.exponentField x.fraction)) := by
  have hfield : x.exponentField ≠ 2047 := Nat.ne_of_lt hfinite
  unfold render
  simp only [isNaN, isInfinite, hfield, false_and, decide_false, Bool.false_eq_true, if_false]
  split
  · next hzero =>
    let zero : DigitRun := ⟨[0], by decide, by decide⟩
    refine ⟨⟨zero, zero, none⟩, rfl, FloatLiteral.ofFloatText_text _ ?_⟩
    rw [hzero.1, hzero.2]
    rfl
  · next hzero =>
    have h0 : 0 < x.significand.1 := by
      unfold significand
      split
      · next hfield => exact Nat.pos_of_ne_zero fun h => hzero ⟨hfield, h⟩
      · exact Nat.add_pos_left (by decide) _
    obtain ⟨l, htext, hround⟩ := exists_literal_of_shortest hfinite h0
    exact ⟨l, congrArg _ htext, l.ofFloatText_text hround⟩

end Binary64

end PrologText
