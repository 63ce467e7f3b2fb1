import Mathlib.Algebra.Order.Field.Power
import Mathlib.Tactic.FieldSimp
import Mathlib.Tactic.Linarith
import Mathlib.Tactic.LinearCombination
import Mathlib.Tactic.MkIffOfInductiveProp
import Mathlib.Tactic.NormNum
import Mathlib.Tactic.Positivity
import Mathlib.Tactic.Ring
import PrologText.Number.Shortest

/-!
# Decimals that round to a number

The interval of reals that `Rounding.ofBinary` gives for a number is one of reals that are rounded
to the number (`Binary64.ofRatio?_of_contains`), and the shortest decimal of the number lies in it
(`Binary64.contains_shortest`).
-/

namespace PrologText

/-! ## Powers in a numerator and a denominator -/

section Powers

variable {b : ℕ} (hb : 0 < b) (k : ℤ) {m n : ℕ}

include hb

theorem pow_toNat_eq : ((b ^ k.toNat : ℕ) : ℚ) = b ^ k * ((b ^ (-k).toNat : ℕ) : ℚ) := by
  have hb' : (b : ℚ) ≠ 0 := by positivity
  push_cast
  rw [← zpow_natCast, ← zpow_natCast, ← zpow_add₀ hb']
  congr 1
  omega

theorem mul_pow_le_iff : m * b ^ k.toNat ≤ n * b ^ (-k).toNat ↔ (m : ℚ) * b ^ k ≤ n := by
  have hpos : (0 : ℚ) < ((b ^ (-k).toNat : ℕ) : ℚ) := by positivity
  rw [← @Nat.cast_le ℚ, Nat.cast_mul, Nat.cast_mul, pow_toNat_eq hb k, ← mul_assoc,
    mul_le_mul_iff_left₀ hpos]

theorem le_mul_pow_iff : n * b ^ (-k).toNat ≤ m * b ^ k.toNat ↔ (n : ℚ) ≤ m * b ^ k := by
  have hpos : (0 : ℚ) < ((b ^ (-k).toNat : ℕ) : ℚ) := by positivity
  rw [← @Nat.cast_le ℚ, Nat.cast_mul, Nat.cast_mul, pow_toNat_eq hb k, ← mul_assoc,
    mul_le_mul_iff_left₀ hpos]

end Powers

/-! ## Intervals -/

/-- Whether `v` lies between two bounds, which count themselves if `closed`. -/
@[mk_iff]
structure Between (closed : Bool) (low v high : ℚ) : Prop where
  low_le : low ≤ v
  le_high : v ≤ high
  inside : closed = false → low < v ∧ v < high

namespace Between

variable {closed : Bool} {low low' v high c : ℚ}

theorem of_lt (h : low < v) (h' : v < high) : Between closed low v high :=
  ⟨h.le, h'.le, fun _ => ⟨h, h'⟩⟩

theorem mono_low (h : Between closed low v high) (hlow : low' ≤ low) :
    Between closed low' v high :=
  ⟨hlow.trans h.low_le, h.le_high, fun hc => ⟨hlow.trans_lt (h.inside hc).1, (h.inside hc).2⟩⟩

theorem mul_right_iff (hc : 0 < c) :
    Between closed (low * c) (v * c) (high * c) ↔ Between closed low v high := by
  simp only [between_iff, mul_le_mul_iff_left₀ hc, mul_lt_mul_iff_left₀ hc]

end Between

/-! ## Rounding a ratio -/

namespace Binary64

/-- The exponent of the leading binary digit of a ratio. -/
theorem floorLog2_spec {num den : ℕ} {v : ℚ} (hnum : 0 < num) (hden : 0 < den)
    (hv : (num : ℚ) = den * v) :
    (2 : ℚ) ^ floorLog2 num den ≤ v ∧ v < 2 ^ (floorLog2 num den + 1) := by
  have hn1 : (2 : ℚ) ^ (num.log2 : ℤ) ≤ num := by
    exact_mod_cast Nat.log2_self_le hnum.ne'
  have hn2 : (num : ℚ) < 2 ^ ((num.log2 : ℤ) + 1) := by
    exact_mod_cast Nat.lt_log2_self
  have hd1 : (2 : ℚ) ^ (den.log2 : ℤ) ≤ den := by
    exact_mod_cast Nat.log2_self_le hden.ne'
  have hd2 : (den : ℚ) < 2 ^ ((den.log2 : ℤ) + 1) := by
    exact_mod_cast Nat.lt_log2_self
  have hpos : (0 : ℚ) < den := by positivity
  have hlow (k : ℤ) : (den : ℚ) * 2 ^ k ≤ num ↔ (2 : ℚ) ^ k ≤ v := by
    rw [hv, mul_le_mul_iff_right₀ hpos]
  -- The logarithms leave two exponents to choose from.
  have hone : (2 : ℚ) ^ ((num.log2 : ℤ) - den.log2 - 1) ≤ v := by
    rw [← hlow]
    calc (den : ℚ) * 2 ^ ((num.log2 : ℤ) - den.log2 - 1)
      _ ≤ 2 ^ ((den.log2 : ℤ) + 1) * 2 ^ ((num.log2 : ℤ) - den.log2 - 1) := by gcongr
      _ = 2 ^ (num.log2 : ℤ) := by
        rw [← zpow_add₀ two_ne_zero]
        congr 1
        omega
      _ ≤ num := hn1
  have htwo : v < 2 ^ ((num.log2 : ℤ) - den.log2 + 1) := by
    rw [← not_le, ← hlow, not_le]
    calc (num : ℚ)
      _ < 2 ^ ((num.log2 : ℤ) + 1) := hn2
      _ = 2 ^ (den.log2 : ℤ) * 2 ^ ((num.log2 : ℤ) - den.log2 + 1) := by
        rw [← zpow_add₀ two_ne_zero]
        congr 1
        omega
      _ ≤ den * 2 ^ ((num.log2 : ℤ) - den.log2 + 1) := by gcongr
  unfold floorLog2
  simp only
  split
  · next h => exact ⟨(hlow _).1 (by exact_mod_cast (mul_pow_le_iff two_pos _).1 h), htwo⟩
  · next h =>
    refine ⟨hone, ?_⟩
    rw [sub_add_cancel, ← not_le, ← hlow]
    exact fun hle => h ((mul_pow_le_iff two_pos _).2 (by exact_mod_cast hle))

/-- A ratio is rounded to the integer that is less than a half away, or a half away and even. -/
theorem roundDiv_eq {num den n : ℕ} (hden : 0 < den) (hlow : 2 * n * den ≤ 2 * num + den)
    (hhigh : 2 * num ≤ 2 * n * den + den)
    (hodd : n % 2 = 1 → 2 * n * den < 2 * num + den ∧ 2 * num < 2 * n * den + den) :
    roundDiv num den = n := by
  have hr : num % den < den := Nat.mod_lt num hden
  have hnum : num / den * den + num % den = num := Nat.div_add_mod' num den
  unfold roundDiv
  simp only
  generalize num / den = q, num % den = r at *
  subst hnum
  have hle : q ≤ n := by
    by_contra h
    nlinarith
  have hge : n ≤ q + 1 := by
    by_contra h
    nlinarith
  obtain rfl | rfl : n = q ∨ n = q + 1 := by omega
  · have h1 : 2 * r ≤ den := by nlinarith
    have h2 : n % 2 = 1 → 2 * r < den := fun h => by nlinarith [(hodd h).2]
    split
    · rfl
    · rw [if_neg (by omega), if_pos (by omega)]
  · have h1 : den ≤ 2 * r := by nlinarith
    have h2 : (q + 1) % 2 = 1 → den < 2 * r := fun h => by nlinarith [(hodd h).1]
    rw [if_neg (by omega)]
    split
    · rfl
    · rw [if_neg (by omega)]

/-- Rounding at the binary place `k`. -/
theorem roundDiv_scaled {num den n : ℕ} {k : ℤ} {v : ℚ} (hden : 0 < den) (hv : (num : ℚ) = den * v)
    (h : Between (n % 2 = 0) ((n - 1 / 2) * 2 ^ k) v ((n + 1 / 2) * 2 ^ k)) :
    roundDiv (num * 2 ^ (-k).toNat) (den * 2 ^ k.toNat) = n := by
  have hpow : ((2 ^ k.toNat : ℕ) : ℚ) = 2 ^ k * ((2 ^ (-k).toNat : ℕ) : ℚ) :=
    pow_toNat_eq two_pos k
  have hs : (0 : ℚ) < den * ((2 ^ (-k).toNat : ℕ) : ℚ) := by positivity
  obtain ⟨hlow, hhigh, hinside⟩ := h
  refine roundDiv_eq (by positivity) ?_ ?_ fun hodd => ?_
  · rw [← @Nat.cast_le ℚ]
    simp only [Nat.cast_mul, Nat.cast_add, hpow, Nat.cast_ofNat, hv]
    linear_combination 2 * (den * ((2 ^ (-k).toNat : ℕ) : ℚ)) * hlow
  · rw [← @Nat.cast_le ℚ]
    simp only [Nat.cast_mul, Nat.cast_add, hpow, Nat.cast_ofNat, hv]
    linear_combination 2 * (den * ((2 ^ (-k).toNat : ℕ) : ℚ)) * hhigh
  · obtain ⟨hlow, hhigh⟩ := hinside (decide_eq_false (by omega))
    rw [← @Nat.cast_lt ℚ, ← @Nat.cast_lt ℚ]
    simp only [Nat.cast_mul, Nat.cast_add, hpow, Nat.cast_ofNat, hv]
    constructor
    · linear_combination 2 * (den * ((2 ^ (-k).toNat : ℕ) : ℚ)) * hlow
    · linear_combination 2 * (den * ((2 ^ (-k).toNat : ℕ) : ℚ)) * hhigh

end Binary64

/-! ## The interval of a number -/

/-- Whether a real lies in the interval. -/
def Rounding.Contains (r : Rounding) (v : ℚ) : Prop :=
  Between r.closed r.low (v * r.denominator) r.high

namespace Binary64

variable {x : Binary64} {m : ℕ} {q : ℤ} {v : ℚ}

theorem fraction_lt (x : Binary64) : x.fraction < 2 ^ 52 :=
  Nat.mod_lt _ (by decide)

/-- Whether the gap below a number is half as wide as the one above it. -/
def IsNarrow (x : Binary64) : Prop :=
  x.fraction = 0 ∧ 1 < x.exponentField

instance (x : Binary64) : Decidable x.IsNarrow :=
  inferInstanceAs (Decidable (_ ∧ _))

theorem ofBinary_eq (hs : x.significand = (m, q)) :
    Rounding.ofBinary x =
      { value := 4 * m * 2 ^ (q - 2).toNat
        low := (4 * m - if x.IsNarrow then 1 else 2) * 2 ^ (q - 2).toNat
        high := (4 * m + 2) * 2 ^ (q - 2).toNat
        denominator := 2 ^ (2 - q).toNat
        closed := m % 2 = 0 } := by
  simp only [Rounding.ofBinary, hs]
  rfl

/-- The interval goes half of the way to the numbers below and above. -/
theorem contains_ofBinary_iff (hs : x.significand = (m, q)) (hm : 0 < m) :
    (Rounding.ofBinary x).Contains v ↔
      Between (m % 2 = 0) ((m - if x.IsNarrow then 1 / 4 else 1 / 2) * 2 ^ q) v
        ((m + 1 / 2) * 2 ^ q) := by
  have hden : (0 : ℚ) < ((2 ^ (2 - q).toNat : ℕ) : ℚ) := by positivity
  have hunit : ((2 ^ (q - 2).toNat : ℕ) : ℚ) = 2 ^ q / 4 * ((2 ^ (2 - q).toNat : ℕ) : ℚ) := by
    have hpow := pow_toNat_eq two_pos (q - 2)
    rw [neg_sub] at hpow
    rw [hpow, Nat.cast_ofNat, zpow_sub₀ two_ne_zero]
    norm_num
  have hlow : (((4 * m - if x.IsNarrow then 1 else 2) * 2 ^ (q - 2).toNat : ℕ) : ℚ) =
      (m - if x.IsNarrow then 1 / 4 else 1 / 2) * 2 ^ q * ((2 ^ (2 - q).toNat : ℕ) : ℚ) := by
    rw [Nat.cast_mul, hunit]
    split <;> rw [Nat.cast_sub (by omega)] <;> push_cast <;> ring
  have hhigh : (((4 * m + 2) * 2 ^ (q - 2).toNat : ℕ) : ℚ) =
      (m + 1 / 2) * 2 ^ q * ((2 ^ (2 - q).toNat : ℕ) : ℚ) := by
    rw [Nat.cast_mul, hunit]
    push_cast
    ring
  rw [Rounding.Contains, ofBinary_eq hs]
  simp only [hlow, hhigh]
  exact Between.mul_right_iff hden

theorem two_zpow_add (q n : ℤ) : (2 : ℚ) ^ (q + n) = 2 ^ n * 2 ^ q := by
  rw [zpow_add₀ two_ne_zero, mul_comm]

/-- The place that a ratio is rounded at, if it lies between two powers of two. -/
theorem place_eq {num den : ℕ} (hnum : 0 < num) (hden : 0 < den) (hv : (num : ℚ) = den * v)
    (hhigh : v < 2 ^ (q + 53)) (hlow : q = -1074 ∨ -1074 ≤ q ∧ 2 ^ (q + 52) ≤ v) :
    max (-1074) (floorLog2 num den - 52) = q := by
  obtain ⟨h1, h2⟩ := floorLog2_spec hnum hden hv
  have hlt := (zpow_lt_zpow_iff_right₀ one_lt_two).1 (h1.trans_lt hhigh)
  rcases hlow with rfl | ⟨hq, hlow⟩
  · omega
  · have hgt := (zpow_lt_zpow_iff_right₀ one_lt_two).1 (hlow.trans_lt h2)
    omega

/-- What a ratio is rounded to, given the place and the integer at that place. -/
theorem ofRatio?_eq {num den field fraction : ℕ} (hnum : 0 < num) (negative : Bool)
    (hq : max (-1074) (floorLog2 num den - 52) = q)
    (hm : roundDiv (num * 2 ^ (-q).toNat) (den * 2 ^ q.toNat) = m)
    (hfields : (if m < 2 ^ 52 then 0 else (q + 1075).toNat) * 2 ^ 52 +
      (if m < 2 ^ 52 then m else m - 2 ^ 52) = field * 2 ^ 52 + fraction)
    (hlt : field * 2 ^ 52 + fraction < 2047 * 2 ^ 52) :
    ofRatio? negative num den = some (ofFields negative field fraction) := by
  unfold ofRatio?
  simp only [hnum.ne', if_false, hq, Nat.pow_eq, hm, hfields, not_le.2 hlt, ofFields, add_assoc]

/-- A number that is neither infinite nor the one that stands for no number. -/
def IsFinite (x : Binary64) : Prop :=
  x.exponentField < 2047

/-- The significand of a number below a power of two is an integer at the least place. -/
theorem significand_of_zero (h : x.exponentField = 0) : x.significand = (x.fraction, -1074) := by
  rw [significand, if_pos h]

theorem significand_of_pos (h : 0 < x.exponentField) :
    x.significand = (2 ^ 52 + x.fraction, (x.exponentField : ℤ) - 1075) := by
  rw [significand, if_neg h.ne']
  rfl

/-- A real between the halves below and above an integer at the place `q` is rounded to that
integer. At a place other than the least one the real has 53 binary digits before the place. -/
theorem ofRatio?_of_between {num den field fraction : ℕ} (hnum : 0 < num) (hden : 0 < den)
    (hv : (num : ℚ) = den * v) (hm : m ≤ 2 ^ 53) (hbelow : m = 2 ^ 53 → v < 2 ^ (q + 53))
    (hlow : q = -1074 ∨ -1074 ≤ q ∧ 2 ^ (q + 52) ≤ v)
    (h : Between (m % 2 = 0) ((m - 1 / 2) * 2 ^ q) v ((m + 1 / 2) * 2 ^ q))
    (hfields : (if m < 2 ^ 52 then 0 else (q + 1075).toNat) * 2 ^ 52 +
      (if m < 2 ^ 52 then m else m - 2 ^ 52) = field * 2 ^ 52 + fraction)
    (hlt : field * 2 ^ 52 + fraction < 2047 * 2 ^ 52) (negative : Bool) :
    ofRatio? negative num den = some (ofFields negative field fraction) := by
  have hhigh : v < 2 ^ (q + 53) := by
    rcases hm.lt_or_eq with hm | hm
    · have hm' : (m : ℚ) + 1 ≤ 2 ^ (53 : ℤ) := by exact_mod_cast hm
      calc v
        _ ≤ (m + 1 / 2) * 2 ^ q := h.le_high
        _ < 2 ^ (53 : ℤ) * 2 ^ q := by gcongr; linarith only [hm']
        _ = 2 ^ (q + 53) := (two_zpow_add q 53).symm
    · exact hbelow hm
  exact ofRatio?_eq hnum negative (place_eq hnum hden hv hhigh hlow) (roundDiv_scaled hden hv h)
    hfields hlt

/-- A real just below a power of two, where the places are half as wide as above it, is rounded to
the power. -/
theorem ofRatio?_below_power {num den field : ℕ} (hnum : 0 < num) (hden : 0 < den)
    (hv : (num : ℚ) = den * v) (hfield : 1 < field) (hlt : field < 2047)
    (hlow : (2 ^ (52 : ℤ) - 1 / 4) * 2 ^ ((field : ℤ) - 1075) ≤ v)
    (hhigh : v < 2 ^ (52 : ℤ) * 2 ^ ((field : ℤ) - 1075)) (negative : Bool) :
    ofRatio? negative num den = some (ofFields negative field 0) := by
  have hpow : (2 : ℚ) ^ ((field : ℤ) - 1075) = 2 * 2 ^ ((field : ℤ) - 1076) := by
    rw [← zpow_one_add₀ two_ne_zero]
    congr 1
    omega
  have hpos : (0 : ℚ) < 2 ^ ((field : ℤ) - 1076) := by positivity
  have hnext : ((2 ^ 53 : ℕ) : ℚ) = 2 * 2 ^ (52 : ℤ) := by norm_num
  rw [hpow] at hlow hhigh
  generalize hq : (field : ℤ) - 1076 = q at hlow hhigh hpos
  refine ofRatio?_of_between (q := q) hnum hden hv (Nat.le_refl (2 ^ 53)) (fun _ => ?_)
    (.inr ⟨?_, ?_⟩) ⟨?_, ?_, fun h => absurd h (by decide)⟩ ?_ ?_ negative
  · rw [two_zpow_add]
    refine hhigh.trans_eq ?_
    norm_num
    ring
  · omega
  · rw [two_zpow_add]
    refine le_trans ?_ hlow
    rw [← mul_assoc]
    gcongr
    norm_num
  · rw [hnext]
    linear_combination hlow
  · rw [hnext]
    linear_combination hhigh.le + 1 / 2 * hpos.le
  · rw [if_neg (by decide), if_neg (by decide)]
    omega
  · omega

/-- A real in the interval of a number is rounded to it. -/
theorem ofRatio?_of_contains {num den : ℕ} (hnum : 0 < num) (hden : 0 < den)
    (hv : (num : ℚ) = den * v) (hfinite : x.IsFinite) (h0 : 0 < x.significand.1)
    (h : (Rounding.ofBinary x).Contains v) (negative : Bool) :
    ofRatio? negative num den = some (ofFields negative x.exponentField x.fraction) := by
  have hfraction := x.fraction_lt
  have hlt : x.exponentField < 2047 := hfinite
  have hrange : x.exponentField * 2 ^ 52 + x.fraction < 2047 * 2 ^ 52 := by omega
  rcases Nat.eq_zero_or_pos x.exponentField with hfield | hfield
  · have hs := significand_of_zero hfield
    rw [hs] at h0
    have hwide : ¬x.IsNarrow := fun h => absurd h.1 h0.ne'
    rw [contains_ofBinary_iff hs h0, if_neg hwide] at h
    refine ofRatio?_of_between hnum hden hv (by omega) (by omega) (.inl rfl) h ?_ hrange negative
    rw [if_pos hfraction, if_pos hfraction, hfield]
  · obtain ⟨m, hm, hs⟩ : ∃ m, m = 2 ^ 52 + x.fraction ∧
        x.significand = (m, (x.exponentField : ℤ) - 1075) :=
      ⟨_, rfl, significand_of_pos hfield⟩
    rw [contains_ofBinary_iff hs (by omega)] at h
    by_cases hplace : (x.exponentField : ℤ) - 1075 = -1074 ∨
        -1074 ≤ (x.exponentField : ℤ) - 1075 ∧ 2 ^ ((x.exponentField : ℤ) - 1075 + 52) ≤ v
    · refine ofRatio?_of_between hnum hden hv (by omega) (by omega) hplace (h.mono_low ?_) ?_ hrange
        negative
      · gcongr
        split <;> norm_num
      · rw [if_neg (by omega), if_neg (by omega)]
        omega
    · rw [not_or, not_and, not_le, two_zpow_add] at hplace
      have hhigh := hplace.2 (by omega)
      have hzero : x.fraction = 0 := by
        by_contra hne
        have hwide : ¬x.IsNarrow := fun h => hne h.1
        have hle : (2 : ℚ) ^ (52 : ℤ) + 1 ≤ m := by
          exact_mod_cast (show 2 ^ 52 + 1 ≤ m by omega)
        rw [if_neg hwide] at h
        refine absurd (h.low_le.trans_lt hhigh) (not_lt.2 ?_)
        gcongr
        linarith only [hle]
      have hm' : (m : ℚ) = 2 ^ (52 : ℤ) := by exact_mod_cast (show m = 2 ^ 52 by omega)
      have hlow := h.low_le
      rw [if_pos ⟨hzero, by omega⟩, hm'] at hlow
      rw [hzero]
      exact ofRatio?_below_power hnum hden hv (by omega) hlt hlow hhigh negative

/-- The interval of a finite number lies within the range of all of them. -/
theorem bounds_of_contains (hfinite : x.IsFinite) (h0 : 0 < x.significand.1)
    (h : (Rounding.ofBinary x).Contains v) : (2 : ℚ) ^ (-1075 : ℤ) ≤ v ∧ v < 2 ^ (1024 : ℤ) := by
  obtain ⟨m, q, hs, hm, hlow, hhigh⟩ : ∃ m q, x.significand = (m, q) ∧ m + 1 ≤ 2 ^ 53 ∧
      -1074 ≤ q ∧ q ≤ 971 := by
    have hlt : x.exponentField < 2047 := hfinite
    have hfraction := x.fraction_lt
    rcases Nat.eq_zero_or_pos x.exponentField with hfield | hfield
    · exact ⟨_, _, significand_of_zero hfield, by omega, by omega, by omega⟩
    · exact ⟨_, _, significand_of_pos hfield, by omega, by omega, by omega⟩
  rw [hs] at h0
  rw [contains_ofBinary_iff hs h0] at h
  have hone : (1 : ℚ) ≤ m := by exact_mod_cast h0
  have hm' : (m : ℚ) + 1 ≤ 2 ^ (53 : ℤ) := by exact_mod_cast hm
  constructor
  · have hhalf : (2 : ℚ) ^ (-1 : ℤ) ≤ m - if x.IsNarrow then 1 / 4 else 1 / 2 := by
      split <;> norm_num <;> linarith only [hone]
    calc (2 : ℚ) ^ (-1075 : ℤ)
      _ ≤ 2 ^ (q + -1) := zpow_le_zpow_right₀ one_le_two (by omega)
      _ = 2 ^ (-1 : ℤ) * 2 ^ q := two_zpow_add q (-1)
      _ ≤ (m - if x.IsNarrow then 1 / 4 else 1 / 2) * 2 ^ q := by gcongr
      _ ≤ v := h.low_le
  · calc v
      _ ≤ (m + 1 / 2) * 2 ^ q := h.le_high
      _ < 2 ^ (53 : ℤ) * 2 ^ q := by
        gcongr
        linarith only [hm']
      _ = 2 ^ (q + 53) := (two_zpow_add q 53).symm
      _ ≤ 2 ^ (1024 : ℤ) := zpow_le_zpow_right₀ one_le_two (by omega)

theorem pos_of_contains (hfinite : x.IsFinite) (h0 : 0 < x.significand.1)
    (h : (Rounding.ofBinary x).Contains v) : 0 < v :=
  lt_of_lt_of_le (by positivity) (bounds_of_contains hfinite h0 h).1

end Binary64

/-! ## The shortest decimal -/

/-- The number that a decimal is. -/
def Decimal.value (d : Decimal) : ℚ :=
  d.digits * 10 ^ d.exponent

theorem Decimal.value_strip (d : Decimal) : d.strip.value = d.value := by
  fun_induction strip d with
  | case1 d h ih =>
    have hdigits : (d.digits : ℚ) = ((d.digits / 10 : ℕ) : ℚ) * 10 := by
      exact_mod_cast (Nat.div_mul_cancel (Nat.dvd_of_mod_eq_zero h.2)).symm
    rw [ih, value, value, hdigits, zpow_add_one₀ (by norm_num)]
    ring
  | case2 => rfl

namespace Rounding

variable {r : Rounding} {p : ℤ} {d : Decimal}

/-- The test on a multiple of a power of ten is whether it lies in the interval. -/
theorem contains_of_fits {a : ℕ}
    (h : (if r.closed then
        decide (r.low * Nat.pow 10 (-p).toNat ≤ a * (r.denominator * Nat.pow 10 p.toNat) ∧
          a * (r.denominator * Nat.pow 10 p.toNat) ≤ r.high * Nat.pow 10 (-p).toNat)
      else
        decide (r.low * Nat.pow 10 (-p).toNat < a * (r.denominator * Nat.pow 10 p.toNat) ∧
          a * (r.denominator * Nat.pow 10 p.toNat) < r.high * Nat.pow 10 (-p).toNat)) = true) :
    r.Contains (Decimal.value ⟨a, p⟩) := by
  have hle (n : ℕ) : n * 10 ^ (-p).toNat ≤ a * (r.denominator * 10 ^ p.toNat) ↔
      (n : ℚ) ≤ Decimal.value ⟨a, p⟩ * r.denominator := by
    rw [← mul_assoc, le_mul_pow_iff (by decide) p, Decimal.value, Nat.cast_mul, mul_right_comm]
    rfl
  have hge (n : ℕ) : a * (r.denominator * 10 ^ p.toNat) ≤ n * 10 ^ (-p).toNat ↔
      Decimal.value ⟨a, p⟩ * r.denominator ≤ (n : ℚ) := by
    rw [← mul_assoc, mul_pow_le_iff (by decide) p, Decimal.value, Nat.cast_mul, mul_right_comm]
    rfl
  simp only [Nat.pow_eq] at h
  split at h
  · next hc =>
    rw [decide_eq_true_eq, hle, hge] at h
    exact ⟨h.1, h.2, fun hopen => absurd hc (by simp [hopen])⟩
  · rw [decide_eq_true_eq, ← not_le, ← not_le, hle, hge, not_le, not_le] at h
    exact .of_lt h.1 h.2

theorem contains_of_onGrid? (h : r.onGrid? p = some d) : r.Contains d.value := by
  unfold onGrid? at h
  simp only at h
  split at h
  · next hfits _ =>
    cases h
    exact contains_of_fits hfits
  · next _ hfits =>
    cases h
    exact contains_of_fits hfits
  · cases h
  · next hfits hfits' =>
    split at h
    · cases h
      exact contains_of_fits hfits
    · cases h
      exact contains_of_fits hfits'

end Rounding

namespace Binary64

variable {x : Binary64}

theorem value_exactDecimal {m : ℕ} {q : ℤ} (hs : x.significand = (m, q)) :
    x.exactDecimal.value = m * 2 ^ q := by
  unfold exactDecimal
  rw [hs]
  obtain ⟨n, rfl | rfl⟩ := q.eq_nat_or_neg
  · simp [Decimal.value, Nat.pow_eq]
  · have hten : (10 : ℚ) ^ n = 2 ^ n * 5 ^ n := by
      rw [← mul_pow]
      norm_num
    simp [Decimal.value, Nat.pow_eq, hten]
    field_simp

/-- The shortest decimal of a number lies in its interval. -/
theorem contains_shortest (h0 : 0 < x.significand.1) :
    (Rounding.ofBinary x).Contains x.shortest.value := by
  unfold shortest
  simp only
  rw [Decimal.value_strip]
  cases hfind : (List.range 17).findSome? fun (n : ℕ) =>
      (Rounding.ofBinary x).onGrid? ((Rounding.ofBinary x).places - 1 - (n : ℤ)) with
  | some d =>
    obtain ⟨n, -, hn⟩ := List.exists_of_findSome?_eq_some hfind
    exact Rounding.contains_of_onGrid? hn
  | none =>
    rcases hs : x.significand with ⟨m, q⟩
    rw [hs] at h0
    rw [contains_ofBinary_iff hs h0, Option.getD_none, value_exactDecimal hs]
    refine .of_lt ?_ ?_
    · gcongr
      split <;> norm_num
    · gcongr
      norm_num

end Binary64

end PrologText
