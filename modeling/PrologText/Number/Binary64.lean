/-!
# Binary floating point numbers of 64 bits

A number is its bit pattern: a sign, eleven bits of exponent and fifty-two of fraction.
`Binary64.ofRatio?` rounds an exact ratio to the nearest number, ties to even.
-/

namespace PrologText

structure Binary64 where
  bits : UInt64
deriving DecidableEq, Inhabited

namespace Binary64

/-- The weight of the sign bit. -/
def signWeight : Nat := Nat.pow 2 63

def isNegative (x : Binary64) : Bool :=
  signWeight ≤ x.bits.toNat

/-- The eleven exponent bits. -/
def exponentField (x : Binary64) : Nat :=
  x.bits.toNat / Nat.pow 2 52 % Nat.pow 2 11

/-- The fifty-two fraction bits. -/
def fraction (x : Binary64) : Nat :=
  x.bits.toNat % Nat.pow 2 52

def isNaN (x : Binary64) : Bool :=
  x.exponentField = 2047 ∧ x.fraction ≠ 0

def isInfinite (x : Binary64) : Bool :=
  x.exponentField = 2047 ∧ x.fraction = 0

/-- Puts a sign before an exponent field and a fraction; what the fraction has beyond fifty-two bits
carries into the exponent. -/
def ofFields (negative : Bool) (field fraction : Nat) : Binary64 :=
  ⟨.ofNat ((if negative then signWeight else 0) + field * Nat.pow 2 52 + fraction)⟩

def infinity (negative : Bool) : Binary64 :=
  ofFields negative 2047 0

/-- The number that stands for no number. -/
def nan : Binary64 :=
  ofFields false 2047 (Nat.pow 2 51 + 1)

def zero (negative : Bool) : Binary64 :=
  ofFields negative 0 0

/-- The same number with the other sign. -/
def negate (x : Binary64) : Binary64 :=
  ofFields (!x.isNegative) x.exponentField x.fraction

/-- The integer `m` and the exponent `q` of a finite number without its sign: `m * 2 ^ q`. -/
def significand (x : Binary64) : Nat × Int :=
  if x.exponentField = 0 then (x.fraction, -1074)
  else (Nat.pow 2 52 + x.fraction, (x.exponentField : Int) - 1075)

/-- The quotient of two naturals rounded to the nearest integer, ties to even. -/
def roundDiv (num den : Nat) : Nat :=
  let q := num / den
  let r := num % den
  if 2 * r < den then q
  else if den < 2 * r then q + 1
  else if q % 2 = 0 then q
  else q + 1

/-- The largest `k` with `2 ^ k ≤ num / den`, for two positive naturals. -/
def floorLog2 (num den : Nat) : Int :=
  let k := (num.log2 : Int) - den.log2
  if den * Nat.pow 2 k.toNat ≤ num * Nat.pow 2 (-k).toNat then k else k - 1

/-- The number nearest to `num / den`; `none` if it would be out of range. -/
def ofRatio? (negative : Bool) (num den : Nat) : Option Binary64 :=
  if num = 0 then some (zero negative)
  else
    let q := max (-1074) (floorLog2 num den - 52)
    let m := roundDiv (num * Nat.pow 2 (-q).toNat) (den * Nat.pow 2 q.toNat)
    let field := if m < Nat.pow 2 52 then 0 else (q + 1075).toNat
    let fraction := if m < Nat.pow 2 52 then m else m - Nat.pow 2 52
    if 2047 * Nat.pow 2 52 ≤ field * Nat.pow 2 52 + fraction then none
    else some (ofFields negative field fraction)

end Binary64

end PrologText
