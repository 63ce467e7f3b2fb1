import PrologText.Number.Positional
import PrologText.Number.Binary64

/-!
# Shortest decimals

The decimal with the fewest digits that rounds to a given number, and of those the nearest to it.
The reals that round to a number form an interval, with its ends if the significand is even. For one
digit, two digits and so on, the two neighbours of the number on that decimal grid are tried.
-/

namespace PrologText

/-- The decimal `digits * 10 ^ exponent`. -/
structure Decimal where
  digits : Nat
  exponent : Int
deriving DecidableEq, Inhabited

namespace Decimal

/-- Moves the zeros at the end of the digits into the exponent. -/
def strip (d : Decimal) : Decimal :=
  if 0 < d.digits ∧ d.digits % 10 = 0 then
    strip ⟨d.digits / 10, d.exponent + 1⟩
  else d
termination_by d.digits
decreasing_by exact Nat.div_lt_self (by omega) (by omega)

/-- The exponent of the leading digit. -/
def magnitude (d : Decimal) : Int :=
  (Positional.digits 10 d.digits).length - 1 + d.exponent

end Decimal

/-- A number with the interval of reals that round to it, all over one denominator. -/
structure Rounding where
  value : Nat
  low : Nat
  high : Nat
  denominator : Nat
  /-- Whether the ends of the interval round to the number too. -/
  closed : Bool

namespace Rounding

/-- The interval of a finite number that is not zero. Below a power of two the gap is half as wide
as above it. -/
def ofBinary (x : Binary64) : Rounding :=
  let (m, q) := x.significand
  let unit := Nat.pow 2 (q - 2).toNat
  let narrow := x.fraction = 0 ∧ 1 < x.exponentField
  { value := 4 * m * unit
    low := (4 * m - (if narrow then 1 else 2)) * unit
    high := (4 * m + 2) * unit
    denominator := Nat.pow 2 (2 - q).toNat
    closed := m % 2 = 0 }

/-- A number of decimal places before the point that the value does not exceed. -/
def places (r : Rounding) : Int :=
  let t := (r.value.log2 : Int) - r.denominator.log2
  let least := Int.fdiv ((t - 1) * 30103) 100000 + 1
  let below (k : Int) : Bool :=
    r.value * Nat.pow 10 (-k).toNat < r.denominator * Nat.pow 10 k.toNat
  if below least then least else if below (least + 1) then least + 1 else least + 2

/-- The multiple of `10 ^ p` that rounds to the number; of two, the nearer, and of two equally near
the even one. -/
def onGrid? (r : Rounding) (p : Int) : Option Decimal :=
  let step := r.denominator * Nat.pow 10 p.toNat
  let scale := Nat.pow 10 (-p).toNat
  let fits (a : Nat) : Bool :=
    if r.closed then r.low * scale ≤ a * step ∧ a * step ≤ r.high * scale
    else r.low * scale < a * step ∧ a * step < r.high * scale
  let a := r.value * scale / step
  match fits a, fits (a + 1) with
  | true, false => some ⟨a, p⟩
  | false, true => some ⟨a + 1, p⟩
  | false, false => none
  | true, true =>
    let twice := 2 * (r.value * scale)
    let middle := (2 * a + 1) * step
    if twice < middle ∨ (twice = middle ∧ a % 2 = 0) then some ⟨a, p⟩ else some ⟨a + 1, p⟩

end Rounding

namespace Binary64

/-- The decimal that equals a finite number without its sign. -/
def exactDecimal (x : Binary64) : Decimal :=
  let (m, q) := x.significand
  ⟨m * Nat.pow 2 q.toNat * Nat.pow 5 (-q).toNat, min q 0⟩

/-- The shortest decimal that rounds to a finite number that is not zero, without its sign.
Seventeen digits are always enough. -/
def shortest (x : Binary64) : Decimal :=
  let r := Rounding.ofBinary x
  let k := r.places
  let fewest := (List.range 17).findSome? fun (n : Nat) => r.onGrid? (k - 1 - (n : Int))
  (fewest.getD x.exactDecimal).strip

end Binary64

end PrologText
