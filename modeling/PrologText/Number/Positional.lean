import PrologText.Text.Basic

/-!
# Positional notation

Digits of natural numbers in a base, the value of a list of digits, and decimal text of integers.
-/

namespace PrologText.Positional

/-- Puts the digits of `n` before `tail`, most significant first. -/
def digitsBefore (base : Nat) (tail : List Nat) (n : Nat) : List Nat :=
  if n < base ∨ base ≤ 1 then n :: tail
  else digitsBefore base (n % base :: tail) (n / base)
termination_by n
decreasing_by exact Nat.div_lt_self (by omega) (by omega)

/-- The digits of `n`, most significant first; zero has one digit. -/
def digits (base n : Nat) : List Nat :=
  digitsBefore base [] n

/-- The number a list of digits stands for, most significant first. -/
def value (base : Nat) (ds : List Nat) : Nat :=
  ds.foldl (fun v d => v * base + d) 0

/-- The character of a digit below 36. -/
def digitChar (d : Nat) : Char :=
  if d < 10 then Char.ofNat ('0'.toNat + d) else Char.ofNat ('a'.toNat + (d - 10))

/-- The digit a character stands for. Letters follow the decimal digits; up to base 36 their case
does not matter, beyond it capital letters come after small ones. -/
def digitValue? (base : Nat) (c : Char) : Option Nat :=
  let d :=
    if '0' ≤ c ∧ c ≤ '9' then some (c.toNat - '0'.toNat)
    else if 'a' ≤ c ∧ c ≤ 'z' then some (c.toNat - 'a'.toNat + 10)
    else if 'A' ≤ c ∧ c ≤ 'Z' then
      some (c.toNat - 'A'.toNat + (if base ≤ 36 then 10 else 36))
    else none
  d.filter (· < base)

/-- The text of `n` in a base up to 36. -/
def text (base n : Nat) : Text :=
  (digits base n).map fun d => .char (digitChar d)

def decimal (n : Nat) : Text :=
  text 10 n

/-- Decimal text of an integer, with a minus sign if it is negative. -/
def integer (n : Int) : Text :=
  if n < 0 then .char '-' :: decimal n.natAbs else decimal n.natAbs

/-- Pads a text with zeros in front to at least `width` glyphs. -/
def padded (width : Nat) (t : Text) : Text :=
  List.replicate (width - t.length) (.char '0') ++ t

end PrologText.Positional
