import PrologText.Number.Shortest

/-!
# Text of floating point numbers

`Binary64.render` writes a number with the fewest digits that identify it, in a given notation.
`Binary64.parse` reads a number: decimal or hexadecimal, or one of the special values by name.
-/

namespace PrologText

/-- How the digits of a number are laid out. A number whose leading digit has an exponent from
`plainFrom` up to, but not including, `plainBelow` is written positionally, any other with an
exponent, which has a sign and at least two digits. -/
structure Notation where
  plainFrom : Int
  plainBelow : Int
  /-- Whether whole digits are followed by a point and a zero. -/
  pointZero : Bool
  nan : Text
  infinite : Text
  negativeInfinite : Text

namespace Notation

/-- Digits with a point after the first `whole` of them. -/
def pointed (n : Notation) (whole : Nat) (digits : Text) : Text :=
  match digits.drop whole with
  | [] => digits.take whole ++ (if n.pointZero then ".0" else "" : String)
  | fraction => digits.take whole ++ .char '.' :: fraction

/-- An exponent with its sign and at least two digits. -/
def exponent (e : Int) : Text :=
  .char 'e' :: (if e < 0 then .char '-' else .char '+')
    :: Positional.padded 2 (Positional.decimal e.natAbs)

/-- Lays out a decimal that has no zeros at its end. -/
def layout (n : Notation) (d : Decimal) : Text :=
  let digits := Positional.decimal d.digits
  let e := d.magnitude
  if n.plainFrom ≤ e ∧ e < n.plainBelow then
    if e < 0 then
      n.pointed 1 (List.replicate (-e).toNat (.char '0') ++ digits)
    else
      let whole := e.toNat + 1
      n.pointed whole (digits ++ List.replicate (whole - digits.length) (.char '0'))
  else n.pointed 1 digits ++ exponent e

end Notation

namespace Binary64

/-- Writes a number in a notation. -/
def render (n : Notation) (x : Binary64) : Text :=
  if x.isNaN then n.nan
  else if x.isInfinite then
    if x.isNegative then n.negativeInfinite else n.infinite
  else
    let sign : Text := if x.isNegative then [.char '-'] else []
    if x.exponentField = 0 ∧ x.fraction = 0 then sign ++ n.pointed 1 [.char '0']
    else sign ++ n.layout x.shortest

/-- The plain notation: positional from a ten-thousandth up to a million. -/
def plain : Notation where
  plainFrom := -4
  plainBelow := 6
  pointZero := false
  nan := "NaN"
  infinite := "+Inf"
  negativeInfinite := "-Inf"

/-! ## Reading -/

/-- Why a text is no number. -/
inductive Unreadable where
  | malformed
  | outOfRange
deriving DecidableEq

/-- The digits at the start of a text, and the rest of it. -/
def leadingDigits (base : Nat) (t : Text) : List Nat × Text :=
  let isDigit (g : Glyph) : Bool := (Positional.digitValue? base g.code).isSome
  ((t.takeWhile isDigit).filterMap fun g => Positional.digitValue? base g.code, t.dropWhile isDigit)

/-- The digits of an exponent. Beyond five digits it stays as it is: it is out of every range. -/
def exponentValue (digits : List Nat) : Nat :=
  digits.foldl (fun e d => if e < 10000 then e * 10 + d else e) 0

/-- Reads an exponent after one of the letters `marks`: the exponent and the rest; `none` if the
letter stands without digits. A text that does not start with such a letter has exponent zero. -/
def exponent? (marks : List Char) (t : Text) : Option (Int × Text) :=
  match t with
  | .char c :: rest =>
    if c ∈ marks then
      let (negative, rest) : Bool × Text :=
        match rest with
        | .char '+' :: rest => (false, rest)
        | .char '-' :: rest => (true, rest)
        | _ => (false, rest)
      match leadingDigits 10 rest with
      | ([], _) => none
      | (digits, rest) =>
        let e : Int := exponentValue digits
        some (if negative then -e else e, rest)
    else some (0, t)
  | _ => some (0, t)

/-- A number without its sign, `digits * radix ^ exponent`, read as digits with an optional point
and an optional exponent. -/
structure Scientific where
  digits : Nat
  radix : Nat
  exponent : Int

/-- Digits in a base with an optional point among them: all digits, how many stand after the point,
and the rest of the text; `none` if there is no digit. -/
def mantissa? (base : Nat) (t : Text) : Option (List Nat × Nat × Text) :=
  let (whole, rest) := leadingDigits base t
  let (fraction, rest) : List Nat × Text :=
    match rest with
    | .char '.' :: rest => leadingDigits base rest
    | _ => ([], rest)
  if whole.isEmpty ∧ fraction.isEmpty then none
  else some (whole ++ fraction, fraction.length, rest)

/-- Reads a whole text as a number without its sign. A hexadecimal number needs an exponent, which
counts powers of two. -/
def scientific? (t : Text) : Option Scientific :=
  match t with
  | .char '0' :: .char x :: g :: rest =>
    if x = 'x' ∨ x = 'X' then do
      let (digits, places, rest) ← mantissa? 16 (g :: rest)
      if rest.isEmpty then none
      match exponent? ['p', 'P'] rest with
      | some (e, []) => some ⟨Positional.value 16 digits, 2, e - 4 * places⟩
      | _ => none
    else decimal? t
  | _ => decimal? t
where
  decimal? (t : Text) : Option Scientific := do
    let (digits, places, rest) ← mantissa? 10 t
    match exponent? ['e', 'E'] rest with
    | some (e, []) => some ⟨Positional.value 10 digits, 10, e - places⟩
    | _ => none

/-- The number nearest to one in scientific notation. -/
def Scientific.round? (negative : Bool) (s : Scientific) : Option Binary64 :=
  if s.digits = 0 then some (zero negative)
  else
    ofRatio? negative (s.digits * Nat.pow s.radix s.exponent.toNat)
      (Nat.pow s.radix (-s.exponent).toNat)

/-- The special value a text names, whatever the case of its letters. -/
def special? (t : Text) : Option Binary64 :=
  let lower := t.map fun g => g.code.toLower
  let named (names : List String) (cs : List Char) : Bool := names.any (·.toList = cs)
  match lower with
  | '+' :: cs => if named ["inf", "infinity"] cs then some (infinity false) else none
  | '-' :: cs => if named ["inf", "infinity"] cs then some (infinity true) else none
  | cs =>
    if named ["inf", "infinity"] cs then some (infinity false)
    else if named ["nan"] cs then some nan
    else none

/-- Reads a whole text as a number. -/
def parse (t : Text) : Except Unreadable Binary64 :=
  match special? t with
  | some x => .ok x
  | none =>
    let (negative, rest) : Bool × Text :=
      match t with
      | .char '+' :: rest => (false, rest)
      | .char '-' :: rest => (true, rest)
      | _ => (false, t)
    match scientific? rest with
    | none => .error .malformed
    | some s =>
      match s.round? negative with
      | none => .error .outOfRange
      | some x => .ok x

end Binary64

end PrologText
