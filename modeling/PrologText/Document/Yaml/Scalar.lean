import PrologText.Document.Yaml.Value
import PrologText.Number.FloatText

/-!
# Plain scalars

What a scalar without quotes stands for. A scalar that looks like a number is one, even if its
digits make no sense: then it is zero. An integer out of range is the nearest one within.
-/

namespace PrologText.YamlScalar

/-! ## The look of a number -/

/-- What has been seen of a number so far. -/
structure Seen where
  point : Bool
  exponent : Bool

/-- The letters that are digits in base sixteen only. -/
def highDigits : List Char :=
  "abcdefABCDEF".toList

/-- The signs and letters that a number may have at some of its places. -/
structure Look where
  /-- The place of the letter of a base: right after the first digit. -/
  letterAt : Nat
  /-- Whether the base is sixteen. -/
  hexadecimal : Bool

namespace Look

def ofText : Text → Look
  | .char '-' :: .char '0' :: .char 'x' :: t => ⟨2, !t.isEmpty⟩
  | .char '-' :: _ => ⟨2, false⟩
  | .char '0' :: .char 'x' :: t => ⟨1, !t.isEmpty⟩
  | _ => ⟨1, false⟩

/-- Takes the character at place `i` of a number, if it may stand there. A second point may not, and
an exponent comes after a point. -/
def take? (l : Look) (seen : Seen) (i : Nat) (c : Char) : Option Seen :=
  if CharClass.isDecimal c || c = '_' then some seen
  else if c = 'x' || c = 'o' then if i = l.letterAt then some seen else none
  else if highDigits.contains c then
    if l.hexadecimal || c = 'b' && i = l.letterAt then some seen
    else if (c = 'e' || c = 'E') && seen.point then some { seen with exponent := true }
    else none
  else if c = '.' then if seen.point then none else some { seen with point := true }
  else if c = '+' || c = '-' then if i = 0 || seen.exponent then some seen else none
  else none

/-- Takes the characters from place `i` on. -/
def takeFrom? (l : Look) (seen : Seen) (i : Nat) : Text → Option Seen
  | [] => some seen
  | g :: t =>
    match l.take? seen i g.code with
    | some seen => takeFrom? l seen (i + 1) t
    | none => none

end Look

/-- What is seen of a text that looks like a number. -/
def look? (t : Text) : Option Seen :=
  let isSign : Bool := ["-", ".", "+"].any fun s => t = Text.ofString s
  if t.isEmpty || t.head? = some (.char '_') || isSign then none
  else (Look.ofText t).takeFrom? ⟨false, false⟩ 0 t

/-! ## The value of a number -/

/-- The greatest natural number. -/
def maxNatural : Nat := 18446744073709551615

/-- The greatest integer with a sign. -/
def maxInteger : Nat := 9223372036854775807

/-- The number of digits after `n`, at most the greatest natural number; zero if one is no digit of
the base. -/
def naturalFrom (base n : Nat) : Text → Nat
  | [] => n
  | g :: t =>
    match Positional.digitValue? base g.code with
    | none => 0
    | some d =>
      if maxNatural < n * base + d then maxNatural else naturalFrom base (n * base + d) t

/-- The base of an integer without its sign, and how many glyphs tell it. A zero in front makes it
octal, with or without a letter. -/
def base : Text → Nat × Nat
  | .char '0' :: .char 'b' :: _ => (2, 2)
  | .char '0' :: .char 'x' :: _ => (16, 2)
  | .char '0' :: .char 'o' :: _ => (8, 2)
  | .char '0' :: _ :: _ => (8, 1)
  | _ => (10, 0)

def withoutUnderscores (t : Text) : Text :=
  t.filter (· ≠ .char '_')

/-- The number of an integer without its sign. -/
def magnitude (t : Text) : Nat :=
  let (base, skip) := base t
  naturalFrom base 0 ((withoutUnderscores t).drop skip)

/-- The integer that a text looks like. A number with a plus sign is decimal. -/
def integer : Text → Int
  | .char '-' :: t => -(min (magnitude t) (maxInteger + 1) : Int)
  | .char '+' :: t => (min (naturalFrom 10 0 (withoutUnderscores t)) maxInteger : Int)
  | t => magnitude t

/-- Fractions have a point or an exponent. -/
def fractionLiteral (x : Binary64) : Text :=
  let t := x.render Binary64.plain
  if t.contains (.char '.') || t.contains (.char 'e') then t else t ++ ".0"

/-- The fraction that a text looks like. -/
def fraction (t : Text) : YamlValue :=
  match Binary64.parse (withoutUnderscores t) with
  | .ok x => .number (fractionLiteral x)
  | .error .malformed => .number (fractionLiteral (.zero false))
  | .error .outOfRange => .notFinite

/-- The number that a text looks like. -/
def number? (t : Text) : Option YamlValue :=
  (look? t).map fun seen =>
    if seen.point then fraction t else .number (Positional.integer (integer t))

/-! ## Scalars -/

/-- A scalar that is a word of the language. -/
def reserved? (t : Text) : Option YamlValue :=
  let isOneOf (words : List String) : Bool := words.any fun w => Text.ofString w = t
  if isOneOf ["~", "null", "Null", "NULL"] then some .null
  else if isOneOf ["true", "True", "TRUE"] then some (.bool true)
  else if isOneOf ["false", "False", "FALSE"] then some (.bool false)
  else if isOneOf [".inf", ".Inf", ".INF", "-.inf", "-.Inf", "-.INF", ".nan", ".NaN", ".NAN"] then
    some .notFinite
  else none

/-- The value of a scalar without quotes. -/
def value (t : Text) : YamlValue :=
  match reserved? t with
  | some x => x
  | none => (number? t).getD (.text t)

/-- Whether a scalar without quotes is text. -/
def isText (t : Text) : Bool :=
  (reserved? t).isNone && (look? t).isNone

end PrologText.YamlScalar
