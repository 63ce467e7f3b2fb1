import PrologText.Number.Positional

/-!
# Request targets

The path of a request target and the parameters in its query, with percent signs decoded.
-/

namespace PrologText

/-- The target of a request. -/
structure Target where
  path : Text
  query : Text

namespace Target

/-- The bytes of a text in which a percent sign and two hexadecimal digits stand for a byte; `plus`
tells whether a plus sign stands for a space. -/
def percentDecode? (plus : Bool) : Text → Option (List UInt8)
  | [] => some []
  | .char '%' :: a :: b :: t =>
    match Positional.digitValue? 16 a.code, Positional.digitValue? 16 b.code with
    | some high, some low => (percentDecode? plus t).map (UInt8.ofNat (16 * high + low) :: ·)
    | _, _ => none
  | .char '%' :: _ => none
  | g :: t =>
    let bytes := if plus && g = .char '+' then [' '.toUInt8] else g.bytes
    (percentDecode? plus t).map (bytes ++ ·)

/-- Splits a text at the first glyph `g`, which is dropped. -/
def cut (g : Char) (t : Text) : Text × Text :=
  let before := t.takeWhile (· ≠ .char g)
  (before, t.drop (before.length + 1))

/-- The part of a target after a scheme and a host. -/
def afterHost (t : Text) : Text :=
  let scheme := t.takeWhile fun g => g ≠ .char ':' ∧ g ≠ .char '/' ∧ g ≠ .char '?'
  let rest : Text := t.drop scheme.length
  if !scheme.isEmpty && rest.startsWith "://" then
    (rest.drop 3).dropWhile fun g => g ≠ .char '/' ∧ g ≠ .char '?'
  else t

/-- The target of a text; `none` if the path cannot be decoded. -/
def ofText? (t : Text) : Option Target :=
  let (path, query) := cut '?' (afterHost t)
  (percentDecode? false path).map fun bytes => ⟨Text.ofBytes bytes, query⟩

/-- A parameter of a query: its name and its value. -/
def parameter? (t : Text) : Option (Text × Text) :=
  if t.isEmpty ∨ t.contains (.char ';') then none
  else
    let (name, value) := cut '=' t
    match percentDecode? true name, percentDecode? true value with
    | some name, some value => some (Text.ofBytes name, Text.ofBytes value)
    | _, _ => none

/-- The first value of a parameter. -/
def parameter (t : Target) (name : String) : Option Text :=
  ((t.query.splitOn (.char '&')).filterMap parameter?).lookup (Text.ofString name)

end Target

end PrologText
