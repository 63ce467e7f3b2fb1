import PrologText.Json.Basic
import PrologText.Number.FloatText

/-!
# JSON text

Writing a JSON value over several lines. The members of an object come in the order of their names,
each on a line of its own, and so do the items of an array.
-/

namespace PrologText

namespace Json

/-- How JSON text is laid out. -/
structure Style where
  /-- What a line starts with for every array and object around it. -/
  indent : Text
  /-- Whether the characters that have a meaning in HTML are written as escape sequences. -/
  escapesMarkup : Bool

/-! ## Strings -/

/-- The escape sequence that gives the code of a character in four digits. -/
def codeEscape (n : Nat) : Text :=
  "\\u" ++ Positional.padded 4 (Positional.text 16 n)

/-- Whether a character has a meaning in HTML. -/
def isMarkup (c : Char) : Bool :=
  c = '<' || c = '>' || c = '&'

/-- A character inside a string. -/
def escapedChar (s : Style) (c : Char) : Text :=
  if c = '"' then "\\\""
  else if c = '\\' then "\\\\"
  else if c = '\n' then "\\n"
  else if c = '\t' then "\\t"
  else if c = '\r' then "\\r"
  else if c < ' ' ∨ c = '\u2028' ∨ c = '\u2029' ∨ s.escapesMarkup ∧ isMarkup c then
    codeEscape c.toNat
  else [.char c]

/-- A glyph inside a string; a byte that belongs to no character is written as the code of the
replacement character. -/
def escapedGlyph (s : Style) : Glyph → Text
  | .char c => escapedChar s c
  | .stray _ => codeEscape Glyph.replacement.toNat

/-- A string with its quotes. -/
def quotedText (s : Style) (t : Text) : Text :=
  "\"" ++ t.flatMap (escapedGlyph s) ++ "\""

/-! ## Values -/

/-- Floating point numbers are written positionally from a millionth up to 10^21. -/
def floatNotation : Notation :=
  { Binary64.plain with
    plainFrom := -6
    plainBelow := 21 }

mutual

/-- A value with the members of all objects in the order of their names. -/
def sorted : Json → Json
  | array items => array (sortedItems items)
  | object members => object ((sortedMembers members).mergeSort fun a b => a.1 ≤ b.1)
  | scalar => scalar

def sortedItems : List Json → List Json
  | [] => []
  | x :: xs => sorted x :: sortedItems xs

def sortedMembers : List (String × Json) → List (String × Json)
  | [] => []
  | (name, x) :: xs => (name, sorted x) :: sortedMembers xs

end

/-- Puts a text behind `done`, which is in reverse. -/
def behind (done t : Text) : Text :=
  t.reverseAux done

/-- The start of a line inside `depth` arrays and objects. -/
def lineStart (s : Style) (depth : Nat) : Text :=
  .char '\n' :: (List.replicate depth s.indent).flatten

mutual

/-- Puts the text of a value inside `depth` arrays and objects behind `done`, all in reverse. -/
def renderBehind (s : Style) (depth : Nat) (done : Text) : Json → Text
  | integer n => behind done (Positional.integer n)
  | float x => behind done (x.render floatNotation)
  | text t => behind done (quotedText s t)
  | array [] => behind done "[]"
  | array (x :: xs) =>
    let first := renderBehind s (depth + 1) (behind done ("[" ++ lineStart s (depth + 1))) x
    behind (renderItems s (depth + 1) first xs) (lineStart s depth ++ "]")
  | object [] => behind done "\x7b\x7d"
  | object ((name, x) :: xs) =>
    let key := "\x7b" ++ lineStart s (depth + 1) ++ quotedText s name ++ ": "
    let first := renderBehind s (depth + 1) (behind done key) x
    behind (renderMembers s (depth + 1) first xs) (lineStart s depth ++ "\x7d")

/-- The items of an array after its first. -/
def renderItems (s : Style) (depth : Nat) (done : Text) : List Json → Text
  | [] => done
  | x :: xs =>
    renderItems s depth (renderBehind s depth (behind done ("," ++ lineStart s depth)) x) xs

/-- The members of an object after its first. -/
def renderMembers (s : Style) (depth : Nat) (done : Text) : List (String × Json) → Text
  | [] => done
  | (name, x) :: xs =>
    let key := "," ++ lineStart s depth ++ quotedText s name ++ ": "
    renderMembers s depth (renderBehind s depth (behind done key) x) xs

end

/-- The text of a value. -/
def render (s : Style) (j : Json) : Text :=
  (renderBehind s 0 [] j.sorted).reverse

end Json

end PrologText
