import PrologText.Text.CategoryTable
import PrologText.Text.Basic

/-!
# Character classes

The classes of characters that tokens are made of. A stray byte is classified as the replacement
character, which is a symbol.
-/

namespace PrologText.CharClass

/-- White space: separators and the six blank control characters. -/
def isBlank (c : Char) : Bool :=
  Category.ofChar c = .separator ∨ (0x09 ≤ c.toNat ∧ c.toNat ≤ 0x0D) ∨ c.toNat = 0x85

def isUpper (c : Char) : Bool :=
  Category.ofChar c = .upper

def isLower (c : Char) : Bool :=
  Category.ofChar c = .lower

def isLetter (c : Char) : Bool :=
  Category.ofChar c ∈ [.upper, .lower, .letter]

def isDigit (c : Char) : Bool :=
  Category.ofChar c = .digit

def isControl (c : Char) : Bool :=
  Category.ofChar c = .control

/-- Letters, decimal digits and the underscore: what a name goes on with. -/
def isAlphanumeric (c : Char) : Bool :=
  c = '_' || isLetter c || isDigit c

/-- The ASCII characters that symbolic atoms are made of. -/
def asciiGraphic : List Char :=
  "#$&*+-./:<=>?@^~\\".toList

/-- The characters that symbolic atoms are made of: a fixed list in ASCII, symbols and punctuation
beyond it. -/
def isGraphic (c : Char) : Bool :=
  if c.toNat < 0x80 then c ∈ asciiGraphic
  else Category.ofChar c ∈ [.symbol, .punctuation]

/-- A character that shows: no control, format or unassigned one, and of the separators only the
space. -/
def isPrintable (c : Char) : Bool :=
  c = ' ' || Category.ofChar c ∉ [.separator, .control, .other]

/-- Whether a name can start with `c`. -/
def isNameStart (c : Char) : Bool :=
  isLetter c && !isUpper c

/-- Whether a variable can start with `c`. -/
def isVariableStart (c : Char) : Bool :=
  c = '_' || isUpper c

def isDecimal (c : Char) : Bool :=
  '0' ≤ c && c ≤ '9'

def isOctal (c : Char) : Bool :=
  '0' ≤ c && c ≤ '7'

def isBinary (c : Char) : Bool :=
  c = '0' || c = '1'

def isHexadecimal (c : Char) : Bool :=
  isDecimal c || ('a' ≤ c && c ≤ 'f') || ('A' ≤ c && c ≤ 'F')

end PrologText.CharClass

namespace PrologText.Text

/-- The text without the white space at both ends. -/
def trim (t : Text) : Text :=
  dropEndWhile (fun g => CharClass.isBlank g.code) (t.dropWhile fun g => CharClass.isBlank g.code)

end PrologText.Text
