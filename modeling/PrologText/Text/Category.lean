/-!
# General categories

The general category of a character, as far as the reader tells categories apart. Every character
class is a function of the category, so that classes of different categories are disjoint.
-/

namespace PrologText

/-- A general category, or a group of them. -/
inductive Category where
  /-- Upper-case letters. -/
  | upper
  /-- Lower-case letters. -/
  | lower
  /-- Letters that are neither: title case, modifier letters and letters without case. -/
  | letter
  | mark
  /-- Decimal digits. -/
  | digit
  /-- Numbers that are no decimal digits. -/
  | number
  | punctuation
  | symbol
  | separator
  | control
  /-- Format characters, private use and unassigned code points. -/
  | other
deriving DecidableEq, Inhabited

namespace Category

/-- The category of an ASCII character. -/
def ofAscii (c : Char) : Category :=
  if c.isUpper then .upper
  else if c.isLower then .lower
  else if c.isDigit then .digit
  else if c = ' ' then .separator
  else if c.toNat < 0x20 ∨ c.toNat = 0x7F then .control
  else if c ∈ ['$', '+', '<', '=', '>', '^', '`', '|', '~'] then .symbol
  else .punctuation

end Category

end PrologText
