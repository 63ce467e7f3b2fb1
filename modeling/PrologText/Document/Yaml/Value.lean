import PrologText.Document.Basic
import PrologText.Text.CharClass

/-!
# YAML values

The value of a YAML text. It becomes a document by being written as JSON, which has no infinite
numbers, and where some characters cannot be written: `toDocument?` tells.
-/

namespace PrologText

/-- A value as YAML has it. -/
inductive YamlValue where
  | null
  | bool (value : Bool)
  | number (literal : Text)
  /-- An infinite number, or none at all. -/
  | notFinite
  | text (value : Text)
  | list (items : List YamlValue)
  | map (members : List (Text × YamlValue))
deriving Inhabited

namespace YamlValue

def isNull : YamlValue → Bool
  | null => true
  | _ => false

/-- Whether a character can be written in a quoted text. A character that does not show is written
by its number, in four digits; control characters have to have a letter. -/
def isWritable (c : Char) : Bool :=
  if c.toNat < 0x20 ∨ c = '\x7f' then ['\x08', '\t', '\n', '\x0c', '\r'].contains c
  else c.toNat < 0x10000 || CharClass.isPrintable c

/-- Whether a text can be written between quotes. -/
def isWritableText (t : Text) : Bool :=
  t.all fun g => isWritable g.code

mutual

/-- The document of a value, if the value can be written. -/
def toDocument? : YamlValue → Option Document
  | null => some .null
  | bool b => some (.bool b)
  | number literal => some (.number literal)
  | notFinite => none
  | text t => if isWritableText t then some (.text t) else none
  | list items => (itemsToDocument? items).map .list
  | map members => (membersToDocument? members).map .map

def itemsToDocument? : List YamlValue → Option (List Document)
  | [] => some []
  | x :: xs =>
    match toDocument? x, itemsToDocument? xs with
    | some d, some ds => some (d :: ds)
    | _, _ => none

def membersToDocument? : List (Text × YamlValue) → Option (List (Text × Document))
  | [] => some []
  | (key, x) :: xs =>
    match isWritableText key, toDocument? x, membersToDocument? xs with
    | true, some d, some ds => some ((key, d) :: ds)
    | _, _, _ => none

end

end YamlValue

end PrologText
