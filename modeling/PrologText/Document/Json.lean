import PrologText.Document.Basic
import PrologText.Number.FloatText

/-!
# JSON documents

Reading a document from JSON text. Text after the first value is not looked at.
-/

namespace PrologText.Document

namespace JsonText

def isBlank (g : Glyph) : Bool :=
  g = .char ' ' || g = .char '\n' || g = .char '\t' || g = .char '\r'

def skipBlank (t : Text) : Text :=
  t.dropWhile isBlank

/-- What follows a given word at the start of a text. -/
def afterWord? (word : String) (t : Text) : Option Text :=
  if t.startsWith word then some (t.drop word.length) else none

/-! ## Strings -/

/-- The code that hexadecimal digits stand for; what is no digit counts as zero. -/
def hexCode (t : Text) : Nat :=
  Positional.value 16 (t.map fun g => (Positional.digitValue? 16 g.code).getD 0)

/-- The character of a code, or the replacement character if there is none. -/
def charOfCode (n : Nat) : Char :=
  if n.isValidChar then Char.ofNat n else Glyph.replacement

/-- The character of a pair of surrogate codes. -/
def surrogatePair? (high low : Nat) : Option Char :=
  if 0xD800 ≤ high ∧ high < 0xDC00 ∧ 0xDC00 ≤ low ∧ low < 0xE000 then
    some (Char.ofNat (0x10000 + (high - 0xD800) * 0x400 + (low - 0xDC00)))
  else none

/-- The character that a code of four digits stands for, alone or together with a second code, and
the length of what gives it, for the text from the first digit on. -/
def codedChar? (t : Text) : Option (Char × Nat) :=
  if t.length < 4 then none
  else
    let first := hexCode (t.take 4)
    let next : Text := t.drop 4
    let pair :=
      if next.startsWith "\\u" ∧ 6 ≤ next.length then
        surrogatePair? first (hexCode ((next.drop 2).take 4))
      else none
    match pair with
    | some c => some (c, 10)
    | none => some (charOfCode first, 4)

/-- The character of an escape sequence and the length of the sequence, for the text after the
backslash. -/
def escape? : Text → Option (Char × Nat)
  | .char '"' :: _ => some ('"', 1)
  | .char '\\' :: _ => some ('\\', 1)
  | .char '/' :: _ => some ('/', 1)
  | .char 'b' :: _ => some ('\x08', 1)
  | .char 'f' :: _ => some ('\x0c', 1)
  | .char 'n' :: _ => some ('\n', 1)
  | .char 'r' :: _ => some ('\r', 1)
  | .char 't' :: _ => some ('\t', 1)
  | .char 'u' :: t => (codedChar? t).map fun (c, n) => (c, n + 1)
  | _ => none

/-- The content of a string and the text after its closing quote; `seen` is the content before the
text in reverse, and `skip` glyphs are left out that belong to an escape sequence. -/
def stringFrom (seen : Text) : Nat → Text → Option (Text × Text)
  | _, [] => none
  | skip + 1, _ :: t => stringFrom seen skip t
  | 0, g :: t =>
    if g = .char '"' then some (seen.reverse, t)
    else if g = .char '\\' then
      match escape? t with
      | none => none
      | some (c, n) => stringFrom (.char c :: seen) n t
    else stringFrom (g :: seen) 0 t

/-! ## Numbers -/

def isNumberStart (g : Glyph) : Bool :=
  match g with
  | .char c => c = '-' || c.isDigit
  | .stray _ => false

def isNumberPart (g : Glyph) : Bool :=
  match g with
  | .char c => c.isDigit || ['.', 'e', 'E', '+', '-'].contains c
  | .stray _ => false

/-- The number at the start of a text. -/
def number? (t : Text) : Option (Document × Text) :=
  let literal : Text := t.takeWhile isNumberPart
  match Binary64.parse literal with
  | .ok _ => some (.number literal, t.drop literal.length)
  | .error _ => none

/-! ## Values -/

mutual

/-- The value at the start of a text and the text after it. Each step inwards takes a glyph, so that
as many steps as there are glyphs are enough. -/
def value? : Nat → Text → Option (Document × Text)
  | 0, _ => none
  | steps + 1, t =>
    match skipBlank t with
    | .char '\x7b' :: t =>
      match skipBlank t with
      | .char '\x7d' :: t => some (.map [], t)
      | t => (members? steps [] t).map fun (ms, t) => (.map ms, t)
    | .char '[' :: t =>
      match skipBlank t with
      | .char ']' :: t => some (.list [], t)
      | t => (items? steps [] t).map fun (xs, t) => (.list xs, t)
    | .char '"' :: t => (stringFrom [] 0 t).map fun (s, t) => (.text s, t)
    | t =>
      match afterWord? "true" t, afterWord? "false" t, afterWord? "null" t, t with
      | some t, _, _, _ => some (.bool true, t)
      | _, some t, _, _ => some (.bool false, t)
      | _, _, some t, _ => some (.null, t)
      | _, _, _, g :: rest => if isNumberStart g then number? (g :: rest) else none
      | _, _, _, [] => none

/-- The items of an array up to its end; `seen` are the items before the text in reverse. -/
def items? (steps : Nat) (seen : List Document) (t : Text) : Option (List Document × Text) :=
  match steps with
  | 0 => none
  | steps + 1 =>
    match value? steps t with
    | none => none
    | some (x, t) =>
      match skipBlank t with
      | .char ',' :: t => items? steps (x :: seen) t
      | .char ']' :: t => some ((x :: seen).reverse, t)
      | _ => none

/-- The members of an object up to its end; `seen` are the members before the text in reverse. The
name of a member can be missing, which is written as `null`. -/
def members? (steps : Nat) (seen : List (Text × Document)) (t : Text) :
    Option (List (Text × Document) × Text) :=
  match steps with
  | 0 => none
  | steps + 1 =>
    let name :=
      match skipBlank t with
      | .char '"' :: t => stringFrom [] 0 t
      | t => (afterWord? "null" t).map fun t => ([], t)
    match name with
    | none => none
    | some (name, t) =>
      match skipBlank t with
      | .char ':' :: t =>
        match value? steps t with
        | none => none
        | some (x, t) =>
          match skipBlank t with
          | .char ',' :: t => members? steps ((name, x) :: seen) t
          | .char '\x7d' :: t => some (((name, x) :: seen).reverse, t)
          | _ => none
      | _ => none

end

/-- A text without the comma or colon it may start with. -/
def skipSeparator (t : Text) : Text :=
  match skipBlank t with
  | .char ',' :: t => t
  | .char ':' :: t => t
  | t => t

end JsonText

/-- The document at the start of a JSON text. -/
def ofJson? (t : Text) : Option Document :=
  let t := JsonText.skipSeparator t
  (JsonText.value? (t.length + 1) t).map (·.1)

end PrologText.Document
