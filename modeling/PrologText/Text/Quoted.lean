import PrologText.Text.CharClass
import PrologText.Number.Positional

/-!
# Quoted text

Two ways to put a text between quotes. `Text.quoted` writes a literal that the reader takes in
again; `Text.shown` and `CharClass.shown` show a text or a character in a message.
-/

namespace PrologText

/-- The letter that stands for a control character after a backslash. -/
def controlLetter? (c : Char) : Option Char :=
  match c.toNat with
  | 0x07 => some 'a'
  | 0x08 => some 'b'
  | 0x09 => some 't'
  | 0x0A => some 'n'
  | 0x0B => some 'v'
  | 0x0C => some 'f'
  | 0x0D => some 'r'
  | _ => none

namespace Text

/-- A character inside a literal between `quote`s: the quote and the backslash get a backslash,
control characters an escape sequence. -/
def quotedChar (quote c : Char) : Text :=
  if c = quote ∨ c = '\\' then [.char '\\', .char c]
  else
    match controlLetter? c with
    | some l => [.char '\\', .char l]
    | none =>
      if c = '\x00' then "\\0\\"
      else if CharClass.isControl c then
        "\\x" ++ Positional.text 16 c.toNat ++ "\\"
      else [.char c]

/-- A text as a literal between `quote`s. Stray bytes are written as the replacement character. -/
def quoted (quote : Char) (t : Text) : Text :=
  .char quote :: (t.flatMap fun g => quotedChar quote g.code) ++ [.char quote]

/-- A character inside shown text. -/
def shownChar (quote c : Char) : Text :=
  if c = quote ∨ c = '\\' then [.char '\\', .char c]
  else if CharClass.isPrintable c then [.char c]
  else
    match controlLetter? c with
    | some l => [.char '\\', .char l]
    | none =>
      let hex := Positional.text 16 c.toNat
      if c.toNat < 0x20 ∨ c.toNat = 0x7F then "\\x" ++ Positional.padded 2 hex
      else if c.toNat < 0x10000 then "\\u" ++ Positional.padded 4 hex
      else "\\U" ++ Positional.padded 8 hex

/-- A text between double quotes for a message: characters that do not show and stray bytes are
written as escape sequences. -/
def shown (t : Text) : Text :=
  let glyph : Glyph → Text
    | .char c => shownChar '"' c
    | .stray b => "\\x" ++ Positional.padded 2 (Positional.text 16 b.toNat)
  .char '"' :: t.flatMap glyph ++ [.char '"']

end Text

/-- A character between single quotes for a message. -/
def CharClass.shown (c : Char) : Text :=
  .char '\'' :: Text.shownChar '\'' c ++ [.char '\'']

end PrologText
