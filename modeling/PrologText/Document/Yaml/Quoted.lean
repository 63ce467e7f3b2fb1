import PrologText.Number.Positional

/-!
# Quoted scalars

The text between single or double quotes. A line break counts as a space, and the spaces that the
next line starts with are dropped.
-/

namespace PrologText.YamlQuoted

def isLineBreak (g : Glyph) : Bool :=
  g = .char '\n' || g = .char '\r'

/-- A quoted scalar: its text, and how many glyphs it takes up after its first quote. -/
structure Content where
  text : Text
  length : Nat

/-- What has been read of a quoted scalar: its text in reverse, how many glyphs that took up, and
whether only spaces stand before the next glyph in its line. -/
structure Progress where
  reversed : Text
  length : Nat
  lineStart : Bool

namespace Progress

def start : Progress :=
  ⟨[], 0, false⟩

/-- Adds a piece of text that takes up `n` glyphs. -/
def add (p : Progress) (t : Text) (n : Nat) : Progress :=
  ⟨t.reverse ++ p.reversed, p.length + n, false⟩

/-- Adds a glyph that has no meaning of its own. -/
def addGlyph (p : Progress) (g : Glyph) : Progress :=
  if isLineBreak g then ⟨.char ' ' :: p.reversed, p.length + 1, true⟩
  else if g = .char ' ' && p.lineStart then { p with length := p.length + 1 }
  else p.add [g] 1

/-- The scalar that ends with the next glyph. -/
def finish (p : Progress) : Content :=
  ⟨p.reversed.reverse, p.length + 1⟩

end Progress

/-- The scalar between single quotes; a quote inside is written twice. -/
def single? (p : Progress) : Text → Option Content
  | [] => none
  | .char '\'' :: .char '\'' :: t =>
    single? { p with reversed := .char '\'' :: p.reversed, length := p.length + 2 } t
  | .char '\'' :: _ => some p.finish
  | g :: t => single? (p.addGlyph g) t

/-! ## Escape sequences -/

/-- The text that a letter after a backslash stands for. The letter of a character beyond ASCII
stands for the bytes of its encoding, each as a character. Any other letter leaves the backslash as
it is. -/
def letterText? : Char → Option Text
  | 'b' => some [.char '\x08']
  | 'e' => some [.char '\x1b']
  | 'f' => some [.char '\x0c']
  | 'n' => some [.char '\n']
  | 'v' => some [.char '\x0b']
  | '"' => some [.char '"']
  | '\\' => some [.char '\\']
  | 'N' => some [.char '\u00c2', .char '\u0085']
  | '_' => some [.char '\u00c2', .char '\u00a0']
  | 'L' => some [.char '\u00e2', .char '\u0080', .char '\u00a8']
  | 'P' => some [.char '\u00e2', .char '\u0080', .char '\u00a9']
  | _ => none

/-- The number of digits after a letter that introduces the number of a character. -/
def digitCount? : Char → Option Nat
  | 'x' => some 2
  | 'u' => some 4
  | 'U' => some 8
  | _ => none

/-- The value of a hexadecimal digit; any other character counts by its distance from the digit
zero. -/
def digit (c : Char) : Int :=
  if 'A' ≤ c ∧ c ≤ 'F' then (c.toNat : Int) - 'A'.toNat + 10
  else if 'a' ≤ c ∧ c ≤ 'f' then (c.toNat : Int) - 'a'.toNat + 10
  else (c.toNat : Int) - '0'.toNat

/-- The character with a number, of which the lower 32 bits count. -/
def character (n : Int) : Char :=
  let code := Int.bmod n 4294967296
  if 0 ≤ code ∧ code.toNat.isValidChar then Char.ofNat code.toNat else Glyph.replacement

/-- An escape sequence, for the text after its backslash. -/
inductive Escape where
  /-- It stands for a text and takes up `length` glyphs after the backslash. -/
  | text (t : Text) (length : Nat)
  /-- The backslash stands for itself. -/
  | none
  /-- The text ends among its digits. -/
  | cut

def Escape.ofText : Text → Escape
  | [] => .none
  | g :: t =>
    match letterText? g.code, digitCount? g.code with
    | some s, _ => .text s 1
    | Option.none, some n =>
      if t.length < n then .cut
      else
        let code := (t.take n).foldl (fun v d => v * 16 + digit d.code) (0 : Int)
        .text [.char (character code)] (n + 1)
    | Option.none, Option.none => .none

/-- The scalar between double quotes; `skip` glyphs belong to an escape sequence. -/
def double? (p : Progress) : Nat → Text → Option Content
  | _, [] => none
  | skip + 1, _ :: t => double? p skip t
  | 0, g :: t =>
    if g = .char '"' then some p.finish
    else if g = .char '\\' then
      match Escape.ofText t with
      | .text s n => double? (p.add s (n + 1)) n t
      | .none => double? (p.add [g] 1) 0 t
      | .cut => none
    else double? (p.addGlyph g) 0 t

end PrologText.YamlQuoted
