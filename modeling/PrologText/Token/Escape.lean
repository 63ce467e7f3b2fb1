import PrologText.SyntaxError

/-!
# Escape sequences

What a backslash in quoted text and the glyphs after it stand for.
-/

namespace PrologText

/-- An escape sequence; its length counts the glyphs after the backslash. -/
inductive Escape where
  /-- A line break, which stands for nothing. -/
  | lineBreak (length : Nat)
  | character (c : Char) (length : Nat)
  | faulty (cause : SyntaxCause)

namespace Escape

/-- The control character that a letter stands for. -/
def control? : Char → Option Char
  | 'a' => some '\x07'
  | 'b' => some '\x08'
  | 't' => some '\x09'
  | 'n' => some '\x0A'
  | 'v' => some '\x0B'
  | 'f' => some '\x0C'
  | 'r' => some '\x0D'
  | _ => none

/-- A character given by its number: digits up to another backslash. `lead` is what stands between
the first backslash and the digits. -/
def numeric (base : Nat) (isDigit : Char → Bool) (lead t : Text) : Escape :=
  let digits := t.takeWhile fun g => isDigit g.code
  let sequence : Text := .char '\\' :: lead ++ digits
  if digits.isEmpty ∨ (t.drop digits.length).head? ≠ some (.char '\\') then
    .faulty (.malformedEscape sequence)
  else
    let n := Positional.value base
      (digits.filterMap fun g => Positional.digitValue? base g.code)
    if n.isValidChar then .character (Char.ofNat n) (lead.length + digits.length + 1)
    else .faulty (.invalidEscape (sequence ++ [.char '\\']))

/-- The escape sequence that goes on with `t` after its backslash. -/
def ofText : Text → Escape
  | [] => .faulty .danglingEscape
  | .char '\n' :: _ => .lineBreak 1
  | .char '\r' :: .char '\n' :: _ => .lineBreak 2
  | .char 'x' :: t => numeric 16 CharClass.isHexadecimal [.char 'x'] t
  | g :: t =>
    let c := g.code
    if c ∈ ['\\', '\'', '"', '\x60'] then .character c 1
    else
      match control? c with
      | some control => .character control 1
      | none =>
        if CharClass.isOctal c then numeric 8 CharClass.isOctal [] (g :: t)
        else .faulty (.undefinedEscape (Char.ofNat (g.bytes.headD 0).toNat))

end Escape

end PrologText
