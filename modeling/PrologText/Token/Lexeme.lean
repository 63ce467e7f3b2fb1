import PrologText.Token.Basic

/-!
# Lexemes

Which kind of token a line goes on with, and how long it is. Everything here looks at the rest of
one line only.
-/

namespace PrologText

/-- The start of a token. -/
inductive Lexeme where
  /-- A token of `length` glyphs; its text leaves out the first `lead` of them. -/
  | plain (kind : TokenKind) (lead length : Nat)
  /-- An atom of `length` glyphs. -/
  | name (length : Nat)
  /-- A single full stop: the end of a sentence or an atom, as what follows decides. -/
  | dot
  /-- Quoted text up to the next such character. -/
  | quotedText (quote : Char)
  /-- A character code after a zero and a quote. -/
  | charCode
  | unknown (c : Char)

namespace Lexeme

/-- The number of glyphs at the start that satisfy `p`. -/
def run (p : Char → Bool) (t : Text) : Nat :=
  (t.takeWhile fun g => p g.code).length

/-- Whether a text starts with the opening of a block comment. -/
def opensComment : Text → Bool
  | .char '/' :: .char '*' :: _ => true
  | _ => false

/-- `n` more than the number of symbol characters at the start, up to a block comment. -/
def graphicRunFrom (n : Nat) : Text → Nat
  | [] => n
  | g :: t =>
    if CharClass.isGraphic g.code && !opensComment (g :: t) then graphicRunFrom (n + 1) t else n

/-- The number of symbol characters at the start of a text, up to a block comment. -/
def graphicRun (t : Text) : Nat :=
  graphicRunFrom 0 t

/-- Whether a full stop before `t` ends a sentence: white space, a comment or nothing follows. -/
def endsSentence : Text → Bool
  | [] => true
  | g :: _ => CharClass.isBlank g.code || g = .char '%'

/-- Whether the last of the first `n` glyphs is a full stop that belongs to no atom: it ends the
sentence, and the glyph before it is no full stop. -/
def stopAfter (t : Text) (n : Nat) : Bool :=
  1 < n && t[n - 1]? = some (.char '.') && t[n - 2]? ≠ some (.char '.') && endsSentence (t.drop n)

/-- `n` more than the number of glyphs in digit groups at the start: digits with single underscores
between them. -/
def digitGroupsFrom (p : Char → Bool) (n : Nat) : Text → Nat
  | [] => n
  | g :: .char '_' :: t =>
    if p g.code then
      if (t.head?.map fun d => p d.code) = some true then digitGroupsFrom p (n + 2) t else n + 1
    else n
  | g :: t => if p g.code then digitGroupsFrom p (n + 1) t else n

/-- The number of glyphs in digit groups at the start of a text. -/
def digitGroups (p : Char → Bool) (t : Text) : Nat :=
  digitGroupsFrom p 0 t

/-- The length of an exponent: a letter, an optional sign and digits. -/
def exponentLength : Text → Nat
  | .char c :: t =>
    if c = 'e' ∨ c = 'E' then
      let sign := match t with
        | .char '+' :: _ | .char '-' :: _ => 1
        | _ => 0
      let digits := run CharClass.isDecimal (t.drop sign)
      if digits = 0 then 0 else 1 + sign + digits
    else 0
  | _ => 0

/-- The length of a floating point number at the start of a text, zero if there is none. -/
def floatLength (t : Text) : Nat :=
  let whole := digitGroups CharClass.isDecimal t
  match t.drop whole with
  | .char '.' :: rest =>
    let fraction := digitGroups CharClass.isDecimal rest
    if whole = 0 ∨ fraction = 0 then 0
    else whole + 1 + fraction + exponentLength (rest.drop fraction)
  | _ => 0

/-- The base that the letter after a zero stands for, with its digits. -/
def base? : Char → Option (Nat × (Char → Bool))
  | 'x' => some (16, CharClass.isHexadecimal)
  | 'o' => some (8, CharClass.isOctal)
  | 'b' => some (2, CharClass.isBinary)
  | _ => none

/-- An integer with its base in front, the number of its digits included. -/
def basedInteger? : Text → Option (Nat × Nat)
  | .char '0' :: .char x :: t =>
    match base? x with
    | none => none
    | some (base, isDigit) =>
      let digits := digitGroups isDigit t
      if digits = 0 then none else some (base, digits)
  | _ => none

/-- A number that starts with a decimal digit. -/
def number (t : Text) : Lexeme :=
  match t with
  | .char '0' :: .char '\'' :: _ => .charCode
  | _ =>
    match basedInteger? t with
    | some (base, digits) => .plain (.integer base) 2 (2 + digits)
    | none =>
      match floatLength t with
      | 0 => .plain (.integer 10) 0 (digitGroups CharClass.isDecimal t)
      | length => .plain .float 0 length

/-- The token of a single character. -/
def solo? : Char → Option TokenKind
  | ',' => some .comma
  | '|' => some .bar
  | '(' => some (.opening .round)
  | ')' => some (.closing .round)
  | '[' => some (.opening .square)
  | ']' => some (.closing .square)
  | '\x7b' => some (.opening .curly)
  | '\x7d' => some (.closing .curly)
  | _ => none

/-- The token that a text of at least one glyph starts with, `c` being its first character. -/
def ofText (c : Char) (t : Text) : Lexeme :=
  if CharClass.isNameStart c then .name (run CharClass.isAlphanumeric t)
  else if CharClass.isGraphic c then
    let n := graphicRun t
    if n = 1 ∧ c = '.' then .dot
    else .name (if stopAfter t n then n - 1 else n)
  else if c = '!' ∨ c = ';' then .name 1
  else if CharClass.isDecimal c then number t
  else if CharClass.isVariableStart c then
    let n := run CharClass.isAlphanumeric t
    .plain (if n = 1 ∧ c = '_' then .anonymousVariable else .variable) 0 n
  else if c ∈ ['\'', '"', '\x60'] then .quotedText c
  else
    match solo? c with
    | some kind => .plain kind 0 1
    | none => .unknown c

end Lexeme

end PrologText
