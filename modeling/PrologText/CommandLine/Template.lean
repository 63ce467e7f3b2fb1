import PrologText.Text.Basic

/-!
# Templates without values

A message can be a template, in which a percent sign starts a placeholder. `Template.unfilled` is
what a template gives if there are no values for its placeholders.
-/

namespace PrologText.Template

def isDigit (g : Glyph) : Bool :=
  '0' ≤ g.code && g.code ≤ '9'

/-- Whether a glyph can stand between the percent sign and the rest of a placeholder. -/
def isFlag (g : Glyph) : Bool :=
  ("#0+- ".toList.map Glyph.char).contains g

/-- A placeholder read in part. -/
structure Scan where
  rest : Text
  /-- What is said about the parts read so far. -/
  remarks : Text
  /-- Whether the number of a value in brackets has been given, which no value has. -/
  numbered : Bool
  /-- Whether such a number comes right before the rest. -/
  afterNumber : Bool

namespace Scan

/-- Passes over the number of a value in brackets. -/
def number (s : Scan) : Scan :=
  match s.rest with
  | .char '[' :: t =>
    let inside := t.takeWhile (· ≠ .char ']')
    if s.rest.length < 3 ∨ inside.length = t.length then
      { s with rest := t, numbered := true, afterNumber := false }
    else
      { s with
        rest := t.drop (inside.length + 1)
        numbered := true
        afterNumber := !inside.isEmpty && inside.all isDigit }
  | _ => { s with afterNumber := false }

/-- Passes over a width or precision; one that a value should give is missing. -/
def size (s : Scan) (remark : String) : Scan :=
  match s.rest with
  | .char '*' :: t =>
    { s with rest := t, remarks := s.remarks ++ (remark : Text), afterNumber := false }
  | t => { s with rest := t.dropWhile isDigit }

/-- Passes over a point and a precision. -/
def precision (s : Scan) : Scan :=
  match s.rest with
  | .char '.' :: t => ({ s with rest := t }.number).size "%!(BADPREC)"
  | _ => s

end Scan

/-- What a placeholder without a value gives, and the rest of the template, for the text after the
percent sign. -/
def placeholder (t : Text) : Text × Text :=
  let start : Scan := ⟨t.dropWhile isFlag, [], false, false⟩
  let s := (start.number.size "%!(BADWIDTH)").precision
  let s := if s.afterNumber then s else s.number
  match s.rest with
  | [] => (s.remarks ++ "%!(NOVERB)", [])
  | g :: rest =>
    let verb : Text :=
      if g = .char '%' then "%"
      else if s.numbered then "%!" ++ (.char g.code :: "(BADINDEX)" : Text)
      else "%!" ++ (.char g.code :: "(MISSING)" : Text)
    (s.remarks ++ verb, rest)

/-- What a template gives that has no values. Every placeholder takes a glyph, so that as many steps
as there are glyphs are enough. -/
def unfilledIn : Nat → Text → Text
  | _, [] => []
  | 0, t => t
  | steps + 1, g :: t =>
    if g = .char '%' then
      let (given, rest) := placeholder t
      given ++ unfilledIn steps rest
    else g :: unfilledIn steps t

def unfilled (t : Text) : Text :=
  unfilledIn t.length t

end PrologText.Template
