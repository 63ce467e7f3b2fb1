import PrologText.Number.FloatText
import PrologText.Term.Basic
import PrologText.Text.Quoted

/-!
# Canonical text of terms

The text of a term without operators: compounds as `f(a,b)`, lists in brackets, the one-argument
compound of `{}` in braces, and quotes around the atoms that need them.
-/

namespace PrologText

namespace Atom

/-- Whether a name can stand without quotes: a few symbols of their own, a name of letters that
starts with a small one, or symbol characters that do not open a comment. -/
def isBare (name : Text) : Bool :=
  if name ∈ ["\x7b\x7d", "!", ";"].map Text.ofString then true
  else if name ∈ [",", "|", "[]", "."].map Text.ofString then false
  else
    match name with
    | [] => false
    | first :: _ =>
      if CharClass.isLower first.code then name.all fun g => CharClass.isAlphanumeric g.code
      else if CharClass.isGraphic first.code then
        name.all (fun g => CharClass.isGraphic g.code) && !name.startsWith "/*"
      else false

/-- The text of an atom. -/
def text (a : Atom) : Text :=
  if isBare a.name then a.name else a.name.quoted '\''

end Atom

/-- The text of a variable. One without a name of its own is known by its number. -/
def Variable.text (v : Variable) : Text :=
  if v.name = [] ∨ v.name = [.char '_'] then "_G" ++ Positional.decimal v.id else v.name

namespace Term

/-- Floating point numbers in terms have a point and a digit after it. -/
def floatNotation : Notation :=
  { Binary64.plain with
    pointZero := true
    nan := "1.5NaN"
    infinite := "1.0Inf"
    negativeInfinite := "-1.0Inf" }

/-- Where a term stands: by itself, or at the end of a list. -/
inductive Position where
  | whole
  | listEnd
deriving DecidableEq

namespace Position

/-- What stands before a term that is no list. -/
def before : Position → Text
  | whole => []
  | listEnd => [.char '|']

/-- What stands after a term that is no list, and then `rest`. -/
def after : Position → Text → Text
  | whole, rest => rest
  | listEnd, rest => .char ']' :: rest

end Position

mutual

/-- The text of a term at a position, followed by `rest`. -/
def renderAt (p : Position) : Term → Text → Text
  | atom a, rest => p.before ++ a.text ++ p.after rest
  | integer v, rest => p.before ++ Positional.integer v.toInt ++ p.after rest
  | bigInteger n, rest => p.before ++ Positional.integer n ++ p.after rest
  | float x, rest => p.before ++ x.render floatNotation ++ p.after rest
  | string s, rest => p.before ++ s.quoted '"' ++ p.after rest
  | var v, rest => p.before ++ v.text ++ p.after rest
  | compound f args, rest =>
    if f.name = Atom.braces.name ∧ args.length = 1 then
      p.before ++ .char '\x7b' :: renderArguments args (.char '\x7d' :: p.after rest)
    else p.before ++ f.text ++ .char '(' :: renderArguments args (.char ')' :: p.after rest)
  | nil, rest =>
    match p with
    | .whole => .char '[' :: .char ']' :: rest
    | .listEnd => .char ']' :: rest
  | cons head tail, rest =>
    let opening := match p with
      | .whole => '['
      | .listEnd => ','
    .char opening :: renderAt .whole head (renderAt .listEnd tail rest)

/-- The texts of some terms with commas between them, followed by `rest`. -/
def renderArguments : List Term → Text → Text
  | [], rest => rest
  | t :: ts, rest =>
    renderAt .whole t (if ts.isEmpty then rest else .char ',' :: renderArguments ts rest)

end

/-- The text of a term without operators. -/
def canonical (t : Term) : Text :=
  renderAt .whole t []

end Term

end PrologText
