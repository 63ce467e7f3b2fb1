import PrologText.Json.Basic
import PrologText.Term.Canonical

/-!
# Terms as JSON

The projection of a term onto a JSON value. It keeps everything but the quoting marks of atoms and
the identities of variables.
-/

namespace PrologText.Term

mutual

/-- The projection of a term, and with it the projections of its elements and of the tail it has
besides the empty list. -/
def project : Term → Json × List Json × Option Json
  | atom a => single (.object [("atom", .text a.name)])
  | integer v => single (.integer v.toInt)
  | bigInteger n => single (.object [("integer", .text (Positional.integer n))])
  | float x => single (.float x)
  | string s => single (.object [("string", .text s)])
  | var v => single (.object [("var", .text v.text)])
  | compound f args =>
    single (.object [("args", .array (projectAll args)), ("functor", .text f.name)])
  | nil => (.object [("list", .array [])], [], none)
  | cons head tail =>
    let (_, items, last) := project tail
    let items := (project head).1 :: items
    (listObject items last, items, last)
where
  single (j : Json) : Json × List Json × Option Json := (j, [], some j)
  listObject (items : List Json) (last : Option Json) : Json :=
    match last with
    | none => .object [("list", .array items)]
    | some tail => .object [("list", .array items), ("tail", tail)]

def projectAll : List Term → List Json
  | [] => []
  | t :: ts => (project t).1 :: projectAll ts

end

/-- The JSON value of a term. -/
def toJson (t : Term) : Json :=
  (project t).1

end PrologText.Term
