import PrologText.Sentence.Variables
import PrologText.SyntaxError
import PrologText.Term.Projection

/-!
# Sentences

What is read up to a full stop, and why nothing could be read.
-/

namespace PrologText

structure Comment where
  text : Text
  line : Nat
deriving DecidableEq

/-- A term read up to its full stop. -/
structure Sentence where
  term : Term
  /-- The named variables in the order in which they are met. -/
  namedVariables : List Variable
  /-- The named variables that are met once and not marked with an underscore. -/
  singletons : List Variable
  comments : List Comment
  /-- The line of the first token that is no comment. -/
  line : Nat

namespace Sentence

/-- The sentence of a term that was read from some tokens. -/
def ofTokens (term : Term) (names : Bindings) (tokens : List Token) : Sentence where
  term
  namedVariables := names.namedVariables
  singletons := names.singletons
  comments := (tokens.filter (·.kind = .comment)).map fun t => ⟨t.text, t.place.line⟩
  line := ((tokens.find? (·.kind ≠ .comment)).map (·.place.line)).getD 0

/-- A member of an object that is left out if its list is empty. -/
def listMember (name : String) (values : List Json) : List (String × Json) :=
  if values.isEmpty then [] else [(name, .array values)]

def toJson (s : Sentence) : Json :=
  .object <|
    [("term", s.term.toJson), ("canonical", .text s.term.canonical), ("line", .integer s.line)]
      ++ listMember "variables"
        (s.namedVariables.map fun v => .object [("name", .text v.name), ("var", .text v.text)])
      ++ listMember "singletons" (s.singletons.map fun v => .text v.name)
      ++ listMember "comments"
        (s.comments.map fun c => .object [("text", .text c.text), ("line", .integer c.line)])

end Sentence

/-- Why no sentence could be read. -/
inductive ReadError where
  | malformed (e : SyntaxError)
  /-- The lines gave out. -/
  | failure (reason : Text)
  /-- A token stood where none of its kind can stand. -/
  | stuck

def ReadError.diagnostic : ReadError → Diagnostic
  | malformed e => e.diagnostic
  | failure reason => .tagged "SystemError" [] (some (.plain reason))
  | stuck => .plain "token out of place"

end PrologText
