import PrologText.Program.Directive
import PrologText.Sentence.Reader

/-!
# Consulting a program

All sentences of a program are read one after the other, each in the dialect that the directives
before it have left. Syntax errors and failed directives are collected and stop nothing.
-/

namespace PrologText

/-- What a program consists of. -/
structure Consultation where
  clauses : List Sentence
  /-- The sentences that were executed. -/
  directives : List Sentence
  errors : List Diagnostic

namespace Consultation

def empty : Consultation :=
  ⟨[], [], []⟩

/-- Adds a sentence, and what executing it came to, in front. -/
def addSentence (c : Consultation) (s : Sentence) (x : Execution) : Consultation where
  clauses := if x.handled then c.clauses else s :: c.clauses
  directives := if x.handled then s :: c.directives else c.directives
  errors := (x.error?.map (·.inSentence s)).toList ++ c.errors

/-- Adds a syntax error in front. -/
def addError (c : Consultation) (e : SyntaxError) : Consultation :=
  { c with errors := e.diagnostic :: c.errors }

def reverse (c : Consultation) : Consultation :=
  ⟨c.clauses.reverse, c.directives.reverse, c.errors.reverse⟩

def toJson (c : Consultation) : Json :=
  .object
    [("clauses", .array (c.clauses.map Sentence.toJson)),
      ("directives", .array (c.directives.map Sentence.toJson)),
      ("errors", .array (c.errors.map Diagnostic.toJson))]

end Consultation

/-- The outcome of consulting a program. -/
structure Consulted where
  /-- The dialect that the program has left. -/
  dialect : Dialect
  /-- The number of the last variable. -/
  issued : Nat
  result : Except ReadError Consultation

/-- What is said when a program could not be read to its end. -/
def ReadError.inProgram (e : ReadError) : Diagnostic :=
  .within "reader.Next" e.diagnostic

/-- Consults what a reader still has before it; `done` is what came before, last first. -/
def Reader.consult (d : Dialect) (done : Consultation) (r : Reader) : Consulted :=
  match h : r.next d with
  | (.endOfInput, after) => ⟨d, after.issued, .ok done.reverse⟩
  | (.sentence s, after) =>
    have : after.measure < r.measure := measure_lt_of_next h trivial
    let x := d.apply s
    after.consult x.dialect (done.addSentence s x)
  | (.error (.malformed e), after) =>
    have : after.measure < r.measure := measure_lt_of_next h trivial
    after.consult d (done.addError e)
  | (.error e, after) => ⟨d, after.issued, .error e⟩
termination_by r.measure

/-- Consults the lines at a cursor, with the next variable to be numbered after `issued`. -/
def Dialect.consult (d : Dialect) (issued : Nat) (c : Cursor) : Consulted :=
  (Reader.ofCursor c issued).consult d .empty

end PrologText
