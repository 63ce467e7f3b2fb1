import PrologText.Dialect
import PrologText.Sentence.Basic

/-!
# Directives

A sentence of the form `:- Goal` can change the dialect for the sentences after it: `op/3` defines
operators and `set_prolog_flag/2` sets a flag. The goals of a conjunction are executed from left to
right up to the first that fails.
-/

namespace PrologText

/-- Why a directive fails. -/
inductive DirectiveError where
  /-- A variable where a value is needed. -/
  | uninstantiated
  | unexpectedType (expected : String) (culprit : Term)
  | operator (e : OperatorError)
  | flag (e : FlagError)

namespace DirectiveError

/-- An argument that is not of the type `expected`. -/
def ofArgument (expected : String) : Term → DirectiveError
  | .var _ => uninstantiated
  | culprit => unexpectedType expected culprit

def diagnostic : DirectiveError → Diagnostic
  | uninstantiated =>
    .tagged "InstantiationError" [] (some (.plain "argument is not sufficiently instantiated"))
  | unexpectedType expected culprit =>
    .tagged "TypeError" [("type", expected), ("culprit", .text culprit.canonical)]
      (some (.plain ("expected " ++ (expected : Text) ++ ", got " ++ culprit.canonical)))
  | operator e => e.diagnostic
  | flag e => e.diagnostic

end DirectiveError

namespace Term

/-- The name of an atom. -/
def atomName? : Term → Option Text
  | atom a => some a.name
  | _ => none

/-- The names that an atom or a list of atoms gives. -/
def operatorNames (t : Term) : Except DirectiveError (List Text) :=
  match t with
  | atom a => .ok [a.name]
  | t =>
    match t.elements with
    | (elements, nil) =>
      match elements.mapM atomName? with
      | some names => .ok names
      | none => .error (.ofArgument "list" t)
    | (_, var v) => .error (.ofArgument "list" (var v))
    | _ => .error (.ofArgument "list" t)

/-- The goal of a directive. -/
def directiveGoal? : Term → Option Term
  | compound functor [goal] => if functor.name = ":-" then some goal else none
  | _ => none

end Term

/-- The outcome of executing a goal. -/
structure Execution where
  dialect : Dialect
  /-- Whether the goal is one that dialects know about. -/
  handled : Bool
  error? : Option DirectiveError

namespace Execution

/-- A goal that does nothing to a dialect. -/
def ignored (d : Dialect) : Execution :=
  ⟨d, false, none⟩

/-- A goal that changes a dialect, or fails and leaves it as it was. -/
def ofExcept (d : Dialect) : Except DirectiveError Dialect → Execution
  | .ok next => ⟨next, true, none⟩
  | .error e => ⟨d, true, some e⟩

end Execution

namespace Dialect

/-- Defines operators as `op/3` does. -/
def defineOperators (d : Dialect) (priority specifier names : Term) :
    Except DirectiveError Dialect :=
  match priority with
  | .integer p =>
    match specifier with
    | .atom s =>
      match names.operatorNames with
      | .error e => .error e
      | .ok names =>
        match d.table.define p.toInt s.name names with
        | .error e => .error (.operator e)
        | .ok table => .ok { d with table }
    | other => .error (.ofArgument "atom" other)
  | other => .error (.ofArgument "integer" other)

/-- Sets a flag as `set_prolog_flag/2` does. -/
def setFlag (d : Dialect) (name value : Term) : Except DirectiveError Dialect :=
  match name with
  | .atom a =>
    match d.flags.set a.name value with
    | .error e => .error (.flag e)
    | .ok flags => .ok { d with flags }
  | other => .error (.ofArgument "atom" other)

/-- Executes a goal. -/
def execute (d : Dialect) : Term → Execution
  | .compound functor [a, b] =>
    if functor.name = "," then
      let first := execute d a
      if first.error?.isSome then first
      else
        let second := execute first.dialect b
        { second with handled := first.handled || second.handled }
    else if functor.name = "set_prolog_flag" then .ofExcept d (d.setFlag a b)
    else .ignored d
  | .compound functor [a, b, c] =>
    if functor.name = "op" then .ofExcept d (d.defineOperators a b c) else .ignored d
  | _ => .ignored d

/-- Executes the goal of a sentence if it is a directive. -/
def apply (d : Dialect) (s : Sentence) : Execution :=
  match s.term.directiveGoal? with
  | none => .ignored d
  | some goal => d.execute goal

end Dialect

/-- What is said about a sentence whose goal failed. -/
def DirectiveError.inSentence (s : Sentence) (e : DirectiveError) : Diagnostic :=
  .tagged "DirectiveError"
    [("directive", .text s.term.canonical), ("line_number", .integer s.line)] (some e.diagnostic)

end PrologText
