import PrologText.Json.Basic
import PrologText.Text.CharClass

/-!
# Diagnostics

What went wrong, as a chain from the outermost circumstance to the innermost cause. Tagged links
carry a kind and named details; other links say where the cause arose.
-/

namespace PrologText

/-- Named details of a failure. -/
abbrev Details := List (String × Json)

namespace Details

def get? (d : Details) (name : String) : Option Json :=
  d.lookup name

/-- Puts a detail in place of one of the same name, or at the end. -/
def insert (d : Details) (name : String) (value : Json) : Details :=
  if d.any (·.1 == name) then d.map fun m => if m.1 == name then (name, value) else m
  else d ++ [(name, value)]

/-- The details of both; where both have one, that of `upper` counts. -/
def override (lower upper : Details) : Details :=
  upper.foldl (fun d m => d.insert m.1 m.2) lower

end Details

/-- A chain of circumstances down to a cause. -/
inductive Diagnostic where
  /-- A bare message. -/
  | plain (message : Text)
  /-- The circumstance under which `cause` arose. -/
  | within (circumstance : Text) (cause : Diagnostic)
  /-- A failure of a kind, with details, for a cause or by itself. -/
  | tagged (tag : Text) (details : Details) (cause : Option Diagnostic)

namespace Diagnostic

/-- The message of a chain: its parts from the outermost on, with colons between them. -/
def message : Diagnostic → Text
  | plain m => m
  | within c cause => c ++ ": " ++ cause.message
  | tagged tag _ none => tag
  | tagged tag _ (some cause) => tag ++ ": " ++ cause.message

/-- The tagged links of a chain, outermost first. -/
def tags : Diagnostic → List (Text × Details)
  | plain _ => []
  | within _ cause => cause.tags
  | tagged tag details none => [(tag, details)]
  | tagged tag details (some cause) => (tag, details) :: cause.tags

/-- The part of a chain that starts with its first tagged link. -/
def firstTagged? : Diagnostic → Option Diagnostic
  | plain _ => none
  | within _ cause => cause.firstTagged?
  | d => some d

/-- The kind of a failure: the first tag. -/
def kind? (d : Diagnostic) : Option Text :=
  d.tags.head?.map (·.1)

/-- The tag of failures to read a text. -/
def syntaxTag : Text := "SyntaxError"

/-- The class of a syntax error: the tag after the first, if the first says that it is one. -/
def syntaxClass? (d : Diagnostic) : Option Text :=
  match d.tags with
  | (tag, _) :: (cls, _) :: _ => if tag = syntaxTag then some cls else none
  | _ => none

/-- The line of source text that the first tagged link carries. -/
def sourceLine (d : Diagnostic) : Text :=
  match d.tags.head?.bind (·.2.get? "line") with
  | some (.text line) => line
  | _ => []

/-- The details of all tagged links; where several have one, the outermost counts. -/
def details (d : Diagnostic) : Details :=
  d.tags.foldr (fun link under => Details.override under link.2) []

/-- A diagnostic as a JSON object. From the first tagged link on, it has the tags, the message and
all details; without one, only the message. -/
def toJson (d : Diagnostic) : Json :=
  match d.firstTagged? with
  | none => .object [("message", .text d.message)]
  | some first =>
    let base : Details :=
      [("message", .text first.message), ("tags", Json.texts (d.tags.map (·.1)))]
    .object (base.override d.details)

/-- A diagnostic for a person: the message, and below it the source line it is about. -/
def display (d : Diagnostic) : Text :=
  let line := d.sourceLine.trim
  if line.isEmpty then d.message else d.message ++ "\n    " ++ line

end Diagnostic

end PrologText
