import PrologText.CommandLine.Run

/-!
# Prompting for sentences

A sentence at a prompt can take several lines. The lines are given one by one: as long as a reader
runs out of lines inside a sentence, it is tried again with one line more.
-/

namespace PrologText

/-- The cursor with one line more to come. -/
def Cursor.extend (c : Cursor) (line : Text) : Cursor :=
  { c with later := c.later ++ [line] }

/-- The state of a dialogue. -/
structure Dialogue where
  dialect : Dialect
  reader : Reader
  canonical : Bool

/-- What a dialogue asks for or tells. -/
inductive Turn where
  /-- It asks for a line to go on with the sentence. -/
  | asks
  /-- It tells something, be it a failure. -/
  | speaks (stdout stderr : Text) (next : Dialogue)
  /-- It ends. -/
  | ends (status : Nat) (stdout stderr : Text)

namespace Dialogue

/-- A dialogue at its start, with no lines given. -/
def start (env : Dialect) (canonical : Bool) : Dialogue :=
  ⟨env.derive, .ofCursor (.ofLines [] (.failure [])) 0, canonical⟩

/-- The dialogue with one line more. -/
def addLine (d : Dialogue) (line : Text) : Dialogue :=
  { d with reader := { d.reader with cursor := d.reader.cursor.extend line } }

/-- The dialogue with no more lines to come. -/
def close (d : Dialogue) : Dialogue :=
  { d with reader := { d.reader with cursor := { d.reader.cursor with ending := .endOfInput } } }

/-- What is answered to a sentence. -/
def answer (d : Dialogue) (s : Sentence) (next : Reader) : Turn :=
  let x := d.dialect.apply s
  let after : Dialogue := { d with dialect := x.dialect, reader := next }
  match x.error? with
  | some e => .speaks [] ((e.inSentence s).display ++ "\n") after
  | none =>
    if x.handled then .speaks "true.\n" [] after
    else if d.canonical then .speaks (s.term.canonical ++ ".\n") [] after
    else .speaks (s.toJson.render Source.style ++ "\n") [] after

/-- Takes a turn. -/
def turn (d : Dialogue) : Turn :=
  match d.reader.next d.dialect with
  | (.sentence s, next) => d.answer s next
  | (.endOfInput, _) => .ends 0 "\n" []
  | (.error (.malformed e), next) =>
    .speaks [] (e.diagnostic.display ++ "\n") { d with reader := next }
  | (.error (.failure _), _) => .asks
  | (.error .stuck, _) => .ends 1 [] (ReadError.stuck.diagnostic.message ++ "\n")

end Dialogue

end PrologText
