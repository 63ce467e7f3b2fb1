import PrologText.Config
import PrologText.Json.Writer
import PrologText.Program.Consult
import PrologText.Service.Target
import PrologText.Token.Stream

/-!
# The reading service

Answers requests to read a program, to list the tokens of a text and to list the operators. Every
program is read in a dialect of its own over the one that the service was started with, so that the
directives of one request do not reach another.
-/

namespace PrologText

structure Request where
  method : Text
  target : Text
  body : Text

structure Response where
  status : Nat
  contentType : Text
  /-- The announced number of bytes of the body. -/
  contentLength : Option Nat
  body : Text
  /-- What the service notes down about the request. -/
  log : List Text

namespace Response

/-- A response that says in words what went wrong. -/
def plain (status : Nat) (reason : String) (log : List Text) : Response :=
  ⟨status, "text/plain; charset=utf-8", none, reason ++ "\n", log⟩

/-- Responses are indented by two spaces and free of markup. -/
def style : Json.Style :=
  ⟨"  ", true⟩

def json (status : Nat) (j : Json) : Response :=
  let body := j.render style ++ "\n"
  ⟨status, "application/json", some body.byteCount, body, []⟩

def badRequest (log : Text) : Response :=
  plain 400 "Bad Request" [log]

def notFound : Response :=
  plain 404 "Not Found" []

def methodNotAllowed : Response :=
  plain 405 "Method Not Allowed" []

end Response

namespace Service

/-- The greatest number of bytes of a body that are read. -/
def maxBodySize : Nat := 1048576

/-- A text without its last line if that has no newline. -/
def completeLines (lines : List Text) : List Text :=
  match lines.getLast? with
  | some last => if last.getLast? = some (.char '\n') then lines else lines.dropLast
  | none => []

/-- The lines of a body. Of one that is too large, only the lines that end within the limit can be
had. -/
def bodyCursor (body : Text) : Cursor :=
  if body.byteCount ≤ maxBodySize then .ofText body
  else
    let start := Text.ofBytes (body.bytes.take maxBodySize)
    .ofLines (completeLines start.lines) (.failure "http: request body too large")

/-- Reads a program. The number is that of the last variable, before and after. -/
def read (env : Dialect) (issued : Nat) (body : Text) : Response × Nat :=
  let c := env.derive.consult issued (bodyCursor body)
  let response :=
    match c.result with
    | .error e => .badRequest ("failed to read request body: " ++ e.inProgram.message)
    | .ok x => .json (if x.errors.isEmpty then 200 else 422) x.toJson
  (response, c.issued)

def tokenJson (t : Token) : Json :=
  .object
    [("kind", .text t.kind.name), ("text", .text t.text), ("line", .integer t.place.line),
      ("column", .integer t.place.column)]

/-- Lists the tokens of a text, with the comments if the target asks for them. -/
def tokens (env : Dialect) (target : Target) (body : Text) : Response :=
  let comments := target.parameter "comments" = some "true"
  let (tokens, ending) :=
    tokensFrom { env.flags with keepComments := comments } [] (bodyCursor body)
  let list : String × Json := ("tokens", .array (tokens.map tokenJson))
  match ending with
  | .endOfFile => .json 200 (.object [list])
  | .fault e => .json 422 (.object [list, ("error", e.diagnostic.toJson)])
  | .failure reason =>
    .badRequest
      ("failed to tokenize request body: " ++ (ReadError.failure reason).diagnostic.message)

/-- Lists the operators. -/
def operators (env : Dialect) : Response :=
  let entry (op : Operator) : Json :=
    .object
      [("name", .text op.name), ("priority", .integer op.priority),
        ("specifier", op.specifier.name)]
  .json 200 (.object [("operators", .array (env.table.operators.map entry))])

/-- Answers a request. The number is that of the last variable, before and after. -/
def respond (env : Dialect) (issued : Nat) (r : Request) : Response × Nat :=
  match Target.ofText? r.target with
  | none => (.plain 400 "Bad Request" [], issued)
  | some target =>
    let allowing (method : String) (answer : Response × Nat) : Response × Nat :=
      if r.method = Text.ofString method then answer else (.methodNotAllowed, issued)
    if target.path = "/v1/read" then allowing "POST" (read env issued r.body)
    else if target.path = "/v1/tokens" then allowing "POST" (tokens env target r.body, issued)
    else if target.path = "/v1/operators" then allowing "GET" (operators env, issued)
    else (.notFound, issued)

end Service

end PrologText
