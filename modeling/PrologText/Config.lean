import PrologText.Dialect
import PrologText.Document.Json
import PrologText.Document.Yaml

/-!
# Configurations

A configuration sets flags and defines operators over the standard ones. It is given as a document;
what does not fit is reported all at once.
-/

namespace PrologText

/-- Operators as a configuration defines them. -/
structure OperatorDefinition where
  priority : Int
  specifier : Text
  names : List Text
deriving DecidableEq

structure Config where
  flags : Flags
  operators : List OperatorDefinition

/-- The form in which a configuration is written. -/
inductive Format where
  | json
  | yaml
deriving DecidableEq

/-- Why a configuration cannot be had from a text. -/
inductive ConfigError where
  | malformed (format : Format)
  /-- The document has values or keys that do not belong there. -/
  | unfit (complaints : List Text)
  | badFlags (e : FlagError)

namespace ConfigError

def diagnostic : ConfigError → Diagnostic
  | malformed .json => .within "json.Decode" (.plain "malformed text")
  | malformed .yaml => .within "yaml.YAMLToJSON" (.plain "malformed text")
  | unfit complaints =>
    let lines : List Text := complaints.map fun c => "* " ++ c
    .within "mapstructure.Decode" <| .plain <|
      Positional.decimal complaints.length ++ " error(s) decoding:\n\n"
        ++ Text.joined "\n" (Text.sorted lines)
  | badFlags e => .within "flags" e.diagnostic

end ConfigError

/-! ## Fitting documents -/

namespace Document

/-- The kind of a value that is not null. -/
def kindName : Document → String
  | null => "invalid"
  | bool _ => "bool"
  | number _ | text _ => "string"
  | list _ => "slice"
  | map _ => "map"

/-- The type of a value that is not null. -/
def typeName : Document → String
  | null => "nil"
  | bool _ => "bool"
  | number _ => "json.Number"
  | text _ => "string"
  | list _ => "[]interface \x7b\x7d"
  | map _ => "map[string]interface \x7b\x7d"

mutual

/-- A value as it is shown in a complaint. -/
def shown : Document → Text
  | null => "<nil>"
  | bool b => if b then "true" else "false"
  | number literal => literal
  | text t => t
  | list items => "[" ++ Text.joined " " (shownItems items) ++ "]"
  | map members =>
    let sorted := (shownMembers members).mergeSort fun a b => a.1.bytes ≤ b.1.bytes
    "map[" ++ Text.joined " " (sorted.map fun m => m.1 ++ ":" ++ m.2) ++ "]"

def shownItems : List Document → List Text
  | [] => []
  | x :: xs => shown x :: shownItems xs

def shownMembers : List (Text × Document) → List (Text × Text)
  | [] => []
  | (name, x) :: xs => (name, shown x) :: shownMembers xs

end

/-- The members of a mapping, of those with one name the last. -/
def distinct : List (Text × Document) → List (Text × Document)
  | [] => []
  | (name, x) :: ms => if ms.any (·.1 = name) then distinct ms else (name, x) :: distinct ms

/-- A character with its case left aside, for comparison with ASCII letters. -/
def foldChar (c : Char) : Char :=
  if c = '\u017f' then 's' else if c = '\u212a' then 'k' else c.toLower

/-- The key of a mapping that a field goes by: its name, or a key that differs from it in case
only. -/
def keyOf? (members : List (Text × Document)) (field : String) : Option Text :=
  let fold (t : Text) : Text := t.map fun g => .char (foldChar g.code)
  match members.find? (·.1 = Text.ofString field) with
  | some m => some m.1
  | none => (members.find? fun m => fold m.1 = Text.ofString field).map (·.1)

/-- The value of a field; null if it is missing. -/
def field (members : List (Text × Document)) (name : String) : Document :=
  ((keyOf? members name).bind fun key => members.lookup key).getD null

end Document

/-- A value made from a document, and complaints about what does not fit. -/
structure Fitted (α : Type) where
  value : α
  complaints : List Text

namespace Fitted

def ok {α : Type} (value : α) : Fitted α :=
  ⟨value, []⟩

/-- A complaint; the value stays as it was. -/
def complaint {α : Type} (value : α) (c : Text) : Fitted α :=
  ⟨value, [c]⟩

/-- A value of the wrong type at `path`. -/
def mismatch {α : Type} (value : α) (path : Text) (expected : String) (d : Document) : Fitted α :=
  complaint value <|
    "'" ++ path ++ "' expected type '" ++ (expected : Text) ++ "', got unconvertible type '"
      ++ (d.typeName : Text) ++ "', value: '" ++ d.shown ++ "'"

/-- The path of a field. -/
def below (path : Text) (name : String) : Text :=
  if path.isEmpty then name else path ++ "." ++ (name : Text)

/-- The path of an item. -/
def item (path : Text) (i : Nat) : Text :=
  path ++ "[" ++ Positional.decimal i ++ "]"

/-- A switch at `path`; null leaves it as it is. -/
def bool (path : Text) (old : Bool) : Document → Fitted Bool
  | .null => ok old
  | .bool b => ok b
  | d => mismatch old path "bool" d

/-- A text at `path`; null leaves it as it is, and a number counts as its literal. -/
def text (path : Text) (expected : String) (old : Text) : Document → Fitted Text
  | .null => ok old
  | .text t => ok t
  | .number literal => ok literal
  | d => mismatch old path expected d

/-- Why a literal is no integer of 64 bits, if it is none. -/
def integerFault? (literal : Text) : Option String :=
  let digits := if literal.head? = some (.char '-') then literal.drop 1 else literal
  match digits.mapM fun g => Positional.digitValue? 10 g.code with
  | some (d :: ds) =>
    let n : Int := Positional.value 10 (d :: ds)
    let n := if literal.head? = some (.char '-') then -n else n
    if Term.FitsInt64 n then none else some "value out of range"
  | _ => some "invalid syntax"

/-- The integer of a literal. -/
def integerOf (literal : Text) : Int :=
  let digits := literal.filterMap fun g => Positional.digitValue? 10 g.code
  let n : Int := Positional.value 10 digits
  if literal.head? = some (.char '-') then -n else n

/-- An integer at `path`; null leaves it as it is. -/
def integer (path : Text) (old : Int) : Document → Fitted Int
  | .null => ok old
  | .number literal =>
    match integerFault? literal with
    | none => ok (integerOf literal)
    | some fault =>
      complaint old <|
        "error decoding json.Number into " ++ path ++ ": strconv.ParseInt: parsing "
          ++ literal.shown ++ ": " ++ (fault : Text)
  | d => mismatch old path "int" d

/-- The items of a list at `path`; null stands for no items. -/
def list {α : Type} (path : Text) (fit : Text → Document → Fitted α) :
    Document → Fitted (List α)
  | .null => ok []
  | .list items =>
    let fitted := items.zipIdx.map fun (x, i) => fit (item path i) x
    ⟨fitted.map (·.value), fitted.flatMap (·.complaints)⟩
  | d =>
    complaint [] <|
      "'" ++ path ++ "': source data must be an array or slice, got " ++ (d.kindName : Text)

/-- Complains about the keys of a mapping at `path` that are no fields. -/
def unknownKeys (path : Text) (members : List (Text × Document)) (fields : List String) :
    List Text :=
  let known := fields.filterMap (Document.keyOf? members)
  let unknown := (members.map (·.1)).filter fun key => !known.contains key
  if unknown.isEmpty then []
  else
    ["'" ++ path ++ "' has invalid keys: " ++ Text.joined ", " (Text.sorted unknown)]

/-- A mapping at `path` with some fields; null leaves the value as it is. -/
def record {α : Type} (path : Text) (fields : List String) (old : α)
    (fit : List (Text × Document) → Fitted α) : Document → Fitted α
  | .null => ok old
  | .map members =>
    let members := Document.distinct members
    let fitted := fit members
    ⟨fitted.value, fitted.complaints ++ unknownKeys path members fields⟩
  | d =>
    complaint old ("'" ++ path ++ "' expected a map, got '" ++ (d.kindName : Text) ++ "'")

end Fitted

namespace Config

/-- The configuration that sets nothing. -/
def standard : Config :=
  ⟨.standard, []⟩

open Fitted in
/-- Flags at `path`. -/
def fitFlags (path : Text) (old : Flags) : Document → Fitted Flags :=
  let names :=
    ["char_escapes", "double_quotes", "back_quotes", "full_stop_optional", "keep_comments"]
  record path names old fun members =>
    let switch (name : String) (old : Bool) : Fitted Bool :=
      bool (below path name) old (Document.field members name)
    let kind (name : String) (old : QuoteKind) : Fitted Text :=
      text (below path name) "types.QuoteKind" old.name (Document.field members name)
    let charEscapes := switch "char_escapes" old.charEscapes
    let doubleQuotes := kind "double_quotes" old.doubleQuotes
    let backQuotes := kind "back_quotes" old.backQuotes
    let fullStopOptional := switch "full_stop_optional" old.fullStopOptional
    let keepComments := switch "keep_comments" old.keepComments
    ⟨⟨charEscapes.value, .ofText doubleQuotes.value, .ofText backQuotes.value,
        fullStopOptional.value, keepComments.value⟩,
      charEscapes.complaints ++ doubleQuotes.complaints ++ backQuotes.complaints
        ++ fullStopOptional.complaints ++ keepComments.complaints⟩

open Fitted in
/-- The definition of operators at `path`. -/
def fitOperator (path : Text) : Document → Fitted OperatorDefinition :=
  record path ["priority", "specifier", "names"] ⟨0, [], []⟩ fun members =>
    let priority := integer (below path "priority") 0 (Document.field members "priority")
    let specifier := text (below path "specifier") "string" [] (Document.field members "specifier")
    let names :=
      list (below path "names") (fun path => text path "string" []) (Document.field members "names")
    ⟨⟨priority.value, specifier.value, names.value⟩,
      priority.complaints ++ specifier.complaints ++ names.complaints⟩

open Fitted in
/-- The configuration of a document. -/
def fit : Document → Fitted Config :=
  record [] ["flags", "operators"] standard fun members =>
    let flags := fitFlags "flags" standard.flags (Document.field members "flags")
    let operators := list "operators" fitOperator (Document.field members "operators")
    ⟨⟨flags.value, operators.value⟩, flags.complaints ++ operators.complaints⟩

/-- The document of a text in a format. One in YAML has to be one in JSON too. -/
def document (format : Format) (t : Text) : Except ConfigError Document :=
  let found : Except ConfigError Document :=
    match format with
    | .json =>
      match Document.ofJson? t with
      | some d => .ok d
      | none => .error (.malformed .json)
    | .yaml =>
      match Document.ofYaml t with
      | .ok d => .ok d
      | .error .malformed => .error (.malformed .yaml)
      | .error .unwritable => .error (.malformed .json)
  match found with
  | .error e => .error e
  | .ok .null => .ok .null
  | .ok (.map members) => .ok (.map members)
  | .ok _ => .error (.malformed .json)

/-- Reads a configuration. -/
def parse (format : Format) (t : Text) : Except ConfigError Config :=
  match document format t with
  | .error e => .error e
  | .ok d =>
    let fitted := fit d
    if fitted.complaints.isEmpty then
      match fitted.value.flags.validate with
      | .error e => .error (.badFlags e)
      | .ok () => .ok fitted.value
    else .error (.unfit fitted.complaints)

/-- Makes definitions in a table, the first of them being number `i`. -/
def define (t : Table) (i : Nat) : List OperatorDefinition → Except Diagnostic Table
  | [] => .ok t
  | d :: ds =>
    match t.define d.priority d.specifier d.names with
    | .ok t => define t (i + 1) ds
    | .error e => .error (.within (Fitted.item "operators" i) e.diagnostic)

/-- The operators of a configuration over those of `parent`, as a table that cannot be changed. -/
def table (c : Config) (parent : Table) : Except Diagnostic Table :=
  match define parent.derive 0 c.operators with
  | .ok t => .ok { t with readOnly := true }
  | .error e => .error e

/-- The operators over the standard ones, and the flags. -/
def dialect (c : Config) : Except Diagnostic Dialect :=
  match c.table .standard with
  | .ok table => .ok ⟨table, c.flags⟩
  | .error e => .error e

end Config

end PrologText
