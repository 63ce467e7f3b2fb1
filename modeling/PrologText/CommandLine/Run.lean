import PrologText.CommandLine.Address
import PrologText.CommandLine.Files
import PrologText.CommandLine.Options
import PrologText.Json.Writer

/-!
# Running the command line

What the program does with its arguments: it explains its options, reads a query and files and
prints what they hold, or starts to serve requests or to prompt for sentences.
-/

namespace PrologText

/-- What a run leaves behind. -/
structure Report where
  status : Nat
  stdout : Text
  stderr : Text
  log : List Text

/-- How a run goes on. -/
inductive Conclusion where
  | exit (r : Report)
  /-- By serving requests at an address. -/
  | serve (address : Text) (env : Dialect)
  /-- By prompting for sentences. -/
  | prompt (env : Dialect) (canonical : Bool)

namespace Report

/-- A run that prints a text. -/
def printing (status : Nat) (stdout : Text) : Report :=
  ⟨status, stdout, [], []⟩

/-- A run that ends with a complaint. -/
def complaining (status : Nat) (stderr : Text) : Report :=
  ⟨status, [], stderr ++ "\n", []⟩

/-- A run that fails and notes down why. -/
def failing (messages : List Text) : Report :=
  ⟨1, [], [], messages.flatMap Text.splitAtNewlines⟩

/-- A run followed by another; the status of failure counts. -/
def append (a b : Report) : Report :=
  ⟨max a.status b.status, a.stdout ++ b.stdout, a.stderr ++ b.stderr, a.log ++ b.log⟩

end Report

/-- A program to be read: the name of its file, if it is in one, and its lines. -/
structure Source where
  name? : Option Text
  cursor : Except Diagnostic Cursor

namespace Source

/-- The programs that options name: the query, then the files. -/
def ofOptions (files : Files) (o : Options) : List Source :=
  let query : List Source :=
    if o.query.isEmpty then [] else [⟨none, .ok (.ofText o.query)⟩]
  query ++ o.files.map fun path => ⟨some path, files.cursor path⟩

/-- What is said when a program could not be read to its end. -/
def unread (s : Source) (e : ReadError) : Diagnostic :=
  match s.name? with
  | some path => .within path e.inProgram
  | none => e.inProgram

/-- Reads a program in a dialect of its own. The number is that of the last variable, before and
after. -/
def consult (s : Source) (env : Dialect) (issued : Nat) : Except Diagnostic (Consultation × Nat) :=
  match s.cursor with
  | .error e => .error e
  | .ok c =>
    let consulted := env.derive.consult issued c
    match consulted.result with
    | .ok x => .ok (x, consulted.issued)
    | .error e => .error (s.unread e)

/-- Reads programs one after the other; none of them counts if one cannot be read. -/
def consultAll (env : Dialect) (issued : Nat) :
    List Source → Except Diagnostic (List (Source × Consultation))
  | [] => .ok []
  | s :: rest =>
    match s.consult env issued with
    | .error e => .error e
    | .ok (x, issued) =>
      match consultAll env issued rest with
      | .error e => .error e
      | .ok xs => .ok ((s, x) :: xs)

/-- JSON is indented by tabs. -/
def style : Json.Style :=
  ⟨"\t", false⟩

/-- What is printed about a program. -/
def report (canonical : Bool) (s : Source) (x : Consultation) : Report :=
  let status := if x.errors.isEmpty then 0 else 1
  if canonical then
    let lines (ts : List Text) : Text := ts.flatMap fun t => t ++ "\n"
    ⟨status, lines (x.clauses.map fun c => c.term.canonical ++ "."),
      lines (x.errors.map Diagnostic.display), []⟩
  else
    let json : Json :=
      match s.name? with
      | none => x.toJson
      | some path => .object [("file", .text path), ("result", x.toJson)]
    .printing status (json.render style ++ "\n")

end Source

namespace CommandLine

/-- Reads the programs that options name and prints what they hold. -/
def readPrograms (files : Files) (env : Dialect) (o : Options) : Report :=
  match Source.consultAll env 0 (Source.ofOptions files o) with
  | .error e => .failing ["failed to read: " ++ e.message]
  | .ok results =>
    results.foldl (fun r (s, x) => r.append (s.report o.canonical x)) (.printing 0 [])

/-- Starts to serve requests. -/
def serve (files : Files) (o : Options) : Conclusion :=
  match files.environment o.config with
  | .error e => .exit (.failing ["failed to serve reader: " ++ e.message])
  | .ok env =>
    match Address.fault? o.listen with
    | some fault =>
      .exit (.failing ["Listen HTTP on " ++ o.listen, "failed to serve reader: " ++ fault])
    | none => .serve o.listen env

/-- Follows options. -/
def follow (files : Files) (terminal : Bool) (o : Options) : Conclusion :=
  if o.modes ≠ 1 then .exit (.printing 1 Options.helpText)
  else if !o.listen.isEmpty then serve files o
  else
    match files.environment o.config with
    | .error e => .exit (.failing ["failed to load config: " ++ e.message])
    | .ok env =>
      if o.interactive then
        if terminal then .prompt env o.canonical
        else .exit (.complaining 1 "interactive mode needs a terminal")
      else .exit (readPrograms files env o)

/-- Runs the program with some arguments; `terminal` tells whether a person can be prompted. -/
def run (files : Files) (terminal : Bool) (arguments : List Text) : Conclusion :=
  match Options.parse arguments with
  | .error .help => .exit (.printing 0 (Options.helpText ++ "\n"))
  | .error e => .exit ⟨1, Options.helpText, e.message ++ "\n", []⟩
  | .ok o => follow files terminal o

end CommandLine

end PrologText
