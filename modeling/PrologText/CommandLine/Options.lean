import PrologText.CommandLine.Template
import PrologText.Text.Quoted

/-!
# Command line options

Options are read from left to right, up to the first that cannot be understood. One letter after a
dash is the short form of an option, a word after two dashes the long form; two dashes alone end the
options. A value that starts with a double quote is a literal.
-/

namespace PrologText

structure Options where
  config : Text
  query : Text
  listen : Text
  interactive : Bool
  canonical : Bool
  files : List Text

/-- An option by itself. -/
inductive Flag where
  | config
  | query
  | interactive
  | listen
  | canonical
  | help
deriving DecidableEq

namespace Flag

def all : List Flag :=
  [config, query, interactive, listen, canonical, help]

def short? : Flag → Option Char
  | config => some 'c'
  | query => some 'q'
  | interactive => some 'i'
  | listen => some 'l'
  | canonical => none
  | help => some 'h'

def long : Flag → String
  | config => "config"
  | query => "query"
  | interactive => "interactive"
  | listen => "listen"
  | canonical => "canonical"
  | help => "help"

/-- Whether an option has a value. -/
def hasValue : Flag → Bool
  | config | query | listen => true
  | interactive | canonical | help => false

/-- What an option is called in messages. -/
def name (f : Flag) : Text :=
  let long : Text := "--" ++ (f.long : Text)
  match f.short? with
  | some c => .char '-' :: .char c :: ", " ++ long
  | none => long

def ofShort? (g : Glyph) : Option Flag :=
  all.find? fun f => f.short?.any fun c => g = .char c

def ofLong? (t : Text) : Option Flag :=
  all.find? fun f => Text.ofString f.long = t

end Flag

/-- Why the command line is not followed. -/
inductive UsageError where
  /-- Help was asked for. -/
  | help
  | unknownFlag (name : Text)
  | valueForSwitch (f : Flag)
  | missingValue (f : Flag)
  /-- Where the value of an option should be, there is another option. -/
  | optionForValue (f : Flag) (got : Text)
  /-- Where the value of an option should be, the options end. -/
  | endForValue (f : Flag)
  | badLiteral (f : Flag)

namespace UsageError

/-- The name of an option as it is quoted in messages. -/
def quotedName (t : Text) : Text :=
  "\x60" ++ t ++ "'"

def message : UsageError → Text
  | help => []
  | unknownFlag name => "unknown flag " ++ quotedName name
  | valueForSwitch f => "bool flag " ++ quotedName f.name ++ " cannot have an argument"
  | missingValue f => "expected argument for flag " ++ quotedName f.name
  | optionForValue f got =>
    Template.unfilled
      ("expected argument for flag " ++ quotedName f.name ++ ", but got option " ++ quotedName got)
  | endForValue f =>
    "expected argument for flag " ++ quotedName f.name ++ ", but got double dash "
      ++ quotedName "--"
  | badLiteral f =>
    "invalid argument for flag " ++ quotedName f.name ++ " (expected string): invalid syntax"

end UsageError

/-! ## Literals -/

namespace Literal

/-- The number that exactly `count` digits at the start of a text stand for. -/
def digits? (base count : Nat) (t : Text) : Option Nat :=
  if t.length < count then none
  else ((t.take count).mapM fun g => Positional.digitValue? base g.code).map (Positional.value base)

/-- A character given by `count` hexadecimal digits, and the length with the letter before them. -/
def coded? (count : Nat) (t : Text) : Option (Glyph × Nat) :=
  match digits? 16 count t with
  | some n => if n.isValidChar then some (.char (Char.ofNat n), count + 1) else none
  | none => none

/-- A byte given by digits, and the length of the sequence. -/
def byte? (base count length : Nat) (t : Text) : Option (Glyph × Nat) :=
  match digits? base count t with
  | some n =>
    if n < 0x80 then some (.char (Char.ofNat n), length)
    else if n < 0x100 then some (.stray (UInt8.ofNat n), length)
    else none
  | none => none

/-- What an escape sequence stands for and its length, for the text after the backslash. -/
def escape? : Text → Option (Glyph × Nat)
  | [] => none
  | .char 'x' :: t => byte? 16 2 3 t
  | .char 'u' :: t => coded? 4 t
  | .char 'U' :: t => coded? 8 t
  | .char 'a' :: _ => some (.char '\x07', 1)
  | .char 'b' :: _ => some (.char '\x08', 1)
  | .char 't' :: _ => some (.char '\t', 1)
  | .char 'n' :: _ => some (.char '\n', 1)
  | .char 'v' :: _ => some (.char '\x0b', 1)
  | .char 'f' :: _ => some (.char '\x0c', 1)
  | .char 'r' :: _ => some (.char '\r', 1)
  | .char '\\' :: _ => some (.char '\\', 1)
  | .char '"' :: _ => some (.char '"', 1)
  | t => byte? 8 3 3 t

/-- The content of a literal up to the quote that ends the text; `seen` is the content before it in
reverse, and `skip` glyphs are left out that belong to an escape sequence. -/
def contentFrom (seen : Text) : Nat → Text → Option Text
  | _, [] => none
  | skip + 1, _ :: t => contentFrom seen skip t
  | 0, g :: t =>
    if g = .char '"' then if t.isEmpty then some seen.reverse else none
    else if g = .char '\n' then none
    else if g = .char '\\' then
      match escape? t with
      | some (c, n) => contentFrom (c :: seen) n t
      | none => none
    else contentFrom (g :: seen) 0 t

/-- The value of an option as it is meant: what a literal stands for, or any other text itself. -/
def value? : Text → Option Text
  | .char '"' :: t => (contentFrom [] 0 t).map Text.rejoin
  | t => some t

end Literal

/-! ## Options -/

namespace Options

def unset : Options :=
  ⟨[], [], [], false, false, []⟩

/-- Sets an option; `value` counts only for an option that has one. -/
def set (o : Options) (value : Text) : Flag → Options
  | .config => { o with config := value }
  | .query => { o with query := value }
  | .listen => { o with listen := value }
  | .interactive => { o with interactive := true }
  | .canonical => { o with canonical := true }
  | .help => o

def addFile (o : Options) (file : Text) : Options :=
  { o with files := o.files ++ [file] }

/-- Whether an argument is an option. -/
def isOption : Text → Bool
  | .char '-' :: .char '-' :: g :: _ => g ≠ .char '-'
  | [.char '-', .char '-'] => false
  | .char '-' :: _ :: _ => true
  | _ => false

/-- Sets an option to a value in its literal or plain form. -/
def setValue (o : Options) (f : Flag) (value : Text) : Except UsageError Options :=
  match Literal.value? value with
  | some v => .ok (o.set v f)
  | none => .error (.badLiteral f)

/-- Takes one option. `given` is a value attached to it; otherwise the next of the arguments `after`
is the value, if the option `takesNext`. The result has the arguments that are left. -/
def take (o : Options) (f : Flag) (given : Option Text) (takesNext : Bool) (after : List Text) :
    Except UsageError (Options × List Text) :=
  let finish (r : Except UsageError Options) (left : List Text) :
      Except UsageError (Options × List Text) :=
    match r with
    | .ok o => .ok (o, left)
    | .error e => .error e
  if f.hasValue then
    match given, after with
    | some v, _ => finish (o.setValue f v) after
    | none, v :: left =>
      if !takesNext then .error (.missingValue f)
      else if isOption v then .error (.optionForValue f v)
      else if v = "--" then .error (.endForValue f)
      else finish (o.setValue f v) left
    | none, [] => .error (.missingValue f)
  else if given.isSome then .error (.valueForSwitch f)
  else if f = .help then .error .help
  else .ok (o.set [] f, after)

/-- Takes several options by their letters. A value attached to them belongs to the first, and only
the last can have the next argument as its value. -/
def takeLetters (o : Options) (given : Option Text) (after : List Text) :
    Text → Except UsageError (Options × List Text)
  | [] => .ok (o, after)
  | g :: letters =>
    match Flag.ofShort? g with
    | none => .error (.unknownFlag [.char g.code])
    | some f =>
      match o.take f given letters.isEmpty after with
      | .error e => .error e
      | .ok (o, after) => takeLetters o none after letters

/-- The letters of an argument after its dash and the value attached to them: after an equals sign
that follows the first letter, or right after a first letter whose option has a value. -/
def splitLetters (t : Text) : Text × Option Text :=
  match t with
  | g :: .char '=' :: value => if g = .char '=' then (t, none) else ([g], some value)
  | g :: g' :: value =>
    if (Flag.ofShort? g).any Flag.hasValue then ([g], some (g' :: value)) else (t, none)
  | _ => (t, none)

/-- The word of an argument after its dashes and the value attached to it. -/
def splitWord (t : Text) : Text × Option Text :=
  let word := t.takeWhile (· ≠ .char '=')
  (word, if word.length < t.length then some (t.drop (word.length + 1)) else none)

/-- Takes the option of an argument. -/
def takeArgument (o : Options) (argument : Text) (after : List Text) :
    Except UsageError (Options × List Text) :=
  match argument with
  | .char '-' :: .char '-' :: t =>
    let (word, given) := splitWord t
    match Flag.ofLong? word with
    | none => .error (.unknownFlag word)
    | some f => o.take f given true after
  | _ =>
    let (letters, given) := splitLetters (argument.drop 1)
    o.takeLetters given after letters

/-- Reads the arguments that are left. Every step takes an argument, so that as many steps as there
are arguments are enough. -/
def parseFrom (o : Options) : Nat → List Text → Except UsageError Options
  | _, [] => .ok o
  | 0, _ => .ok o
  | steps + 1, argument :: after =>
    if argument = "--" then .ok (after.foldl addFile o)
    else if isOption argument then
      match o.takeArgument argument after with
      | .error e => .error e
      | .ok (o, after) => parseFrom o steps after
    else parseFrom (o.addFile argument) steps after

/-- Reads a command line. -/
def parse (arguments : List Text) : Except UsageError Options :=
  unset.parseFrom arguments.length arguments

/-- The number of things asked for that exclude each other. -/
def modes (o : Options) : Nat :=
  (if o.listen.isEmpty then 0 else 1) + (if o.interactive then 1 else 0)
    + (if o.query.isEmpty ∧ o.files.isEmpty then 0 else 1)

/-- The text that explains the options. -/
def helpText : Text :=
  "Usage:
  prolog-reader [OPTIONS] [FILE...]

Application Options:
  -c, --config=      [OPTIONAL] Configuration file (YAML or JSON)
  -q, --query=       [OPTIONAL] Prolog text to read instead of files
  -i, --interactive  [OPTIONAL] Read sentences from the terminal
  -l, --listen=      [OPTIONAL] Listen host and port to serve the reader API
      --canonical    [OPTIONAL] Print terms in canonical form instead of JSON

Help Options:
  -h, --help         Show this help message
"

end Options

end PrologText
