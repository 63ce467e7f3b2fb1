import PrologText.Config
import PrologText.Program.Consult

/-!
# Files

What is found under the names of files, and reading configurations and programs from them.
-/

namespace PrologText

/-- What is found under a name. -/
inductive Opened where
  | text (t : Text)
  | directory
  /-- Nothing can be opened, for a reason. -/
  | refused (reason : Text)

/-- What is found under each name. -/
abbrev Files := Text → Opened

namespace Files

/-- A name that cannot be opened. -/
def notOpened (path reason : Text) : Diagnostic :=
  .within ("os.Open(" ++ path.shown ++ ")") (.plain ("open " ++ path ++ ": " ++ reason))

/-- What is said when a directory is read like a file. -/
def directoryRead (path : Text) : Text :=
  "read " ++ path ++ ": is a directory"

/-- The part of a name from its last full stop on. -/
def suffix (path : Text) : Text :=
  let base := path.reverse.takeWhile (· ≠ .char '/')
  let after := base.takeWhile (· ≠ .char '.')
  if after.length = base.length then [] else .char '.' :: after.reverse

/-- The format that a configuration has by its name. -/
def format? (path : Text) : Option Format :=
  let s := suffix path
  if s = ".json" then some .json
  else if s = ".yaml" ∨ s = ".yml" then some .yaml
  else none

/-- Reads a configuration. -/
def config (files : Files) (path : Text) : Except Diagnostic Config :=
  match format? path with
  | none => .error (.plain ("unsupported file extension: " ++ path))
  | some format =>
    match files path with
    | .refused reason => .error (notOpened path reason)
    | .directory =>
      let cause : Diagnostic :=
        match format with
        | .json => .within "json.Decode" (.plain "EOF")
        | .yaml => .within "io.ReadAll" (.plain (directoryRead path))
      .error (.within path cause)
    | .text t =>
      match Config.parse format t with
      | .ok c => .ok c
      | .error e => .error (.within path e.diagnostic)

/-- The operators and flags to start from: those of a configuration, if one is named. -/
def environment (files : Files) (path : Text) : Except Diagnostic Dialect :=
  if path.isEmpty then Config.standard.dialect
  else
    match files.config path with
    | .ok c => c.dialect
    | .error e => .error e

/-- The lines of a program. -/
def cursor (files : Files) (path : Text) : Except Diagnostic Cursor :=
  match files path with
  | .refused reason => .error (notOpened path reason)
  | .directory => .ok (.ofLines [] (.failure (directoryRead path)))
  | .text t => .ok (.ofText t)

end Files

/-! ## Trees of files -/

/-- Some files by their names, relative to a directory that holds nothing else. -/
abbrev FileTree := List (Text × Text)

namespace FileTree

/-- The parts of a path that count; `seen` are those before it in reverse. A step upwards takes one
away. -/
def resolve (seen : List Text) : List Text → List Text
  | [] => seen.reverse
  | part :: parts =>
    if part = [] ∨ part = "." then resolve seen parts
    else if part = ".." then resolve (seen.drop 1) parts
    else resolve (part :: seen) parts

def parts (path : Text) : List Text :=
  resolve [] (path.splitOn (.char '/'))

/-- Whether a path says that it is a directory. -/
def saysDirectory (path : Text) : Bool :=
  match path.splitOn (.char '/') |>.getLast? with
  | some last => last = [] || last = "." || last = ".."
  | none => false

/-- What is found under a path. -/
def files (tree : FileTree) : Files := fun path =>
  let wanted := parts path
  if path.isEmpty then .refused "no such file or directory"
  else
    match tree.find? fun f => parts f.1 = wanted with
    | some f => if saysDirectory path then .refused "not a directory" else .text f.2
    | none =>
      if tree.any fun f => wanted.isPrefixOf (parts f.1) then .directory
      else if wanted.isEmpty then .directory
      else if tree.any fun f => (parts f.1).isPrefixOf wanted then .refused "not a directory"
      else .refused "no such file or directory"

end FileTree

end PrologText
