import PrologText.CommandLine.Prompt

/-!
# The program

Reads the files that the command line names, runs it and writes what it leaves behind.
-/

namespace PrologText.Main

/-- Writes a text as its bytes. -/
def write (stream : IO.FS.Stream) (t : Text) : IO Unit := do
  stream.write (ByteArray.mk t.bytes.toArray)
  stream.flush

/-- A name as the system knows it. -/
def systemName (path : Text) : String :=
  String.ofList (path.map Glyph.code)

/-- What is found under a name. -/
def open? (path : Text) : IO Opened := do
  try
    let bytes ← IO.FS.readBinFile (systemName path)
    return .text (Text.ofBytes bytes.toList)
  catch
    | .noFileOrDirectory .. => return .refused "no such file or directory"
    | .inappropriateType .. => return .directory
    | .permissionDenied .. => return .refused "permission denied"
    | e => return .refused e.toString

/-- The names of files on a command line. -/
def names (arguments : List Text) : List Text :=
  match Options.parse arguments with
  | .ok o => (if o.config.isEmpty then [] else [o.config]) ++ o.files
  | .error _ => []

/-- Goes on with a dialogue; `fresh` tells that no line of a sentence has been typed. -/
partial def converse (d : Dialogue) (fresh : Bool) : IO UInt32 := do
  let stdout ← IO.getStdout
  match d.turn with
  | .asks =>
    write stdout (if fresh then "?- " else "|    ")
    let line ← (← IO.getStdin).getLine
    if line.isEmpty then converse d.close false else converse (d.addLine line) false
  | .speaks out err next =>
    write stdout out
    write (← IO.getStderr) err
    converse next true
  | .ends status out err =>
    write stdout out
    write (← IO.getStderr) err
    return status.toUInt32

/-- Does what a run comes to. -/
def conclude : Conclusion → IO UInt32
  | .exit r => do
    write (← IO.getStdout) r.stdout
    let log : Text := r.log.flatMap fun line => line ++ (Text.ofString "\n")
    write (← IO.getStderr) (r.stderr ++ log)
    return r.status.toUInt32
  | .serve address _ => do
    write (← IO.getStderr) ("cannot listen on " ++ address ++ "\n")
    return 1
  | .prompt env canonical => converse (.start env canonical) true

end PrologText.Main

def main (arguments : List String) : IO UInt32 := do
  let texts := arguments.map PrologText.Text.ofString
  let found ← (PrologText.Main.names texts).mapM fun path => do
    return (path, ← PrologText.Main.open? path)
  let files : PrologText.Files := fun path =>
    (found.lookup path).getD (.refused "no such file or directory")
  let terminal ← (← IO.getStdin).isTty
  PrologText.Main.conclude (PrologText.CommandLine.run files terminal texts)
