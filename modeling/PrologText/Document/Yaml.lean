import PrologText.Document.Yaml.Node

/-!
# YAML documents

Reading a document from YAML text: mappings and lists in block and in flow form, scalars with and
without quotes, and comments. Of several values in a text the first that is not null counts.
-/

namespace PrologText

/-- Why a YAML text has no document. -/
inductive YamlError where
  | malformed
  /-- It has a value that a document cannot have. -/
  | unwritable
deriving DecidableEq

/-- The document of a YAML text. A text without a value counts as null. -/
def Document.ofYaml (t : Text) : Except YamlError Document :=
  match (YamlMark.ofText? t).bind YamlNode.all? with
  | none => .error .malformed
  | some values =>
    match ((values.find? fun x => !x.isNull).getD .null).toDocument? with
    | some d => .ok d
    | none => .error .unwritable

end PrologText
