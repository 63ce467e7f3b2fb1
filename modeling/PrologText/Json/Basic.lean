import PrologText.Number.Binary64
import PrologText.Text.Basic

/-!
# JSON values

The values that terms, sentences and errors are projected onto for output.
-/

namespace PrologText

/-- A JSON value. Integers and floating point numbers are kept apart, and the members of an object
have no order of their own: they are written by ascending name. -/
inductive Json where
  | integer (value : Int)
  | float (value : Binary64)
  | text (value : Text)
  | array (items : List Json)
  | object (members : List (String × Json))
deriving Inhabited

namespace Json

instance : Coe String Json := ⟨fun s => .text s⟩

/-- An array of texts. -/
def texts (ts : List Text) : Json :=
  .array (ts.map .text)

end Json

end PrologText
