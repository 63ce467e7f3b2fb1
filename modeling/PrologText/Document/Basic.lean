import PrologText.Text.Basic

/-!
# Documents

The value that a configuration text stands for. Numbers are kept as they are written.
-/

namespace PrologText

inductive Document where
  | null
  | bool (value : Bool)
  | number (literal : Text)
  | text (value : Text)
  | list (items : List Document)
  | map (members : List (Text × Document))
deriving Inhabited

end PrologText
