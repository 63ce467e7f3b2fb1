import PrologText.Flags
import PrologText.Operator.Standard

/-!
# Dialects

What the reading of a text depends on besides the text.
-/

namespace PrologText

/-- The operators and the flags that a text is read with. -/
structure Dialect where
  table : Table
  flags : Flags

namespace Dialect

/-- A dialect with the flags of `d` and with definitions of its own over those of `d`. -/
def derive (d : Dialect) : Dialect :=
  ⟨d.table.derive, d.flags⟩

/-- The dialect over the standard operators with the standard flags. -/
def standard : Dialect :=
  derive ⟨.standard, .standard⟩

end Dialect

end PrologText
