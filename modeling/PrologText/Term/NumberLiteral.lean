import PrologText.Number.FloatText
import PrologText.Term.Basic
import PrologText.Text.Quoted

/-!
# Number literals

Digits to terms. Underscores may stand anywhere among the digits and count for nothing.
-/

namespace PrologText

/-- Why digits are no number. -/
inductive NumberError where
  | integer (digits : Text) (base : Nat)
  | float (digits : Text) (reason : Binary64.Unreadable)
deriving DecidableEq

namespace NumberLiteral

def withoutUnderscores (t : Text) : Text :=
  t.filter (· ≠ .char '_')

/-- The value of digits in a base. -/
def natural? (base : Nat) (t : Text) : Option Nat :=
  if t.isEmpty then none
  else (t.mapM fun g => Positional.digitValue? base g.code).map (Positional.value base)

/-- The value of digits in a base after an optional sign. -/
def integer? (base : Nat) : Text → Option Int
  | .char '+' :: t => (natural? base t).map fun n => n
  | .char '-' :: t => (natural? base t).map fun n => -n
  | t => (natural? base t).map fun n => n

end NumberLiteral

namespace Term

/-- The integer that digits in a base stand for. -/
def ofDigits (base : Nat) (digits : Text) : Except NumberError Term :=
  match NumberLiteral.integer? base (NumberLiteral.withoutUnderscores digits) with
  | none => .error (.integer digits base)
  | some n => .ok (if base ≤ 36 then ofInt n else bigInteger n)

/-- The floating point number that a text stands for. -/
def ofFloatText (digits : Text) : Except NumberError Term :=
  match Binary64.parse (NumberLiteral.withoutUnderscores digits) with
  | .error reason => .error (.float digits reason)
  | .ok x => .ok (float x)

end Term

namespace NumberError

def message : NumberError → Text
  | integer digits base =>
    "invalid integer " ++ digits.shown ++ " in base " ++ Positional.decimal base
  | float digits reason =>
    let why : Text := match reason with
      | .malformed => "invalid syntax"
      | .outOfRange => "value out of range"
    "invalid float " ++ digits.shown ++ ": strconv.ParseFloat: parsing "
      ++ Text.shown (NumberLiteral.withoutUnderscores digits) ++ ": " ++ why

end NumberError

end PrologText
