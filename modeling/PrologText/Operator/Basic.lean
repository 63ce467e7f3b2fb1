import PrologText.Text.Basic

/-!
# Operators

An operator is a name with a priority and a specifier. The specifier says on which sides the
arguments stand and how high their priorities may be.
-/

namespace PrologText

/-- Where the operator stands: before its argument, between its arguments or after its argument. -/
inductive Fixity where
  | prefixOp
  | infixOp
  | postfixOp
deriving DecidableEq

/-- The form of an operator. An argument at an `x` has a lower priority than the operator, one at a
`y` at most the same. -/
inductive Specifier where
  | xf
  | yf
  | fx
  | fy
  | xfx
  | xfy
  | yfx
deriving DecidableEq, Inhabited

namespace Specifier

def name : Specifier → String
  | xf => "xf"
  | yf => "yf"
  | fx => "fx"
  | fy => "fy"
  | xfx => "xfx"
  | xfy => "xfy"
  | yfx => "yfx"

def all : List Specifier :=
  [xf, yf, fx, fy, xfx, xfy, yfx]

/-- The specifier of a name. -/
def ofText? (t : Text) : Option Specifier :=
  all.find? fun s => Text.ofString s.name = t

def fixity : Specifier → Fixity
  | fx | fy => .prefixOp
  | xf | yf => .postfixOp
  | xfx | xfy | yfx => .infixOp

/-- The highest priorities of a left and a right argument of an operator of priority `p`; a side
without an argument has `-1`. -/
def bounds (p : Int) : Specifier → Int × Int
  | fx => (-1, p - 1)
  | fy => (-1, p)
  | xf => (p - 1, -1)
  | yf => (p, -1)
  | xfx => (p - 1, p - 1)
  | xfy => (p - 1, p)
  | yfx => (p, p - 1)

end Specifier

structure Operator where
  name : Text
  priority : Nat
  specifier : Specifier
deriving DecidableEq, Inhabited

namespace Operator

/-- The highest priority of an operator. -/
def maxPriority : Nat := 1200

/-- The highest priority of the left argument. -/
def leftBound (op : Operator) : Int :=
  (op.specifier.bounds op.priority).1

/-- The highest priority of the right argument. -/
def rightBound (op : Operator) : Int :=
  (op.specifier.bounds op.priority).2

end Operator

end PrologText
