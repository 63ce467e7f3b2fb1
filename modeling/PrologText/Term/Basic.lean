import PrologText.Number.Binary64
import PrologText.Text.Basic

/-!
# Terms

The terms that sentences are read as. Lists are chains of cells that end in the empty list or in any
other term; the empty list is a constant of its own and not an atom.
-/

namespace PrologText

/-- An atom. The mark tells that it was written between single quotes and does not take part in
comparisons. -/
structure Atom where
  name : Text
  quoted : Bool
deriving DecidableEq, Inhabited

/-- A variable: how it was spelt and which one it is. -/
structure Variable where
  name : Text
  id : Nat
deriving DecidableEq, Inhabited

inductive Term where
  | atom (a : Atom)
  /-- An integer of 64 bits. -/
  | integer (value : Int64)
  /-- An integer of any size; reading yields these only outside the range of 64 bits. -/
  | bigInteger (value : Int)
  | float (value : Binary64)
  | string (text : Text)
  | var (v : Variable)
  | compound (functor : Atom) (args : List Term)
  | nil
  | cons (head tail : Term)
deriving Inhabited

namespace Atom

/-- An atom written without quotes. -/
def plain (name : Text) : Atom :=
  ⟨name, false⟩

/-- The atom `{}`. -/
def braces : Atom :=
  plain "\x7b\x7d"

end Atom

namespace Term

/-- The list of some elements before a tail. -/
def ofList (elements : List Term) (tail : Term) : Term :=
  elements.foldr cons tail

/-- The elements of a list and the term it ends in; any other term has no elements. -/
def elements : Term → List Term × Term
  | cons head tail =>
    let (rest, last) := elements tail
    (head :: rest, last)
  | t => ([], t)

/-- A term in braces. -/
def inBraces (t : Term) : Term :=
  compound .braces [t]

/-- Whether an integer fits into 64 bits. -/
def FitsInt64 (n : Int) : Prop :=
  Int64.minValue.toInt ≤ n ∧ n ≤ Int64.maxValue.toInt

instance (n : Int) : Decidable (FitsInt64 n) :=
  inferInstanceAs (Decidable (_ ∧ _))

/-- The term of an integer: of 64 bits if it fits. -/
def ofInt (n : Int) : Term :=
  if FitsInt64 n then integer (.ofInt n) else bigInteger n

/-- The number with the opposite sign; `none` for a term that is no number. -/
def negate? : Term → Option Term
  | integer v => some (if v = Int64.minValue then bigInteger (-v.toInt) else integer (-v))
  | bigInteger n => some (ofInt (-n))
  | float x => some (float x.negate)
  | _ => none

/-- Whether two atoms, two big integers or two variables are the same; other terms are not
compared. -/
def same : Term → Term → Bool
  | atom a, atom b => a.name = b.name
  | bigInteger m, bigInteger n => m = n
  | var v, var w => v.id = w.id
  | _, _ => false

end Term

end PrologText
