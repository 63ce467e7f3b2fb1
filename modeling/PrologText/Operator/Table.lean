import PrologText.Diagnostic
import PrologText.Operator.Basic
import PrologText.Text.Quoted

/-!
# Operator tables

A table is a layer of definitions over the layers of its ancestors. A name is looked up in the
table's own layer first; a definition of priority zero hides the ones below it. Prefix operators on
one side and infix and postfix operators on the other are defined independently of each other.
-/

namespace PrologText

/-- Definitions, at most one per name. -/
abbrev Slot := List Operator

namespace Slot

def get? (s : Slot) (name : Text) : Option Operator :=
  s.find? (·.name = name)

/-- Puts a definition in place of the one of the same name, or at the end. -/
def insert : Slot → Operator → Slot
  | [], op => [op]
  | o :: s, op => if o.name = op.name then op :: s else o :: insert s op

end Slot

/-- The definitions made in one table. -/
structure Layer where
  prefixes : Slot
  infixes : Slot
deriving Inhabited

/-- A table: its own layer, and those of its ancestors, nearest first. -/
structure Table where
  own : Layer
  readOnly : Bool
  ancestors : List Layer
deriving Inhabited

/-- Why operators cannot be defined. -/
inductive OperatorError where
  | priorityOutOfRange (priority : Int)
  | unknownSpecifier (specifier : Text)
  | readOnlyTable
  /-- The name of an operator that every text relies on. -/
  | reserved (name : Text)
  /-- A name that can be no operator of the kind asked for. -/
  | notAllowed (name : Text)
deriving DecidableEq

namespace OperatorError

/-- The permission that was missing: what was to be done, and to which operator. -/
def forbidden (action : String) (culprit : Text) : Diagnostic :=
  .tagged "PermissionError"
    [("action", action), ("type", "operator"), ("culprit", .text culprit)]
    (some (.plain ("cannot " ++ (action : Text) ++ " operator " ++ culprit.shown)))

def diagnostic : OperatorError → Diagnostic
  | priorityOutOfRange p =>
    .tagged "DomainError" [("domain", "operator_priority"), ("culprit", .integer p)]
      (some (.plain ("operator priority out of range: " ++ Positional.integer p)))
  | unknownSpecifier s =>
    .tagged "DomainError" [("domain", "operator_specifier"), ("culprit", .text s)]
      (some (.plain ("invalid operator specifier: " ++ s)))
  | readOnlyTable => forbidden "modify" "read only operator table"
  | reserved name => forbidden "modify" name
  | notAllowed name => forbidden "create" name

end OperatorError

namespace Table

def empty : Table :=
  ⟨⟨[], []⟩, false, []⟩

/-- An empty, writable table over `t`. -/
def derive (t : Table) : Table :=
  ⟨⟨[], []⟩, false, t.own :: t.ancestors⟩

/-- The layers in which a name is looked up, in order. -/
def layers (t : Table) : List Layer :=
  t.own :: t.ancestors

/-- The definition of a name as a prefix operator that counts, be it a deletion. -/
def prefixEntry? (t : Table) (name : Text) : Option Operator :=
  t.layers.findSome? (·.prefixes.get? name)

/-- The definition of a name as an infix or postfix operator that counts, be it a deletion. -/
def infixEntry? (t : Table) (name : Text) : Option Operator :=
  t.layers.findSome? (·.infixes.get? name)

/-- The prefix operator of a name. -/
def prefixOperator? (t : Table) (name : Text) : Option Operator :=
  (t.prefixEntry? name).filter (·.priority ≠ 0)

/-- The infix or postfix operator of a name. -/
def infixOperator? (t : Table) (name : Text) : Option Operator :=
  (t.infixEntry? name).filter (·.priority ≠ 0)

/-- Whether a name is an operator with a fixity other than `f`, prefix operators left aside. -/
def hasOtherFixity (t : Table) (f : Fixity) (name : Text) : Bool :=
  (t.infixOperator? name).any (·.specifier.fixity ≠ f)

/-- The names of operators, and the bar, that only some definitions may be given to. -/
def checkName (t : Table) (priority : Nat) (s : Specifier) (name : Text) :
    Except OperatorError Unit :=
  if name = "," then .error (.reserved name)
  else if name = "[]" ∨ name = "\x7b\x7d" then .error (.notAllowed name)
  else if name = "|" ∧ priority ≠ 0 ∧ (s.fixity ≠ .infixOp ∨ priority < 1001) then
    .error (.notAllowed name)
  else if priority ≠ 0 ∧ s.fixity ≠ .prefixOp ∧ t.hasOtherFixity s.fixity name then
    .error (.notAllowed name)
  else .ok ()

/-- Makes one definition. A deletion as infix leaves a postfix operator alone, and the other way
round. -/
def set (t : Table) (op : Operator) : Table :=
  if op.specifier.fixity = .prefixOp then
    { t with own := { t.own with prefixes := t.own.prefixes.insert op } }
  else if op.priority = 0 ∧ t.hasOtherFixity op.specifier.fixity op.name then t
  else { t with own := { t.own with infixes := t.own.infixes.insert op } }

/-- Defines operators, or deletes them with priority zero: all of the names or none. -/
def define (t : Table) (priority : Int) (specifier : Text) (names : List Text) :
    Except OperatorError Table :=
  if priority < 0 ∨ Operator.maxPriority < priority then .error (.priorityOutOfRange priority)
  else
    match Specifier.ofText? specifier with
    | none => .error (.unknownSpecifier specifier)
    | some s =>
      if t.readOnly then .error .readOnlyTable
      else
        match names.forM (t.checkName priority.toNat s) with
        | .error e => .error e
        | .ok () => .ok (names.foldl (fun t name => t.set ⟨name, priority.toNat, s⟩) t)

/-- The order in which operators are listed: higher priorities first, then by the bytes of the
names, then by specifier. -/
def listedBefore (a b : Operator) : Bool :=
  if a.priority ≠ b.priority then b.priority < a.priority
  else if a.name ≠ b.name then a.name.bytes ≤ b.name.bytes
  else a.specifier.name ≤ b.specifier.name

/-- The definitions of some slots that count, the first of each name. -/
def effective (slots : List Slot) : List Operator :=
  slots.foldr (fun s below => s.foldl Slot.insert below) []

/-- The operators of a table in listing order. -/
def operators (t : Table) : List Operator :=
  let ops := effective (t.layers.map (·.prefixes)) ++ effective (t.layers.map (·.infixes))
  (ops.filter (·.priority ≠ 0)).mergeSort listedBefore

end Table

end PrologText
