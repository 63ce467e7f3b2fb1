import PrologText.Operator.Standard

/-!
# A store of tables

Several tables at once, each over an earlier one. A definition made in a table is seen by the tables
over it, also by those that were there before.
-/

namespace PrologText

/-- One table of a store: what was defined in it, and the place of the table below it. -/
structure Stored where
  layer : Layer
  readOnly : Bool
  parent : Option Nat

/-- Tables in the order in which they were added; a parent always comes before its tables. -/
structure TableStore where
  tables : List Stored

namespace TableStore

/-- The store that holds the standard table alone. -/
def standard : TableStore :=
  ⟨[⟨Table.standard.own, true, none⟩]⟩

/-- The layers from the table at a place down to the lowest. Parents come earlier, so that many
steps as there are tables are enough. -/
def layersFrom (s : TableStore) : Nat → Option Nat → List Layer
  | _, none => []
  | 0, some _ => []
  | steps + 1, some i =>
    match s.tables[i]? with
    | none => []
    | some t => t.layer :: layersFrom s steps t.parent

/-- The table at a place. -/
def get? (s : TableStore) (i : Nat) : Option Table :=
  s.tables[i]?.map fun t => ⟨t.layer, t.readOnly, s.layersFrom s.tables.length t.parent⟩

/-- Adds an empty, writable table over the one at `parent`. -/
def add (s : TableStore) (parent : Option Nat) : TableStore :=
  ⟨s.tables ++ [⟨⟨[], []⟩, false, parent⟩]⟩

def setReadOnly (s : TableStore) (i : Nat) (readOnly : Bool) : TableStore :=
  ⟨s.tables.modify i fun t => { t with readOnly }⟩

/-- Defines operators in the table at a place. -/
def define (s : TableStore) (i : Nat) (priority : Int) (specifier : Text) (names : List Text) :
    Except OperatorError TableStore :=
  match s.get? i with
  | none => .ok s
  | some t =>
    match t.define priority specifier names with
    | .error e => .error e
    | .ok t => .ok ⟨s.tables.modify i fun stored => { stored with layer := t.own }⟩

end TableStore

end PrologText
