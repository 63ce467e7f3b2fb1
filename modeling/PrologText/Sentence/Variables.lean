import PrologText.Term.Basic

/-!
# The variables of a sentence

Within a sentence every spelling of a variable stands for one variable, and every `_` for one of its
own. Variables are numbered in the order in which they are met.
-/

namespace PrologText

/-- A named variable of a sentence and how often it has been met. -/
structure Binding where
  var : Variable
  count : Nat
deriving DecidableEq

/-- The named variables met so far, in order, and the number given to the last variable of all. -/
structure Bindings where
  entries : List Binding
  issued : Nat
deriving DecidableEq

namespace Bindings

/-- No variables, with the next one to be numbered after `issued`. -/
def startingAfter (issued : Nat) : Bindings :=
  ⟨[], issued⟩

/-- Counts one more occurrence of a name. -/
def count (name : Text) (entries : List Binding) : List Binding :=
  entries.map fun b => if b.var.name = name then { b with count := b.count + 1 } else b

/-- The variable of a name: the one met before, or a new one. -/
def named (b : Bindings) (name : Text) : Variable × Bindings :=
  match b.entries.find? (·.var.name = name) with
  | some known => (known.var, { b with entries := count name b.entries })
  | none =>
    let v : Variable := ⟨name, b.issued + 1⟩
    (v, ⟨b.entries ++ [⟨v, 1⟩], v.id⟩)

/-- A new variable without a name. -/
def anonymous (b : Bindings) : Variable × Bindings :=
  let v : Variable := ⟨"_", b.issued + 1⟩
  (v, { b with issued := v.id })

def namedVariables (b : Bindings) : List Variable :=
  b.entries.map (·.var)

/-- The variables met once, apart from those that are spelt with an underscore in front. -/
def singletons (b : Bindings) : List Variable :=
  (b.entries.filter fun e => e.count = 1 ∧ ¬e.var.name.startsWith "_").map (·.var)

end Bindings

end PrologText
