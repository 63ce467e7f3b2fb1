import PrologText.Operator.Table

/-!
# The standard operators

The read-only table that sessions start from.
-/

namespace PrologText.Table

/-- Operators of one priority and specifier. -/
def group (priority : Nat) (specifier : Specifier) (names : List String) : List Operator :=
  names.map fun (name : String) => ⟨name, priority, specifier⟩

def standardPrefixes : Slot :=
  [group 1200 .fx [":-", "?-"],
    group 1150 .fx ["dynamic", "discontiguous", "initialization", "meta_predicate",
      "module_transparent", "multifile", "public", "thread_local", "table"],
    group 900 .fy ["\\+"],
    group 500 .fx ["?"],
    group 200 .fy ["-", "+", "\\"],
    group 1 .fx ["$"]].flatten

def standardInfixes : Slot :=
  [group 1200 .xfx [":-", "-->"],
    group 1100 .xfy [";", "|"],
    group 1050 .xfy ["->", "*->"],
    group 1000 .xfy [","],
    group 700 .xfx ["=", "\\=", "==", "\\==", "@<", "@>", "@=<", "@>=", "=..", "is", "=:=", "=\\=",
      "<", ">", "=<", ">=", ">:<", ":<", "as"],
    group 500 .yfx ["+", "-", "/\\", "\\/", "xor"],
    group 400 .yfx ["*", "/", "//", "rdiv", "<<", ">>", "mod", "rem", "div", "divmod"],
    group 200 .xfx ["**"],
    group 200 .xfy ["^", ":"]].flatten

/-- The standard operators; definitions are made in tables over it. -/
def standard : Table :=
  ⟨⟨standardPrefixes, standardInfixes⟩, true, []⟩

end PrologText.Table
