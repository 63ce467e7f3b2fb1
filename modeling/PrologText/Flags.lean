import PrologText.Diagnostic
import PrologText.Term.Canonical

/-!
# Flags

The flags that decide how a text is read, and the term that a quoted text is read as.
-/

namespace PrologText

/-- The term that a text between double quotes or back quotes is read as. -/
inductive QuoteKind where
  | codes
  | chars
  | atom
  | string
  /-- A kind that is not known; such texts are read as codes. -/
  | unknown (name : Text)
deriving DecidableEq, Inhabited

namespace QuoteKind

def ofText (t : Text) : QuoteKind :=
  if t = "codes" then codes
  else if t = "chars" then chars
  else if t = "atom" then atom
  else if t = "string" then string
  else unknown t

def name : QuoteKind → Text
  | codes => "codes"
  | chars => "chars"
  | atom => "atom"
  | string => "string"
  | unknown name => name

/-- The term of a quoted text. -/
def term (k : QuoteKind) (t : Text) : Term :=
  match k with
  | atom => .atom (.plain t)
  | string => .string t
  | chars => Term.ofList (t.map fun g => .atom (.plain [.char g.code])) .nil
  | codes | unknown _ => Term.ofList (t.map fun g => .integer (.ofInt g.code.toNat)) .nil

end QuoteKind

structure Flags where
  /-- Whether a backslash starts an escape sequence in quoted text. -/
  charEscapes : Bool
  doubleQuotes : QuoteKind
  backQuotes : QuoteKind
  /-- Whether the last sentence may end without a full stop. -/
  fullStopOptional : Bool
  /-- Whether comments are tokens of their own. -/
  keepComments : Bool
deriving DecidableEq, Inhabited

/-- Why a flag cannot be set. -/
inductive FlagError where
  | notAtom (value : Term)
  | unknownFlag (name : Text)
  | badValue (flag value : Text)

def FlagError.diagnostic : FlagError → Diagnostic
  | notAtom value =>
    .tagged "TypeError" [("type", "atom"), ("culprit", .text value.canonical)]
      (some (.plain ("flag value must be an atom: " ++ value.canonical)))
  | unknownFlag name =>
    .tagged "DomainError" [("domain", "prolog_flag"), ("culprit", .text name)]
      (some (.plain ("unknown prolog flag: " ++ name)))
  | badValue flag value =>
    .tagged "DomainError" [("domain", "flag_value"), ("culprit", .text (flag ++ "+" ++ value))]
      (some (.plain ("invalid value for flag " ++ flag ++ ": " ++ value.shown)))

namespace Flags

def standard : Flags where
  charEscapes := true
  doubleQuotes := .string
  backQuotes := .codes
  fullStopOptional := false
  keepComments := false

/-- Whether both kinds of quoted text have a known meaning; back quotes never mean an atom. -/
def validate (f : Flags) : Except FlagError Unit :=
  match f.doubleQuotes with
  | .unknown name => .error (.badValue "double_quotes" name)
  | _ =>
    match f.backQuotes with
    | .unknown name => .error (.badValue "back_quotes" name)
    | .atom => .error (.badValue "back_quotes" "atom")
    | _ => .ok ()

/-- The truth value that an atom stands for. -/
def switch? (t : Text) : Option Bool :=
  if t = "true" ∨ t = "on" then some true
  else if t = "false" ∨ t = "off" then some false
  else none

/-- Sets the flag of a name. Flags that would not be valid are not set. -/
def set (f : Flags) (name : Text) (value : Term) : Except FlagError Flags := do
  match value with
  | .atom v =>
    let next : Flags ←
      if name = "double_quotes" then pure { f with doubleQuotes := .ofText v.name }
      else if name = "back_quotes" then pure { f with backQuotes := .ofText v.name }
      else if name = "char_escapes" then
        match switch? v.name with
        | some b => pure { f with charEscapes := b }
        | none => throw (.badValue name v.name)
      else throw (.unknownFlag name)
    next.validate
    pure next
  | _ => throw (.notAtom value)

end Flags

end PrologText
