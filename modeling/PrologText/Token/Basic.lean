import PrologText.Cursor
import PrologText.Term.NumberLiteral

/-!
# Tokens

The lexical units of a text.
-/

namespace PrologText

/-- A pair of brackets. -/
inductive Bracket where
  | round
  | square
  | curly
deriving DecidableEq

inductive TokenKind where
  | endOfFile
  | atom
  | quotedAtom
  | variable
  | anonymousVariable
  | integer (base : Nat)
  | float
  | charCode
  | backQuoted
  | doubleQuoted
  | opening (b : Bracket)
  | closing (b : Bracket)
  | comma
  | bar
  /-- The full stop that ends a sentence. -/
  | stop
  | comment
deriving DecidableEq, Inhabited

structure Token where
  kind : TokenKind
  /-- The text of the token: of quoted text what it stands for, of an integer the digits without the
  sign of the base. -/
  text : Text
  /-- Whether white space or a comment stands before the token. -/
  layoutBefore : Bool
  /-- Whether an opening parenthesis follows directly on a name. -/
  functional : Bool
  place : Place
deriving DecidableEq, Inhabited

namespace Bracket

def openingChar : Bracket → Char
  | round => '('
  | square => '['
  | curly => '\x7b'

def closingChar : Bracket → Char
  | round => ')'
  | square => ']'
  | curly => '\x7d'

end Bracket

namespace TokenKind

/-- A character between back quotes. -/
def inBackQuotes (c : Char) : Text :=
  [.char '\x60', .char c, .char '\x60']

/-- What tokens of a kind are called in messages. -/
def name : TokenKind → Text
  | endOfFile => "end of file"
  | atom => "atom"
  | quotedAtom => "quoted atom"
  | .variable => "variable"
  | anonymousVariable => "anonymous variable"
  | integer _ => "integer"
  | float => "float"
  | charCode => "character code"
  | backQuoted => "back quoted text"
  | doubleQuoted => "double quoted text"
  | opening b => inBackQuotes b.openingChar
  | closing b => inBackQuotes b.closingChar
  | comma => inBackQuotes ','
  | bar => inBackQuotes '|'
  | stop => "end of clause"
  | comment => "comment"

/-- Whether a token of the kind is called by its kind alone. -/
def isFixed : TokenKind → Bool
  | endOfFile | opening _ | closing _ | comma | bar | stop => true
  | _ => false

/-- Whether a token of the kind can be an operator. -/
def isName : TokenKind → Bool
  | atom | quotedAtom | comma | bar => true
  | _ => false

end TokenKind

namespace Token

/-- What a token is called in messages. -/
def describe (t : Token) : Text :=
  if t.kind.isFixed then t.kind.name
  else t.kind.name ++ " \x60" ++ t.text ++ "\x60"

/-- The atom of a name. -/
def toAtom (t : Token) : Atom :=
  ⟨t.text, t.kind = .quotedAtom⟩

/-- The number that a token stands for, or why it stands for none; `none` for other tokens. -/
def number? (t : Token) : Option (Except NumberError Term) :=
  match t.kind with
  | .integer base => some (Term.ofDigits base t.text)
  | .float => some (Term.ofFloatText t.text)
  | .charCode =>
    let c := (t.text.head?.map Glyph.code).getD Glyph.replacement
    some (.ok (.integer (.ofInt c.toNat)))
  | _ => none

end Token

end PrologText
