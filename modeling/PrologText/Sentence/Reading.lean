import PrologText.Dialect
import PrologText.Sentence.Variables
import PrologText.SyntaxError

/-!
# Reading a sentence

A sentence is read token by token. Between two tokens the state of the reading is a `Reading`: the
brackets that are open, the operators that wait for an argument, and what is expected next.
`Reading.step` takes one token.

An operator in front of nothing that could be its argument is an atom; so is one that cannot take
the next prefix operator as its argument when that one can stand between two arguments.
-/

namespace PrologText

/-- A term that can be an argument of operators of at least its priority. -/
structure Operand where
  term : Term
  priority : Nat

/-- An operator that waits for its argument, or for its right one, and the token it was. -/
inductive Pending where
  | prefixOp (op : Operator) (token : Token)
  | infixOp (left : Operand) (op : Operator) (token : Token)

namespace Pending

def op : Pending → Operator
  | prefixOp op _ => op
  | infixOp _ op _ => op

def token : Pending → Token
  | prefixOp _ token => token
  | infixOp _ _ token => token

/-- Gives an operator the argument it waits for. -/
def apply (p : Pending) (right : Operand) : Except SyntaxError Operand :=
  let clash : SyntaxError := ⟨.priorityClash p.token.toAtom, p.token.place, none⟩
  match p with
  | prefixOp op token =>
    if op.rightBound < right.priority then .error clash
    else .ok ⟨.compound token.toAtom [right.term], op.priority⟩
  | infixOp left op token =>
    if op.leftBound < left.priority ∨ op.rightBound < right.priority then .error clash
    else .ok ⟨.compound token.toAtom [left.term, right.term], op.priority⟩

/-- Gives all of some operators, innermost first, the arguments they wait for. -/
def applyAll : List Pending → Operand → Except SyntaxError Operand
  | [], x => .ok x
  | p :: ps, x =>
    match p.apply x with
    | .error e => .error e
    | .ok y => applyAll ps y

/-- Whether neither of two operators can have the other as an argument although they stand between
their arguments. -/
def excludes (p : Pending) (op : Operator) : Bool :=
  match p with
  | prefixOp _ _ => false
  | infixOp _ q _ => q.priority = op.priority ∧ q.specifier = .xfx ∧ op.specifier = .xfx

/-- Gives those of some operators their argument that bind tighter than the operator `op`, a token
after that argument. What is left are the operators that go on waiting and the left argument of
`op`. -/
def applyTighter (op : Operator) (token : Token) :
    List Pending → Operand → Except SyntaxError (List Pending × Operand)
  | [], x => .ok ([], x)
  | p :: ps, x =>
    if op.leftBound < p.op.priority then
      if p.excludes op then
        .error ⟨.nonAssociative p.token.toAtom token.toAtom op.priority, token.place, none⟩
      else .ok (p :: ps, x)
    else
      match p.apply x with
      | .error e => .error e
      | .ok y => applyTighter op token ps y

end Pending

/-- An open bracket with the terms that are complete in it, last first. -/
inductive Enclosure where
  /-- Parentheses around one term. -/
  | group
  /-- Braces around one term. -/
  | braces
  /-- The arguments of a compound term. -/
  | arguments (functor : Atom) (done : List Term)
  /-- The elements of a list, and after the bar its tail. -/
  | list (done : List Term) (afterBar : Bool)

namespace Enclosure

/-- The bracket that an enclosure ends with. -/
def bracket : Enclosure → Bracket
  | group | arguments _ _ => .round
  | braces => .curly
  | list _ _ => .square

/-- The term that an enclosure makes, given the last term in it. -/
def close (last : Term) : Enclosure → Term
  | group => last
  | braces => last.inBraces
  | arguments functor done => .compound functor (last :: done).reverse
  | list done false => .ofList (last :: done).reverse .nil
  | list done true => .ofList done.reverse last

end Enclosure

/-- What a reading expects next. -/
inductive Expectation where
  /-- An operand, or a prefix operator before one. -/
  | operand
  /-- An operator after an operand, or the end of the expression. -/
  | operator (left : Operand)
  /-- The parenthesis that a functor has directly after it. -/
  | arguments (functor : Atom)
  /-- An element of a list, or its end. -/
  | listStart
  /-- A term in braces, or their end. -/
  | bracesStart
  /-- A number that belongs to a sign, or what follows the sign if it is an operator. -/
  | signed (op : Operator) (token : Token)

/-- A sentence read in part. -/
structure Reading where
  /-- The open enclosures, innermost first, each with the operators that wait for what it makes. -/
  outer : List (Enclosure × List Pending)
  /-- The operators that wait inside the innermost enclosure, last first. -/
  pending : List Pending
  expects : Expectation
  names : Bindings

/-- What one token makes of a reading. -/
inductive Step where
  | more (next : Reading)
  /-- The sentence is complete. -/
  | done (term : Term) (names : Bindings)
  /-- The text ends before a sentence starts. -/
  | endOfInput
  | fault (e : SyntaxError)
  /-- A token that cannot come here: a comment, or any but a parenthesis after a functor. -/
  | stuck

namespace Step

/-- A fault at a token. -/
def faultAt (cause : SyntaxCause) (t : Token) : Step :=
  .fault ⟨cause, t.place, none⟩

def ofExcept : Except SyntaxError Reading → Step
  | .error e => .fault e
  | .ok r => .more r

end Step

namespace Reading

/-- A reading at the start of a sentence, with the next variable to be numbered after `issued`. -/
def start (issued : Nat) : Reading :=
  ⟨[], [], .operand, .startingAfter issued⟩

/-- Whether a reading is at the top level of the sentence. -/
def atTop (r : Reading) : Bool :=
  r.outer.isEmpty

/-- The innermost enclosure. -/
def enclosure? (r : Reading) : Option Enclosure :=
  r.outer.head?.map (·.1)

/-- The kind of token that ends the innermost expression. -/
def terminal (r : Reading) : TokenKind :=
  match r.enclosure? with
  | none => .stop
  | some e => .closing e.bracket

/-- Whether nothing has been read of the sentence. -/
def isEmpty (r : Reading) : Bool :=
  match r.expects with
  | .operand => r.outer.isEmpty && r.pending.isEmpty
  | _ => false

/-- Whether a token ends the innermost expression. -/
def endsWith (flags : Flags) (r : Reading) (t : Token) : Bool :=
  t.kind = r.terminal ||
    r.atTop && flags.fullStopOptional && t.kind = .endOfFile && !r.isEmpty

/-- The reading after an operand that binds to nothing else. -/
def withOperand (r : Reading) (term : Term) : Reading :=
  { r with expects := .operator ⟨term, 0⟩ }

/-- The reading inside an enclosure. -/
def enter (r : Reading) (e : Enclosure) : Reading :=
  { r with outer := (e, r.pending) :: r.outer, pending := [], expects := .operand }

/-- The expression that a token ends: its last operand and the operators that wait for it. -/
def lastOperand (r : Reading) (t : Token) : Except SyntaxError (List Pending × Operand) :=
  match r.expects, r.pending with
  | .operator left, pending => .ok (pending, left)
  | _, .prefixOp _ token :: pending =>
    if r.atTop && pending.isEmpty then
      .error ⟨.prefixOperatorAlone token.toAtom t.describe, t.place, none⟩
    else .ok (pending, ⟨.atom token.toAtom, 0⟩)
  | _, .infixOp _ _ token :: _ =>
    .error ⟨.noArgumentAfter token.toAtom t.describe, t.place, none⟩
  | _, [] =>
    let got := t.describe
    .error ⟨if r.atTop then .noTerm got else .noArgument got, t.place, none⟩

/-- The term of the expression that a token ends. -/
def expression (r : Reading) (t : Token) : Except SyntaxError Term :=
  match r.lastOperand t with
  | .error e => .error e
  | .ok (pending, last) =>
    match Pending.applyAll pending last with
    | .error e => .error e
    | .ok whole => .ok whole.term

/-- Ends the innermost expression, `term`. -/
def close (r : Reading) (term : Term) : Step :=
  match r.outer with
  | [] => .done term r.names
  | (e, pending) :: outer =>
    .more { r with outer, pending, expects := .operator ⟨e.close term, 0⟩ }

/-- A token before which a sentence cannot end. -/
def unexpectedEnd (r : Reading) (t : Token) : Step :=
  if t.kind = .endOfFile ∧ r.isEmpty then .endOfInput
  else .faultAt (.unexpectedEnd t.kind r.terminal) t

/-- Takes an infix or postfix operator after the operand `left`. -/
def takeInfix (r : Reading) (left : Operand) (op : Operator) (t : Token) :
    Except SyntaxError Reading :=
  match Pending.applyTighter op t r.pending left with
  | .error e => .error e
  | .ok (pending, left) =>
    if op.specifier.fixity = .postfixOp then
      if op.leftBound < left.priority then .error ⟨.priorityClash t.toAtom, t.place, none⟩
      else
        let whole : Operand := ⟨.compound t.toAtom [left.term], op.priority⟩
        .ok { r with pending, expects := .operator whole }
    else .ok { r with pending := .infixOp left op t :: pending, expects := .operand }

/-- Takes a prefix operator where an operand is expected. -/
def takePrefix (d : Dialect) (r : Reading) (op : Operator) (t : Token) :
    Except SyntaxError Reading :=
  let waiting : Reading := { r with pending := .prefixOp op t :: r.pending, expects := .operand }
  match r.pending, d.table.infixOperator? t.text with
  | .prefixOp before token :: pending, some infixOp =>
    if before.rightBound < op.priority then
      takeInfix { r with pending } ⟨.atom token.toAtom, 0⟩ infixOp t
    else .ok waiting
  | _, _ => .ok waiting

/-- Takes a name where an operand is expected. -/
def takeName (d : Dialect) (r : Reading) (t : Token) : Except SyntaxError Reading :=
  if t.functional then .ok { r with expects := .arguments t.toAtom }
  else
    match if t.kind = .atom then d.table.prefixOperator? t.text else none with
    | some op =>
      if t.text = "-" ∨ t.text = "+" then .ok { r with expects := .signed op t }
      else r.takePrefix d op t
    | none =>
      match r.pending, d.table.infixOperator? t.text with
      | .prefixOp _ token :: pending, some op =>
        takeInfix { r with pending } ⟨.atom token.toAtom, 0⟩ op t
      | _, _ => .ok (r.withOperand (.atom t.toAtom))

/-- Ends an argument or element before a comma, or before the bar of a list. -/
def separate (r : Reading) (left : Operand) (next : Term → Enclosure) :
    Except SyntaxError Reading :=
  match Pending.applyAll r.pending left with
  | .error e => .error e
  | .ok whole =>
    .ok { r with
      outer :=
        match r.outer with
        | [] => []
        | (_, waiting) :: outer => (next whole.term, waiting) :: outer
      pending := []
      expects := .operand }

/-- Takes a token after the operand `left` that does not end the expression. -/
def takeOperator (d : Dialect) (r : Reading) (left : Operand) (t : Token) : Step :=
  let asOperator : Step :=
    match d.table.infixOperator? t.text with
    | some op => .ofExcept (r.takeInfix left op t)
    | none => .faultAt (.noOperator t.describe) t
  match t.kind, r.enclosure? with
  | .comma, some (.arguments functor done) =>
    .ofExcept (r.separate left fun x => .arguments functor (x :: done))
  | .comma, some (.list done false) => .ofExcept (r.separate left fun x => .list (x :: done) false)
  | .comma, some (.list _ true) => .faultAt .manyTails t
  | .bar, some (.list done false) => .ofExcept (r.separate left fun x => .list (x :: done) true)
  | .bar, some (.list _ true) => .faultAt .misplacedBar t
  | .atom, _ | .comma, _ | .bar, _ => asOperator
  | .quotedAtom, _ =>
    if t.text = "," ∨ t.text = "|" then .faultAt (.noOperator t.describe) t else asOperator
  | .endOfFile, _ | .stop, _ => r.unexpectedEnd t
  | .closing b, _ => .faultAt (.unmatchedBracket b) t
  | _, _ => .faultAt (.noOperator t.describe) t

/-- Takes a token where an operand is expected that does not end the expression. -/
def takeOperand (d : Dialect) (r : Reading) (t : Token) : Step :=
  match t.kind with
  | .endOfFile | .stop => r.unexpectedEnd t
  | .closing _ | .comma | .bar =>
    match r.pending with
    | .prefixOp _ token :: pending =>
      takeOperator d { r with pending } ⟨.atom token.toAtom, 0⟩ t
    | _ => .faultAt (.noArgument t.describe) t
  | .integer _ | .float | .charCode =>
    match t.number? with
    | some (.ok n) => .more (r.withOperand n)
    | some (.error e) => .faultAt (.badNumber e) t
    | none => .stuck
  | .variable =>
    let (v, names) := r.names.named t.text
    .more { r with names, expects := .operator ⟨.var v, 0⟩ }
  | .anonymousVariable =>
    let (v, names) := r.names.anonymous
    .more { r with names, expects := .operator ⟨.var v, 0⟩ }
  | .doubleQuoted => .more (r.withOperand (d.flags.doubleQuotes.term t.text))
  | .backQuoted => .more (r.withOperand (d.flags.backQuotes.term t.text))
  | .opening .round => .more (r.enter .group)
  | .opening .square => .more { r with expects := .listStart }
  | .opening .curly => .more { r with expects := .bracesStart }
  | .atom | .quotedAtom => .ofExcept (r.takeName d t)
  | .comment => .stuck

/-- Takes a token where an operand or an operator is expected. -/
def take (d : Dialect) (r : Reading) (t : Token) : Step :=
  if r.endsWith d.flags t then
    match r.expression t with
    | .error e => .fault e
    | .ok term => r.close term
  else
    match r.expects with
    | .operator left => r.takeOperator d left t
    | _ => r.takeOperand d t

/-- What the first token after an opening bracket, a functor or a sign decides. -/
inductive Settled where
  /-- The token belongs to what came before it. -/
  | taken (s : Step)
  /-- The token is to be taken by a reading that expects an operand or an operator. -/
  | ready (r : Reading)

/-- Decides by a token what came before it. -/
def settle (d : Dialect) (r : Reading) (t : Token) : Settled :=
  match r.expects with
  | .operand | .operator _ => .ready r
  | .arguments functor =>
    .taken (if t.kind = .opening .round then .more (r.enter (.arguments functor [])) else .stuck)
  | .listStart =>
    if t.kind = .closing .square then .taken (.more (r.withOperand .nil))
    else .ready (r.enter (.list [] false))
  | .bracesStart =>
    if t.kind = .closing .curly then .taken (.more (r.withOperand (.atom .braces)))
    else .ready (r.enter .braces)
  | .signed op sign =>
    match if t.layoutBefore then none else t.number? with
    | some (.error e) => .taken (.faultAt (.badNumber e) t)
    | some (.ok n) =>
      .taken (.more (r.withOperand (if sign.text = "-" then n.negate?.getD n else n)))
    | none =>
      match r.takePrefix d op sign with
      | .error e => .taken (.fault e)
      | .ok next => .ready next

/-- Takes one token. -/
def step (d : Dialect) (r : Reading) (t : Token) : Step :=
  match r.settle d t with
  | .taken s => s
  | .ready next => next.take d t

end Reading

end PrologText
