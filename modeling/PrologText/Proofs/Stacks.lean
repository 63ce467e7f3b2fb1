import PrologText.Proofs.Course

/-!
# Reading on two stacks

Operators can be read with a stack of operands and a stack of operators that has a mark at its
bottom, for each open bracket. `StackReading` is a reader of this kind. It gets stuck where a stack
does not hold what is to be taken from it, as it does at a token that cannot come. `Reading.stacked`
are the stacks that a reading stands for.
-/

namespace PrologText

/-- The outcome of an action that can get stuck. -/
inductive Attempt (α : Type) where
  | ok (x : α)
  | fault (e : SyntaxError)
  | stuck

namespace Attempt

variable {α β : Type}

def bind (f : α → Attempt β) : Attempt α → Attempt β
  | ok x => f x
  | fault e => fault e
  | stuck => stuck

def map (f : α → β) : Attempt α → Attempt β :=
  bind fun x => ok (f x)

def ofExcept : Except SyntaxError α → Attempt α
  | .ok x => ok x
  | .error e => fault e

end Attempt

/-! ## The stacks -/

inductive Frame where
  /-- The bottom of the operators. -/
  | terminal
  | prefixOp (op : Operator) (token : Token)
  | infixOp (op : Operator) (token : Token)

namespace Frame

/-- Gives an operator its arguments, the last operands. -/
def reduce : Frame → List Operand → Attempt (List Operand)
  | prefixOp op token, right :: operands =>
    (Attempt.ofExcept ((Pending.prefixOp op token).apply right)).map (· :: operands)
  | infixOp op token, right :: left :: operands =>
    (Attempt.ofExcept ((Pending.infixOp left op token).apply right)).map (· :: operands)
  | _, _ => .stuck

end Frame

/-- The operands and operators of an expression, last first. -/
structure Stacks where
  operands : List Operand
  frames : List Frame

namespace Stacks

def empty : Stacks :=
  ⟨[], [.terminal]⟩

def push (s : Stacks) (x : Operand) : Stacks :=
  { s with operands := x :: s.operands }

def pop (s : Stacks) : Attempt (Operand × Stacks) :=
  match s.operands with
  | [] => .stuck
  | x :: operands => .ok (x, { s with operands })

/-- Gives all operators down to the bottom their arguments. -/
def reduceAll (operands : List Operand) : List Frame → Attempt Stacks
  | [] => .stuck
  | .terminal :: frames => .ok ⟨operands, .terminal :: frames⟩
  | f :: frames => (f.reduce operands).bind (reduceAll · frames)

/-- Gives those operators their arguments that bind tighter than the operator `op`, which is the
token `t`. -/
def reduceTighter (op : Operator) (t : Token) (operands : List Operand) :
    List Frame → Attempt Stacks
  | [] => .stuck
  | .terminal :: frames => .ok ⟨operands, .terminal :: frames⟩
  | .prefixOp before token :: frames =>
    if op.leftBound < before.priority then .ok ⟨operands, .prefixOp before token :: frames⟩
    else (Frame.reduce (.prefixOp before token) operands).bind (reduceTighter op t · frames)
  | .infixOp before token :: frames =>
    if op.leftBound < before.priority then
      if before.priority = op.priority ∧ before.specifier = .xfx ∧ op.specifier = .xfx then
        .fault ⟨.nonAssociative token.toAtom t.toAtom op.priority, t.place, none⟩
      else .ok ⟨operands, .infixOp before token :: frames⟩
    else (Frame.reduce (.infixOp before token) operands).bind (reduceTighter op t · frames)

/-- The term of a complete expression: the only operand once no operator is left. -/
def finish (s : Stacks) : Attempt Term :=
  (reduceAll s.operands s.frames).bind fun
    | ⟨[x], _⟩ => .ok x.term
    | _ => .stuck

end Stacks

/-! ## Reading -/

/-- What a reading on stacks expects next. -/
inductive Awaited where
  | operand
  | operator
  | arguments (functor : Atom)
  | listStart
  | bracesStart
  | signed (op : Operator) (token : Token)

/-- A sentence read in part, on stacks. -/
structure StackReading where
  /-- The open enclosures, innermost first, each with the stacks around it. -/
  outer : List (Enclosure × Stacks)
  inner : Stacks
  expects : Awaited
  names : Bindings

/-- What one token makes of a reading on stacks. -/
inductive StackStep where
  | more (next : StackReading)
  | done (term : Term) (names : Bindings)
  | endOfInput
  | fault (e : SyntaxError)
  | stuck

namespace StackStep

def ofAttempt : Attempt StackReading → StackStep
  | .ok r => more r
  | .fault e => fault e
  | .stuck => stuck

def faultAt (cause : SyntaxCause) (t : Token) : StackStep :=
  fault ⟨cause, t.place, none⟩

end StackStep

namespace StackReading

def start (issued : Nat) : StackReading :=
  ⟨[], .empty, .operand, .startingAfter issued⟩

def enclosure? (r : StackReading) : Option Enclosure :=
  r.outer.head?.map (·.1)

/-- The kind of token that ends the innermost expression. -/
def terminal (r : StackReading) : TokenKind :=
  match r.enclosure? with
  | none => .stop
  | some e => .closing e.bracket

/-- Whether nothing has been read of the sentence. -/
def isEmpty (r : StackReading) : Bool :=
  match r.expects with
  | .operand => r.outer.isEmpty && r.inner.operands.isEmpty && r.inner.frames.length == 1
  | _ => false

def endsWith (flags : Flags) (r : StackReading) (t : Token) : Bool :=
  t.kind = r.terminal ||
    r.outer.isEmpty && flags.fullStopOptional && t.kind = .endOfFile && !r.isEmpty

def pushOperand (r : StackReading) (term : Term) : StackReading :=
  { r with inner := r.inner.push ⟨term, 0⟩, expects := .operator }

def enter (r : StackReading) (e : Enclosure) : StackReading :=
  { r with outer := (e, r.inner) :: r.outer, inner := .empty, expects := .operand }

/-- Makes an operand of the last operator, a prefix operator. -/
def prefixToAtom (r : StackReading) : Attempt StackReading :=
  match r.inner.frames with
  | .prefixOp _ token :: frames =>
    .ok { r with
      inner := ⟨⟨.atom token.toAtom, 0⟩ :: r.inner.operands, frames⟩, expects := .operator }
  | _ => .stuck

/-- Ends the expression at a token where an operand is expected. -/
def closeAtOperand (r : StackReading) (t : Token) : Attempt StackReading :=
  match r.inner.frames with
  | [] => .stuck
  | .terminal :: _ =>
    .fault ⟨if r.outer.isEmpty then .noTerm t.describe else .noArgument t.describe, t.place, none⟩
  | .infixOp _ token :: _ => .fault ⟨.noArgumentAfter token.toAtom t.describe, t.place, none⟩
  | .prefixOp _ token :: frames =>
    if r.outer.isEmpty && r.inner.operands.isEmpty && frames.length == 1 then
      .fault ⟨.prefixOperatorAlone token.toAtom t.describe, t.place, none⟩
    else r.prefixToAtom

/-- The term of the expression that a token ends. -/
def expression (r : StackReading) (t : Token) : Attempt Term :=
  match r.expects with
  | .operator => r.inner.finish
  | _ => (r.closeAtOperand t).bind fun next => next.inner.finish

/-- Ends the innermost expression, `term`. -/
def close (r : StackReading) (term : Term) : StackStep :=
  match r.outer with
  | [] => .done term r.names
  | (e, inner) :: outer =>
    .more { r with outer, inner := inner.push ⟨e.close term, 0⟩, expects := .operator }

def unexpectedEnd (r : StackReading) (t : Token) : StackStep :=
  if t.kind = .endOfFile ∧ r.isEmpty then .endOfInput
  else .faultAt (.unexpectedEnd t.kind r.terminal) t

/-- Takes an infix or postfix operator after an operand. -/
def takeInfix (r : StackReading) (op : Operator) (t : Token) : Attempt StackReading :=
  (Stacks.reduceTighter op t r.inner.operands r.inner.frames).bind fun s =>
    if op.specifier.fixity = .postfixOp then
      s.pop.bind fun (x, s) =>
        if op.leftBound < x.priority then .fault ⟨.priorityClash t.toAtom, t.place, none⟩
        else
          .ok { r with
            inner := s.push ⟨.compound t.toAtom [x.term], op.priority⟩, expects := .operator }
    else .ok { r with inner := ⟨s.operands, .infixOp op t :: s.frames⟩, expects := .operand }

/-- Takes a prefix operator where an operand is expected. -/
def takePrefix (d : Dialect) (r : StackReading) (op : Operator) (t : Token) :
    Attempt StackReading :=
  let waiting : StackReading :=
    { r with
      inner := ⟨r.inner.operands, .prefixOp op t :: r.inner.frames⟩, expects := .operand }
  match r.inner.frames, d.table.infixOperator? t.text with
  | .prefixOp before _ :: _, some infixOp =>
    if before.rightBound < op.priority then r.prefixToAtom.bind (·.takeInfix infixOp t)
    else .ok waiting
  | _, _ => .ok waiting

/-- Takes a name where an operand is expected. -/
def takeName (d : Dialect) (r : StackReading) (t : Token) : Attempt StackReading :=
  if t.functional then .ok { r with expects := .arguments t.toAtom }
  else
    match if t.kind = .atom then d.table.prefixOperator? t.text else none with
    | some op =>
      if t.text = "-" ∨ t.text = "+" then .ok { r with expects := .signed op t }
      else r.takePrefix d op t
    | none =>
      match r.inner.frames, d.table.infixOperator? t.text with
      | .prefixOp _ _ :: _, some op => r.prefixToAtom.bind (·.takeInfix op t)
      | _, _ => .ok (r.pushOperand (.atom t.toAtom))

/-- Ends an argument or element before a comma, or before the bar of a list. -/
def separate (r : StackReading) (next : Term → Enclosure) : Attempt StackReading :=
  (Stacks.reduceAll r.inner.operands r.inner.frames).bind fun s =>
    s.pop.bind fun (x, s) =>
      .ok { r with
        outer :=
          match r.outer with
          | [] => []
          | (_, waiting) :: outer => (next x.term, waiting) :: outer
        inner := s
        expects := .operand }

/-- Takes a token after an operand as an operator. -/
def takeSymbol (d : Dialect) (r : StackReading) (t : Token) : StackStep :=
  match d.table.infixOperator? t.text with
  | some op => .ofAttempt (r.takeInfix op t)
  | none => .faultAt (.noOperator t.describe) t

/-- Takes a token after an operand that does not end the expression. -/
def takeOperator (d : Dialect) (r : StackReading) (t : Token) : StackStep :=
  let asOperator : StackStep :=
    match d.table.infixOperator? t.text with
    | some op => .ofAttempt (r.takeInfix op t)
    | none => .faultAt (.noOperator t.describe) t
  match t.kind, r.enclosure? with
  | .comma, some (.arguments functor done) =>
    .ofAttempt (r.separate fun x => .arguments functor (x :: done))
  | .comma, some (.list done false) => .ofAttempt (r.separate fun x => .list (x :: done) false)
  | .comma, some (.list _ true) => .faultAt .manyTails t
  | .bar, some (.list done false) => .ofAttempt (r.separate fun x => .list (x :: done) true)
  | .bar, some (.list _ true) => .faultAt .misplacedBar t
  | .atom, _ | .comma, _ | .bar, _ => asOperator
  | .quotedAtom, _ =>
    if t.text = "," ∨ t.text = "|" then .faultAt (.noOperator t.describe) t else asOperator
  | .endOfFile, _ | .stop, _ => r.unexpectedEnd t
  | .closing b, _ => .faultAt (.unmatchedBracket b) t
  | _, _ => .faultAt (.noOperator t.describe) t

/-- Takes a token where an operand is expected that does not end the expression. -/
def takeOperand (d : Dialect) (r : StackReading) (t : Token) : StackStep :=
  match t.kind with
  | .endOfFile | .stop => r.unexpectedEnd t
  | .closing _ | .comma | .bar =>
    match r.inner.frames with
    | .prefixOp _ _ :: _ =>
      match r.prefixToAtom with
      | .ok next => next.takeOperator d t
      | .fault e => .fault e
      | .stuck => .stuck
    | _ => .faultAt (.noArgument t.describe) t
  | .integer _ | .float | .charCode =>
    match t.number? with
    | some (.ok n) => .more (r.pushOperand n)
    | some (.error e) => .faultAt (.badNumber e) t
    | none => .stuck
  | .variable =>
    let (v, names) := r.names.named t.text
    .more { r.pushOperand (.var v) with names }
  | .anonymousVariable =>
    let (v, names) := r.names.anonymous
    .more { r.pushOperand (.var v) with names }
  | .doubleQuoted => .more (r.pushOperand (d.flags.doubleQuotes.term t.text))
  | .backQuoted => .more (r.pushOperand (d.flags.backQuotes.term t.text))
  | .opening .round => .more (r.enter .group)
  | .opening .square => .more { r with expects := .listStart }
  | .opening .curly => .more { r with expects := .bracesStart }
  | .atom | .quotedAtom => .ofAttempt (r.takeName d t)
  | .comment => .stuck

/-- Takes a token where an operand or an operator is expected. -/
def take (d : Dialect) (r : StackReading) (t : Token) : StackStep :=
  if r.endsWith d.flags t then
    match r.expression t with
    | .ok term => r.close term
    | .fault e => .fault e
    | .stuck => .stuck
  else
    match r.expects with
    | .operator => r.takeOperator d t
    | _ => r.takeOperand d t

/-- Takes one token. -/
def step (d : Dialect) (r : StackReading) (t : Token) : StackStep :=
  match r.expects with
  | .operand | .operator => r.take d t
  | .arguments functor =>
    if t.kind = .opening .round then .more (r.enter (.arguments functor [])) else .stuck
  | .listStart =>
    if t.kind = .closing .square then .more (r.pushOperand .nil)
    else (r.enter (.list [] false)).take d t
  | .bracesStart =>
    if t.kind = .closing .curly then .more (r.pushOperand (.atom .braces))
    else (r.enter .braces).take d t
  | .signed op sign =>
    match if t.layoutBefore then none else t.number? with
    | some (.error e) => .faultAt (.badNumber e) t
    | some (.ok n) => .more (r.pushOperand (if sign.text = "-" then n.negate?.getD n else n))
    | none =>
      match r.takePrefix d op sign with
      | .ok next => next.take d t
      | .fault e => .fault e
      | .stuck => .stuck

/-- Takes tokens, with comments passed over, up to the first that ends the reading. -/
def feed (d : Dialect) (r : StackReading) : List Token → StackStep
  | [] => .more r
  | t :: ts =>
    if t.kind = .comment then r.feed d ts
    else
      match r.step d t with
      | .more next => next.feed d ts
      | s => s

end StackReading

/-! ## Stacks of a reading -/

namespace Pending

def frame : Pending → Frame
  | prefixOp op token => .prefixOp op token
  | infixOp _ op token => .infixOp op token

def left? : Pending → Option Operand
  | prefixOp _ _ => none
  | infixOp left _ _ => some left

end Pending

/-- The stacks of an expression: the operators that wait and the operands they have already, with
the operands `last` behind them. -/
def Stacks.ofPending (pending : List Pending) (last : List Operand) : Stacks :=
  ⟨last ++ pending.filterMap Pending.left?, pending.map Pending.frame ++ [.terminal]⟩

def Expectation.awaited : Expectation → Awaited
  | operand => .operand
  | operator _ => .operator
  | arguments functor => .arguments functor
  | listStart => .listStart
  | bracesStart => .bracesStart
  | signed op token => .signed op token

/-- The operand before an expected operator. -/
def Expectation.left? : Expectation → Option Operand
  | operator left => some left
  | _ => none

def Reading.stacked (r : Reading) : StackReading :=
  ⟨r.outer.map fun x => (x.1, .ofPending x.2 []), .ofPending r.pending r.expects.left?.toList,
    r.expects.awaited, r.names⟩

def Step.stacked : Step → StackStep
  | more next => .more next.stacked
  | done term names => .done term names
  | endOfInput => .endOfInput
  | fault e => .fault e
  | stuck => .stuck

def Fed.stacked : Fed → StackStep
  | more next => .more next.stacked
  | ended _ s _ => s.stacked

end PrologText
