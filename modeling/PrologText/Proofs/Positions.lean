import PrologText.Program.Consult
import PrologText.Proofs.BareTerms
import PrologText.Proofs.Course

/-!
# What is read depends neither on places nor on numbers

A reading keeps tokens, and with them the places where they stand, but only to report errors. It
numbers variables, but never looks at a number. Main statement: what a token makes of a reading
whose tokens have been moved to other places, and whose variables have higher numbers, is what it
makes of the reading itself, changed likewise (`Reading.step_recast`). White space before a token
counts at one point only, where the token can be a number that belongs to a sign; nothing that is
kept shows it.
-/

namespace PrologText

/-! ## Other places -/

namespace Token

/-- A token without its place. -/
def unplaced (t : Token) : Token :=
  { t with place := default }

/-- A token without its place and what stands before it. -/
def bare (t : Token) : Token :=
  { t with layoutBefore := false, place := default }

/-- A token at another place. -/
def shifted (f : Place → Place) (t : Token) : Token :=
  { t with place := f t.place }

/-- A token at another place, without what stands before it. -/
def moved (f : Place → Place) (t : Token) : Token :=
  { t with layoutBefore := false, place := f t.place }

variable (f : Place → Place) (t : Token)

@[simp] theorem kind_moved : (t.moved f).kind = t.kind := rfl
@[simp] theorem text_moved : (t.moved f).text = t.text := rfl
@[simp] theorem functional_moved : (t.moved f).functional = t.functional := rfl
@[simp] theorem toAtom_moved : (t.moved f).toAtom = t.toAtom := rfl
@[simp] theorem describe_moved : (t.moved f).describe = t.describe := rfl
@[simp] theorem number?_moved : (t.moved f).number? = t.number? := rfl
@[simp] theorem kind_shifted : (t.shifted f).kind = t.kind := rfl
@[simp] theorem kind_bare : t.bare.kind = t.kind := rfl
@[simp] theorem bare_unplaced : t.unplaced.bare = t.bare := rfl

variable {t u : Token}

theorem moved_eq_of_shifted (h : t.shifted f = u.shifted f) : t.moved f = u.moved f :=
  congrArg (fun t => { t with layoutBefore := false }) h

theorem bare_eq_of_unplaced (h : t.unplaced = u.unplaced) : t.bare = u.bare := by
  rw [← bare_unplaced t, h, bare_unplaced]

theorem kind_eq_of_bare (h : t.bare = u.bare) : t.kind = u.kind := by
  rw [← kind_bare t, h, kind_bare]

end Token

def SyntaxError.unplaced (e : SyntaxError) : SyntaxError :=
  { e with place := default }

def SyntaxError.moved (f : Place → Place) (e : SyntaxError) : SyntaxError :=
  { e with place := f e.place }

def Pending.moved (f : Place → Place) : Pending → Pending
  | prefixOp op t => prefixOp op (t.moved f)
  | infixOp left op t => infixOp left op (t.moved f)

def Expectation.moved (f : Place → Place) : Expectation → Expectation
  | signed op t => signed op (t.moved f)
  | x => x

/-- A reading whose tokens stand at other places. -/
def Reading.moved (f : Place → Place) (r : Reading) : Reading where
  outer := r.outer.map fun (e, ps) => (e, ps.map (.moved f))
  pending := r.pending.map (.moved f)
  expects := r.expects.moved f
  names := r.names

def Step.moved (f : Place → Place) : Step → Step
  | more next => more (next.moved f)
  | fault e => fault (e.moved f)
  | s => s

/-- A reading without places. -/
def Reading.bare (r : Reading) : Reading :=
  r.moved fun _ => default

/-- What a token makes of a reading, without places. -/
def Step.bare (s : Step) : Step :=
  s.moved fun _ => default

/-! ## Other places and higher numbers -/

def Operand.raised (n : Nat) (x : Operand) : Operand :=
  { x with term := x.term.raised n }

@[simp] theorem Operand.priority_raised (n : Nat) (x : Operand) :
    (x.raised n).priority = x.priority := rfl

def Enclosure.raised (n : Nat) : Enclosure → Enclosure
  | arguments functor done => arguments functor (done.map (.raised n))
  | list done afterBar => list (done.map (.raised n)) afterBar
  | e => e

def Pending.recast (f : Place → Place) (n : Nat) : Pending → Pending
  | prefixOp op t => prefixOp op (t.moved f)
  | infixOp left op t => infixOp (left.raised n) op (t.moved f)

def Expectation.recast (f : Place → Place) (n : Nat) : Expectation → Expectation
  | operator left => operator (left.raised n)
  | signed op t => signed op (t.moved f)
  | x => x

/-- A reading whose tokens stand at other places and whose variables have higher numbers. -/
def Reading.recast (f : Place → Place) (n : Nat) (r : Reading) : Reading where
  outer := r.outer.map fun (e, ps) => (e.raised n, ps.map (.recast f n))
  pending := r.pending.map (.recast f n)
  expects := r.expects.recast f n
  names := r.names.raised n

def Step.recast (f : Place → Place) (n : Nat) : Step → Step
  | more next => more (next.recast f n)
  | done term names => done (term.raised n) (names.raised n)
  | fault e => fault (e.moved f)
  | s => s

theorem Enclosure.raised_zero (e : Enclosure) : e.raised 0 = e := by
  cases e <;> simp [raised, List.map_id'' Term.raised_zero]

theorem Pending.recast_zero (f : Place → Place) : recast f 0 = moved f :=
  funext fun p => by cases p <;> simp [recast, moved, Operand.raised]

/-- With the same numbers, only the places are other ones. -/
theorem Reading.recast_zero (f : Place → Place) (r : Reading) : r.recast f 0 = r.moved f := by
  obtain ⟨outer, pending, expects, names⟩ := r
  simp only [recast, moved, Pending.recast_zero, Enclosure.raised_zero, Bindings.raised_zero]
  cases expects <;> simp [Expectation.recast, Expectation.moved, Operand.raised]

theorem Step.recast_zero (f : Place → Place) (s : Step) : s.recast f 0 = s.moved f := by
  cases s <;> simp [recast, moved, Reading.recast_zero]

/-- What comes of a syntax error at another place, or of a result that `g` changes. -/
def recastResult {α : Type} (f : Place → Place) (g : α → α) (x : Except SyntaxError α) :
    Except SyntaxError α :=
  (x.mapError (.moved f)).map g

section

variable {α : Type} (f : Place → Place) (g : α → α)

@[simp] theorem recastResult_error (e : SyntaxError) :
    recastResult f g (.error e) = .error (e.moved f) := rfl

@[simp] theorem recastResult_ok (x : α) : recastResult f g (.ok x) = .ok (g x) := rfl

end

/-- The operators that go on waiting and an operand, at other places and with higher numbers. -/
def Pending.recastRest (f : Place → Place) (n : Nat) (x : List Pending × Operand) :
    List Pending × Operand :=
  (x.1.map (.recast f n), x.2.raised n)

@[simp] theorem Step.ofExcept_recastResult (f : Place → Place) (n : Nat)
    (x : Except SyntaxError Reading) :
    ofExcept (recastResult f (.recast f n) x) = (ofExcept x).recast f n := by
  cases x <;> rfl

/-! ## Operators and their arguments -/

namespace Pending

variable (f : Place → Place) (n : Nat) (p : Pending) (ps : List Pending) (x : Operand)
variable (op : Operator) (t : Token)

@[simp] theorem op_recast : (p.recast f n).op = p.op := by cases p <;> rfl

@[simp] theorem token_recast : (p.recast f n).token = p.token.moved f := by cases p <;> rfl

@[simp] theorem excludes_recast : (p.recast f n).excludes op = p.excludes op := by cases p <;> rfl

theorem apply_recast :
    (p.recast f n).apply (x.raised n) = recastResult f (.raised n) (p.apply x) := by
  cases p with
  | prefixOp op t =>
    by_cases h : op.rightBound < x.priority <;>
      simp only [recast, apply, Operand.priority_raised, h, if_true, if_false] <;> rfl
  | infixOp left op t =>
    by_cases h : op.leftBound < left.priority ∨ op.rightBound < x.priority <;>
      simp only [recast, apply, Operand.priority_raised, h, if_true, if_false] <;> rfl

theorem applyAll_recast :
    applyAll (ps.map (.recast f n)) (x.raised n) =
      recastResult f (.raised n) (applyAll ps x) := by
  induction ps generalizing x with
  | nil => rfl
  | cons p ps ih =>
    simp only [List.map_cons, applyAll, apply_recast]
    cases p.apply x with
    | error e => rfl
    | ok y => exact ih y

theorem applyTighter_recast :
    applyTighter op (t.moved f) (ps.map (.recast f n)) (x.raised n) =
      recastResult f (recastRest f n) (applyTighter op t ps x) := by
  induction ps generalizing x with
  | nil => rfl
  | cons p ps ih =>
    simp only [List.map_cons, applyTighter, op_recast, excludes_recast, token_recast,
      Token.toAtom_moved, apply_recast]
    split
    · split <;> rfl
    · cases p.apply x with
      | error e => rfl
      | ok y => exact ih y

end Pending

theorem Enclosure.close_raised (n : Nat) (e : Enclosure) (x : Term) :
    (e.raised n).close (x.raised n) = (e.close x).raised n := by
  cases e with
  | group | braces => rfl
  | arguments functor done => simp [raised, close, Term.raised_compound]
  | list done afterBar =>
    have hnil : Term.nil.raised n = .nil := rfl
    cases afterBar <;> simp [raised, close, Term.raised_ofList, hnil]

@[simp] theorem Enclosure.bracket_raised (n : Nat) (e : Enclosure) :
    (e.raised n).bracket = e.bracket := by
  cases e <;> rfl

namespace Reading

variable {f : Place → Place} {n : Nat} {d : Dialect} {r : Reading} {t : Token} {op : Operator}
variable {l : Operand}

@[simp] theorem atTop_recast : (r.recast f n).atTop = r.atTop := by
  simp [atTop, recast]

@[simp] theorem enclosure?_recast :
    (r.recast f n).enclosure? = r.enclosure?.map (.raised n) := by
  simp only [enclosure?, recast]
  cases r.outer <;> rfl

@[simp] theorem terminal_recast : (r.recast f n).terminal = r.terminal := by
  simp only [terminal, enclosure?_recast]
  cases r.enclosure? <;> simp

@[simp] theorem isEmpty_recast : (r.recast f n).isEmpty = r.isEmpty := by
  simp only [isEmpty, recast]
  cases r.expects <;> simp [Expectation.recast]

@[simp] theorem endsWith_recast (flags : Flags) :
    (r.recast f n).endsWith flags (t.moved f) = r.endsWith flags t := by
  simp only [endsWith, terminal_recast, atTop_recast, isEmpty_recast, Token.kind_moved]
  rfl

theorem lastOperand_recast :
    (r.recast f n).lastOperand (t.moved f) =
      recastResult f (Pending.recastRest f n) (r.lastOperand t) := by
  obtain ⟨outer, pending, expects, names⟩ := r
  cases expects with
  | operator left => rfl
  | _ =>
    cases pending with
    | nil => cases outer <;> rfl
    | cons p ps =>
      cases p with
      | infixOp => rfl
      | prefixOp =>
        cases outer with
        | nil => cases ps <;> rfl
        | cons => rfl

theorem expression_recast :
    (r.recast f n).expression (t.moved f) = recastResult f (.raised n) (r.expression t) := by
  simp only [expression, lastOperand_recast]
  cases r.lastOperand t with
  | error e => rfl
  | ok x =>
    simp only [recastResult_ok, Pending.recastRest, Pending.applyAll_recast]
    cases Pending.applyAll x.1 x.2 <;> rfl

theorem close_recast (term : Term) :
    (r.recast f n).close (term.raised n) = (r.close term).recast f n := by
  obtain ⟨outer, pending, expects, names⟩ := r
  cases outer with
  | nil => rfl
  | cons e outer =>
    simp only [close, recast, List.map_cons, Enclosure.close_raised]
    rfl

theorem unexpectedEnd_recast :
    (r.recast f n).unexpectedEnd (t.moved f) = (r.unexpectedEnd t).recast f n := by
  simp only [unexpectedEnd, Token.kind_moved, isEmpty_recast, terminal_recast]
  split <;> rfl

theorem takeInfix_recast :
    (r.recast f n).takeInfix (l.raised n) op (t.moved f) =
      recastResult f (.recast f n) (r.takeInfix l op t) := by
  have hpending : (r.recast f n).pending = r.pending.map (.recast f n) := rfl
  simp only [takeInfix, hpending, Pending.applyTighter_recast, Token.toAtom_moved]
  cases Pending.applyTighter op t r.pending l with
  | error e => rfl
  | ok x =>
    simp only [recastResult_ok, Pending.recastRest, Operand.raised]
    split
    · split <;> rfl
    · rfl

/-- A prefix operator that turns out to be an atom is the left argument of the next operator. -/
theorem takeInfix_recast_of_prefix (token : Token) (ps : List Pending) :
    takeInfix { r.recast f n with pending := ps.map (.recast f n) }
        ⟨.atom (token.moved f).toAtom, 0⟩ op (t.moved f) =
      recastResult f (.recast f n)
        (takeInfix { r with pending := ps } ⟨.atom token.toAtom, 0⟩ op t) :=
  takeInfix_recast (r := { r with pending := ps }) (l := ⟨.atom token.toAtom, 0⟩)

theorem takePrefix_recast :
    (r.recast f n).takePrefix d op (t.moved f) =
      recastResult f (.recast f n) (r.takePrefix d op t) := by
  have hpending : (r.recast f n).pending = r.pending.map (.recast f n) := rfl
  simp only [takePrefix, hpending, Token.text_moved]
  cases hp : r.pending with
  | nil => rfl
  | cons p ps =>
    cases p with
    | infixOp => rfl
    | prefixOp before token =>
      cases d.table.infixOperator? t.text with
      | none => rfl
      | some infixOp =>
        simp only [List.map_cons, Pending.recast]
        split
        · exact takeInfix_recast_of_prefix token ps
        · rfl

theorem takeName_recast :
    (r.recast f n).takeName d (t.moved f) = recastResult f (.recast f n) (r.takeName d t) := by
  have hpending : (r.recast f n).pending = r.pending.map (.recast f n) := rfl
  have hopener : (if (t.moved f).kind = .atom then d.table.prefixOperator? (t.moved f).text
      else none) = (if t.kind = .atom then d.table.prefixOperator? t.text else none) := rfl
  by_cases hf : t.functional = true
  · simp only [takeName, Token.functional_moved, hf, if_true]
    rfl
  simp only [takeName, Token.functional_moved, hf, hopener]
  cases (if t.kind = .atom then d.table.prefixOperator? t.text else none) with
  | some op =>
    by_cases hsign : t.text = "-" ∨ t.text = "+"
    · simp only [Token.text_moved, hsign, if_true]
      rfl
    · simp only [Token.text_moved, hsign, if_false]
      exact takePrefix_recast
  | none =>
    simp only [hpending, Token.text_moved]
    cases r.pending with
    | nil => rfl
    | cons p ps =>
      cases p with
      | infixOp => rfl
      | prefixOp before token =>
        cases d.table.infixOperator? t.text with
        | none => rfl
        | some op => exact takeInfix_recast_of_prefix token ps

theorem separate_recast {next next' : Term → Enclosure}
    (hnext : ∀ x, next' (x.raised n) = (next x).raised n) :
    (r.recast f n).separate (l.raised n) next' =
      recastResult f (.recast f n) (r.separate l next) := by
  have hpending : (r.recast f n).pending = r.pending.map (.recast f n) := rfl
  simp only [separate, hpending, Pending.applyAll_recast]
  cases Pending.applyAll r.pending l with
  | error e => rfl
  | ok whole =>
    obtain ⟨outer, pending, expects, names⟩ := r
    cases outer with
    | nil => rfl
    | cons e outer =>
      simp only [recastResult_ok, recast, List.map_cons, Operand.raised, hnext]
      rfl

theorem ofExcept_separate_recast {next next' : Term → Enclosure}
    (hnext : ∀ x, next' (x.raised n) = (next x).raised n) :
    Step.ofExcept ((r.recast f n).separate (l.raised n) next') =
      (Step.ofExcept (r.separate l next)).recast f n := by
  rw [separate_recast hnext, Step.ofExcept_recastResult]

theorem takeOperator_recast :
    (r.recast f n).takeOperator d (l.raised n) (t.moved f) =
      (r.takeOperator d l t).recast f n := by
  have hoperator : (r.recast f n).takeSymbol d (l.raised n) (t.moved f) =
      (r.takeSymbol d l t).recast f n := by
    simp only [takeSymbol, Token.text_moved, takeInfix_recast, Step.ofExcept_recastResult]
    cases d.table.infixOperator? t.text <;> rfl
  unfold takeOperator
  simp only [Token.kind_moved, Token.text_moved, Token.describe_moved, enclosure?_recast]
  -- Commas and bars mean something else in arguments and in lists than between brackets.
  cases hk : t.kind with
  | comma =>
    rcases r.enclosure? with _ | _ | _ | _ | ⟨done, _ | _⟩
    case some.arguments | some.list.false =>
      exact ofExcept_separate_recast fun _ => rfl
    case some.list.true => rfl
    all_goals exact hoperator
  | bar =>
    rcases r.enclosure? with _ | _ | _ | _ | ⟨done, _ | _⟩
    case some.list.false =>
      exact ofExcept_separate_recast fun _ => rfl
    case some.list.true => rfl
    all_goals exact hoperator
  | atom => exact hoperator
  | quotedAtom =>
    by_cases htext : t.text = "," ∨ t.text = "|"
    · simp only [htext, if_true]
      rfl
    · simp only [htext, if_false]
      exact hoperator
  | endOfFile | stop => exact unexpectedEnd_recast
  | _ => rfl

theorem withOperand_recast {x : Term} (hx : x.Bare) :
    (r.recast f n).withOperand x = (r.withOperand x).recast f n := by
  simp only [recast, withOperand, Expectation.recast, Operand.raised, Term.raised, hx.map_eq]

theorem takeOperand_recast :
    (r.recast f n).takeOperand d (t.moved f) = (r.takeOperand d t).recast f n := by
  cases hk : t.kind with
  | endOfFile | stop =>
    simp only [takeOperand, Token.kind_moved, hk]
    exact unexpectedEnd_recast
  | closing | comma | bar =>
    have hpending : (r.recast f n).pending = r.pending.map (.recast f n) := rfl
    simp only [takeOperand, Token.kind_moved, hk, hpending]
    cases r.pending with
    | nil => rfl
    | cons p ps =>
      cases p with
      | infixOp => rfl
      | prefixOp _ token =>
        exact takeOperator_recast (r := { r with pending := ps })
          (l := ⟨.atom token.toAtom, 0⟩)
  | integer | float | charCode =>
    simp only [takeOperand, Token.kind_moved, hk, Token.number?_moved]
    cases hn : t.number? with
    | none => rfl
    | some x =>
      cases x with
      | error e => rfl
      | ok y => exact congrArg Step.more (withOperand_recast (Token.bare_number hn))
  | atom | quotedAtom =>
    simp only [takeOperand, Token.kind_moved, hk, takeName_recast, Step.ofExcept_recastResult]
  | opening b =>
    cases b <;> simp only [takeOperand, Token.kind_moved, hk] <;> rfl
  | doubleQuoted | backQuoted =>
    simp only [takeOperand, Token.kind_moved, hk]
    exact congrArg Step.more (withOperand_recast (QuoteKind.bare_term _ _))
  | «variable» =>
    have hnames : (r.recast f n).names = r.names.raised n := rfl
    simp only [takeOperand, Token.kind_moved, hk, Token.text_moved, hnames, Bindings.named_raised]
    rfl
  | anonymousVariable | comment =>
    simp only [takeOperand, Token.kind_moved, hk]
    rfl

theorem take_recast : (r.recast f n).take d (t.moved f) = (r.take d t).recast f n := by
  by_cases hends : r.endsWith d.flags t = true
  · simp only [take, endsWith_recast, expression_recast, hends, if_true]
    cases r.expression t with
    | error e => rfl
    | ok term => exact close_recast term
  · have hexpects : (r.recast f n).expects = r.expects.recast f n := rfl
    simp only [take, endsWith_recast, hends, hexpects]
    cases r.expects with
    | operator left => exact takeOperator_recast
    | _ => exact takeOperand_recast

/-- What a reading is decided to be, at other places and with higher numbers. -/
def Settled.recast (f : Place → Place) (n : Nat) : Settled → Settled
  | taken s => taken (s.recast f n)
  | ready r => ready (r.recast f n)

theorem settle_recast : (r.recast f n).settle d (t.shifted f) = (r.settle d t).recast f n := by
  have hexpects : (r.recast f n).expects = r.expects.recast f n := rfl
  cases hx : r.expects with
  | operand | operator left => simp only [settle, hexpects, hx, Expectation.recast, Settled.recast]
  | arguments | listStart | bracesStart =>
    simp only [settle, hexpects, hx, Expectation.recast, Token.kind_shifted]
    split <;> next hk =>
      simp only [hk, if_true, if_false]
      rfl
  | signed op sign =>
    have hnumber : (if (t.shifted f).layoutBefore = true then none else (t.shifted f).number?) =
        (if t.layoutBefore = true then none else t.number?) := rfl
    simp only [settle, hexpects, hx, Expectation.recast, hnumber, Token.text_moved,
      takePrefix_recast]
    cases hn : (if t.layoutBefore = true then none else t.number?) with
    | some x =>
      cases x with
      | error e => rfl
      | ok y =>
        have hbare : y.Bare := by
          split at hn
          · cases hn
          · exact Token.bare_number hn
        have hsigned : (if sign.text = "-" then y.negate?.getD y else y).Bare := by
          split
          · exact hbare.negate
          · exact hbare
        exact congrArg (Settled.taken ∘ Step.more) (withOperand_recast hsigned)
    | none => cases r.takePrefix d op sign <;> rfl

/-- One token, at another place and with higher numbers. -/
theorem step_recast : (r.step d t).recast f n =
    match (r.recast f n).settle d (t.shifted f) with
    | .taken s => s
    | .ready next => next.take d (t.moved f) := by
  rw [settle_recast, step]
  cases r.settle d t with
  | taken s => rfl
  | ready next => exact take_recast.symm

variable {r' : Reading} {t' : Token} {n' : Nat} {ts us : List Token}

theorem step_recast_congr (hr : r.recast f n = r'.recast f n') (ht : t.shifted f = t'.shifted f) :
    (r.step d t).recast f n = (r'.step d t').recast f n' := by
  rw [step_recast, step_recast, hr, ht, Token.moved_eq_of_shifted f ht]

theorem take_moved : (r.moved f).take d (t.moved f) = (r.take d t).moved f := by
  rw [← recast_zero, take_recast, Step.recast_zero]

theorem step_moved_congr (hr : r.moved f = r'.moved f) (ht : t.shifted f = t'.shifted f) :
    (r.step d t).moved f = (r'.step d t').moved f := by
  rw [← recast_zero, ← recast_zero] at hr
  rw [← Step.recast_zero, ← Step.recast_zero]
  exact step_recast_congr hr ht

/-- Where an operand is expected it does not matter what stands before it. -/
theorem step_moved_congr_of_operand (hr : r.moved f = r'.moved f) (hx : r.expects = .operand)
    (hx' : r'.expects = .operand) (ht : t.moved f = t'.moved f) :
    (r.step d t).moved f = (r'.step d t').moved f := by
  simp only [step, settle, hx, hx']
  rw [← take_moved, ← take_moved, hr, ht]

theorem step_bare_congr (hr : r.bare = r'.bare) (ht : t.unplaced = t'.unplaced) :
    (r.step d t).bare = (r'.step d t').bare :=
  step_moved_congr hr ht

theorem step_bare_congr_of_operand (hr : r.bare = r'.bare) (hx : r.expects = .operand)
    (hx' : r'.expects = .operand) (ht : t.bare = t'.bare) :
    (r.step d t).bare = (r'.step d t').bare :=
  step_moved_congr_of_operand hr hx hx' ht

end Reading

/-! ## Sentences without places -/

namespace Step

variable {f : Place → Place} {s s' : Step} {next : Reading}

theorem moved_eq_more (h : s.moved f = .more next) : ∃ r, s = .more r ∧ r.moved f = next := by
  cases s <;> simp_all [moved]

theorem ne_more_of_moved (h : s.moved f = s'.moved f) (hs : ∀ r, s ≠ .more r) (r : Reading) :
    s' ≠ .more r := by
  rintro rfl
  obtain ⟨r', rfl, _⟩ := moved_eq_more h
  exact hs r' rfl

theorem bare_eq_more (h : s.bare = .more next) : ∃ r, s = .more r ∧ r.bare = next :=
  moved_eq_more h

theorem ne_more_of_bare (h : s.bare = s'.bare) (hs : ∀ r, s ≠ .more r) (r : Reading) :
    s' ≠ .more r :=
  ne_more_of_moved h hs r

end Step

/-- A sentence without the lines where it and its comments stand. -/
def Sentence.unplaced (s : Sentence) : Sentence :=
  { s with comments := s.comments.map fun c => { c with line := 0 }, line := 0 }

def Outcome.unplaced : Outcome → Outcome
  | sentence s => sentence s.unplaced
  | error (.malformed e) => error (.malformed e.unplaced)
  | o => o

theorem Outcome.unplaced_cases {o o' : Outcome} (h : o.unplaced = o'.unplaced) :
    (∃ s s', o = .sentence s ∧ o' = .sentence s' ∧ s.unplaced = s'.unplaced) ∨
      (∃ e e', o = .error (.malformed e) ∧ o' = .error (.malformed e') ∧
        e.unplaced = e'.unplaced) ∨
      (o = o' ∧ ¬o.Continues) := by
  obtain s | _ | (e | reason | _) := o <;> obtain s' | _ | (e' | reason' | _) := o' <;>
    simp_all [unplaced, Continues]

theorem Sentence.ofTokens_unplaced (term : Term) (names : Bindings) {ts us : List Token}
    (h : ts.map Token.bare = us.map Token.bare) :
    (ofTokens term names ts).unplaced = (ofTokens term names us).unplaced := by
  have hcomments (ts : List Token) : (ofTokens term names ts).unplaced =
      ⟨term, names.namedVariables, names.singletons,
        ((ts.map Token.bare).filter (·.kind = .comment)).map fun t => ⟨t.text, 0⟩, 0⟩ := by
    simp only [unplaced, ofTokens, List.filter_map, List.map_map]
    rfl
  rw [hcomments, hcomments, h]

theorem leavesRest_bare (ts : List Token) : leavesRest (ts.map Token.bare) = leavesRest ts := by
  simp only [leavesRest, ← List.map_reverse, List.find?_map]
  have hfind : ts.reverse.find? ((fun t => decide (t.kind ≠ .comment)) ∘ Token.bare) =
      ts.reverse.find? fun t => decide (t.kind ≠ .comment) := rfl
  rw [hfind]
  cases ts.reverse.find? fun t => decide (t.kind ≠ .comment) <;> rfl

/-- Runs that come to the same but for places. -/
structure Run.Same (a b : Run) : Prop where
  outcome : a.outcome.unplaced = b.outcome.unplaced
  tokens : a.tokens.map Token.bare = b.tokens.map Token.bare
  issued : a.issued = b.issued

theorem Run.conclude_same {last last' : Reading} {ts us : List Token} {after after' : Cursor}
    {s s' : Step} (hlast : last.bare = last'.bare) (hts : ts.map Token.bare = us.map Token.bare)
    (hs : s.bare = s'.bare) : (conclude last ts after s).Same (conclude last' us after' s') := by
  have hissued : last.bare.names.issued = last'.bare.names.issued := by rw [hlast]
  cases s <;> cases s' <;> simp only [Step.bare, Step.moved, reduceCtorEq] at hs <;> try cases hs
  case done.done.refl =>
    exact ⟨congrArg Outcome.sentence (Sentence.ofTokens_unplaced _ _ hts), hts, rfl⟩
  case fault.fault e e' =>
    have he : e.unplaced = e'.unplaced := Step.fault.inj hs
    exact ⟨by simp only [conclude, Outcome.unplaced, he], hts, hissued⟩
  all_goals exact ⟨rfl, hts, hissued⟩

/-! ## Programs without places -/

/-- Details other than the place: the line, its number and the column. -/
def Details.unplaced (d : Details) : Details :=
  d.filter fun m => m.1 ∉ ["line", "line_number", "column"]

/-- A diagnostic without the places it names. -/
def Diagnostic.unplaced : Diagnostic → Diagnostic
  | plain m => plain m
  | within c cause => within c cause.unplaced
  | tagged tag details none => tagged tag (Details.unplaced details) none
  | tagged tag details (some cause) => tagged tag (Details.unplaced details) (some cause.unplaced)

/-- What a program consists of, without places. -/
def Consultation.unplaced (c : Consultation) : Consultation :=
  ⟨c.clauses.map Sentence.unplaced, c.directives.map Sentence.unplaced,
    c.errors.map Diagnostic.unplaced⟩

theorem SyntaxError.diagnostic_unplaced (e : SyntaxError) :
    e.unplaced.diagnostic.unplaced = e.diagnostic.unplaced := by
  obtain ⟨cause, place, consumed⟩ := e
  cases consumed <;> rfl

theorem DirectiveError.inSentence_unplaced (s : Sentence) (e : DirectiveError) :
    (e.inSentence s.unplaced).unplaced = (e.inSentence s).unplaced := rfl

namespace Consultation

variable {a b : Consultation}

theorem addSentence_unplaced (h : a.unplaced = b.unplaced) {s s' : Sentence}
    (hs : s.unplaced = s'.unplaced) (x : Execution) :
    (a.addSentence s x).unplaced = (b.addSentence s' x).unplaced := by
  have key (a : Consultation) (s : Sentence) : (a.addSentence s x).unplaced =
      ⟨if x.handled then a.unplaced.clauses else s.unplaced :: a.unplaced.clauses,
        if x.handled then s.unplaced :: a.unplaced.directives else a.unplaced.directives,
        (x.error?.map fun e => (e.inSentence s.unplaced).unplaced).toList ++
          a.unplaced.errors⟩ := by
    simp only [addSentence, unplaced, DirectiveError.inSentence_unplaced, List.map_append]
    cases x.error? <;> cases x.handled <;> rfl
  rw [key, key, h, hs]

theorem addError_unplaced (h : a.unplaced = b.unplaced) {e e' : SyntaxError}
    (he : e.unplaced = e'.unplaced) : (a.addError e).unplaced = (b.addError e').unplaced := by
  have key (a : Consultation) (e : SyntaxError) : (a.addError e).unplaced =
      { a.unplaced with errors := e.unplaced.diagnostic.unplaced :: a.unplaced.errors } := by
    simp only [addError, unplaced, SyntaxError.diagnostic_unplaced, List.map_cons]
  rw [key, key, h, he]

theorem reverse_unplaced : a.reverse.unplaced = a.unplaced.reverse := by
  simp only [reverse, unplaced, List.map_reverse]

end Consultation

theorem Dialect.apply_unplaced (d : Dialect) (s : Sentence) : d.apply s.unplaced = d.apply s := rfl

end PrologText
