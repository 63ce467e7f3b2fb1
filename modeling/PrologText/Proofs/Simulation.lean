import PrologText.Proofs.Functors
import PrologText.Proofs.Stacks

/-!
# Stacks that lack nothing

Reading on stacks is the same as reading with the operators that wait, whatever the tokens
(`Reading.step_stacked`, `Reading.feed_stacked`): no step takes from the stacks what they do not
hold. Main statement: on the tokens of a text, reading on stacks never gets stuck
(`StackReading.feed_ne_stuck`).
-/

namespace PrologText

/-! ## Nothing is missing on the stacks -/

theorem Frame.reduce_frame (p : Pending) (x : Operand) (operands : List Operand) :
    p.frame.reduce (x :: (p.left?.toList ++ operands)) =
      (Attempt.ofExcept (p.apply x)).map (· :: operands) := by
  cases p <;> rfl

theorem Pending.applyTighter_cons (op : Operator) (t : Token) (p : Pending) (ps : List Pending)
    (x : Operand) :
    applyTighter op t (p :: ps) x =
      if op.leftBound < p.op.priority then
        if p.excludes op then
          .error ⟨.nonAssociative p.token.toAtom t.toAtom op.priority, t.place, none⟩
        else .ok (p :: ps, x)
      else (p.apply x).bind (applyTighter op t ps) := by
  rw [applyTighter]
  cases p.apply x <;> rfl

namespace Stacks

theorem filterMap_left?_cons (p : Pending) (ps : List Pending) :
    (p :: ps).filterMap Pending.left? = p.left?.toList ++ ps.filterMap Pending.left? := by
  cases p <;> rfl

theorem reduceAll_ofPending (ps : List Pending) (x : Operand) :
    reduceAll (x :: ps.filterMap Pending.left?) (ps.map Pending.frame ++ [.terminal]) =
      (Attempt.ofExcept (Pending.applyAll ps x)).map fun y => ofPending [] [y] := by
  -- The operands below `x` are the left operands of the infix operators, in the same order.
  induction ps generalizing x with
  | nil => rfl
  | cons p ps ih =>
    have hframe : reduceAll (x :: (p :: ps).filterMap Pending.left?)
        ((p :: ps).map Pending.frame ++ [.terminal]) =
        (p.frame.reduce (x :: (p :: ps).filterMap Pending.left?)).bind
          (reduceAll · (ps.map Pending.frame ++ [.terminal])) := by
      cases p <;> rfl
    rw [hframe, filterMap_left?_cons, Frame.reduce_frame, Pending.applyAll]
    cases p.apply x with
    | error e => rfl
    | ok y => exact ih y

theorem reduceTighter_ofPending (op : Operator) (t : Token) (ps : List Pending) (x : Operand) :
    reduceTighter op t (x :: ps.filterMap Pending.left?) (ps.map Pending.frame ++ [.terminal]) =
      (Attempt.ofExcept (Pending.applyTighter op t ps x)).map fun y => ofPending y.1 [y.2] := by
  induction ps generalizing x with
  | nil => rfl
  | cons p ps ih =>
    have hreduce : (p.frame.reduce (x :: (p :: ps).filterMap Pending.left?)).bind
        (reduceTighter op t · (ps.map Pending.frame ++ [.terminal])) =
        (Attempt.ofExcept ((p.apply x).bind (Pending.applyTighter op t ps))).map
          fun y => ofPending y.1 [y.2] := by
      rw [filterMap_left?_cons, Frame.reduce_frame]
      cases p.apply x with
      | error e => rfl
      | ok y => exact ih y
    rw [Pending.applyTighter_cons]
    cases p with
    | prefixOp before token =>
      simp only [List.map_cons, Pending.frame, List.cons_append, reduceTighter, Pending.op,
        Pending.excludes] at hreduce ⊢
      by_cases hbind : op.leftBound < before.priority
      · simp only [hbind, if_true]
        rfl
      · simp only [hbind, if_false]
        exact hreduce
    | infixOp left before token =>
      simp only [List.map_cons, Pending.frame, List.cons_append, reduceTighter, Pending.op,
        Pending.excludes, decide_eq_true_eq] at hreduce ⊢
      by_cases hbind : op.leftBound < before.priority
      · simp only [hbind, if_true]
        by_cases hclash : before.priority = op.priority ∧ before.specifier = .xfx ∧
            op.specifier = .xfx
        · simp only [hclash, and_self, if_true]
          rfl
        · simp only [hclash, if_false]
          rfl
      · simp only [hbind, if_false]
        exact hreduce

theorem finish_ofPending (ps : List Pending) (x : Operand) :
    (ofPending ps [x]).finish = (Attempt.ofExcept (Pending.applyAll ps x)).map Operand.term := by
  rw [finish]
  simp only [ofPending, List.cons_append, List.nil_append, reduceAll_ofPending]
  cases Pending.applyAll ps x <;> rfl

end Stacks

namespace Reading

variable {d : Dialect} {r : Reading} {t : Token} {left : Operand}

theorem enclosure?_stacked : r.stacked.enclosure? = r.enclosure? := by
  cases h : r.outer <;> simp [stacked, StackReading.enclosure?, enclosure?, h]

theorem terminal_stacked : r.stacked.terminal = r.terminal := by
  rw [StackReading.terminal, enclosure?_stacked]
  rfl

theorem frames_stacked :
    r.stacked.inner.frames = r.pending.map Pending.frame ++ [.terminal] := rfl

theorem isEmpty_outer_stacked : r.stacked.outer.isEmpty = r.outer.isEmpty :=
  List.isEmpty_map

theorem isEmpty_stacked : r.stacked.isEmpty = r.isEmpty := by
  cases hx : r.expects with
  | operand =>
    cases h : r.pending <;>
      simp [StackReading.isEmpty, isEmpty, stacked, Stacks.ofPending, hx, h, Expectation.awaited,
        Expectation.left?]
  | _ => simp [StackReading.isEmpty, isEmpty, stacked, hx, Expectation.awaited]

theorem endsWith_stacked (flags : Flags) : r.stacked.endsWith flags t = r.endsWith flags t := by
  simp only [StackReading.endsWith, endsWith, terminal_stacked, isEmpty_stacked,
    isEmpty_outer_stacked]
  rfl

theorem unexpectedEnd_stacked : r.stacked.unexpectedEnd t = (r.unexpectedEnd t).stacked := by
  simp only [StackReading.unexpectedEnd, unexpectedEnd, isEmpty_stacked, terminal_stacked]
  by_cases h : t.kind = .endOfFile ∧ r.isEmpty = true
  · simp only [h, and_self, if_true]
    rfl
  · simp only [h, if_false]
    rfl

theorem close_stacked (term : Term) : r.stacked.close term = (r.close term).stacked := by
  obtain ⟨outer, pending, expects, names⟩ := r
  cases outer <;> rfl

/-- A reading that expects no operator has no operand but those of its operators. -/
theorem withOperand_stacked (h : r.expects.left? = none) (term : Term) :
    (r.withOperand term).stacked = r.stacked.pushOperand term := by
  simp only [stacked, withOperand, StackReading.pushOperand, h]
  rfl

theorem enter_stacked (h : r.expects.left? = none) (e : Enclosure) :
    (r.enter e).stacked = r.stacked.enter e := by
  simp only [stacked, enter, StackReading.enter, h]
  rfl

theorem prefixToAtom_stacked (h : r.expects.left? = none) {op : Operator} {token : Token}
    {ps : List Pending} (hp : r.pending = .prefixOp op token :: ps) :
    r.stacked.prefixToAtom =
      .ok { r with pending := ps, expects := .operator ⟨.atom token.toAtom, 0⟩ :
        Reading}.stacked := by
  simp only [stacked, StackReading.prefixToAtom, h, hp]
  rfl

theorem takeInfix_stacked (op : Operator) :
    { r with expects := .operator left : Reading}.stacked.takeInfix op t =
      (Attempt.ofExcept (r.takeInfix left op t)).map stacked := by
  simp only [stacked, StackReading.takeInfix, Stacks.ofPending, Expectation.left?,
    Option.toList_some, List.cons_append, List.nil_append, Stacks.reduceTighter_ofPending,
    takeInfix]
  cases Pending.applyTighter op t r.pending left with
  | error e => rfl
  | ok y =>
    obtain ⟨ps, x⟩ := y
    simp only [Attempt.ofExcept, Attempt.map, Attempt.bind, Stacks.pop]
    by_cases hpost : op.specifier.fixity = .postfixOp
    · by_cases hclash : op.leftBound < x.priority
      · simp only [hpost, hclash, if_true]
      · simp only [hpost, hclash, if_true, if_false]
        rfl
    · simp only [hpost, if_false]
      rfl

/-- A pending prefix operator that becomes the left argument of the operator `op`. -/
theorem prefixToAtom_takeInfix_stacked (h : r.expects.left? = none) {before op : Operator}
    {token : Token} {ps : List Pending} (hp : r.pending = .prefixOp before token :: ps) :
    r.stacked.prefixToAtom.bind (·.takeInfix op t) =
      (Attempt.ofExcept
        (takeInfix { r with pending := ps } ⟨.atom token.toAtom, 0⟩ op t)).map stacked := by
  rw [prefixToAtom_stacked h hp]
  exact takeInfix_stacked (r := { r with pending := ps }) op

theorem takePrefix_stacked (h : r.expects.left? = none) (op : Operator) :
    r.stacked.takePrefix d op t = (Attempt.ofExcept (r.takePrefix d op t)).map stacked := by
  have hwaiting : { r.stacked with
      inner := ⟨r.stacked.inner.operands, .prefixOp op t :: r.stacked.inner.frames⟩
      expects := .operand } =
      { r with pending := .prefixOp op t :: r.pending, expects := .operand : Reading }.stacked := by
    simp only [stacked, Stacks.ofPending, h]
    rfl
  simp only [StackReading.takePrefix, takePrefix, hwaiting]
  rw [frames_stacked]
  cases hp : r.pending with
  | nil => rfl
  | cons p ps =>
    cases p with
    | infixOp => rfl
    | prefixOp before token =>
      cases d.table.infixOperator? t.text with
      | none => rfl
      | some infixOp =>
        simp only [List.map_cons, Pending.frame, List.cons_append]
        by_cases hbind : before.rightBound < op.priority
        · simp only [hbind, if_true]
          exact prefixToAtom_takeInfix_stacked h hp
        · simp only [hbind, if_false]
          rfl

theorem takeName_stacked (h : r.expects.left? = none) :
    r.stacked.takeName d t = (Attempt.ofExcept (r.takeName d t)).map stacked := by
  have hexpects (a : Awaited) (e : Expectation) (ha : e.awaited = a) (he : e.left? = none) :
      { r.stacked with expects := a } = { r with expects := e : Reading}.stacked := by
    simp only [stacked, h, ha, he]
  simp only [StackReading.takeName, takeName]
  by_cases hf : t.functional = true
  · simp only [hf, if_true]
    exact congrArg Attempt.ok (hexpects _ (.arguments t.toAtom) rfl rfl)
  · simp only [hf]
    cases (if t.kind = .atom then d.table.prefixOperator? t.text else none) with
    | some op =>
      by_cases hsign : t.text = "-" ∨ t.text = "+"
      · simp only [hsign, if_true]
        exact congrArg Attempt.ok (hexpects _ (.signed op t) rfl rfl)
      · simp only [hsign, if_false]
        exact takePrefix_stacked h op
    | none =>
      simp only
      rw [frames_stacked]
      have hatom : Attempt.ok (r.stacked.pushOperand (.atom t.toAtom)) =
          (Attempt.ofExcept (.ok (r.withOperand (.atom t.toAtom)))).map stacked :=
        congrArg Attempt.ok (withOperand_stacked h _).symm
      cases hp : r.pending with
      | nil => exact hatom
      | cons p ps =>
        cases p with
        | infixOp => exact hatom
        | prefixOp before token =>
          cases d.table.infixOperator? t.text with
          | none => exact hatom
          | some op => exact prefixToAtom_takeInfix_stacked h hp

theorem separate_stacked (next : Term → Enclosure) :
    { r with expects := .operator left : Reading}.stacked.separate next =
      (Attempt.ofExcept (r.separate left next)).map stacked := by
  simp only [stacked, StackReading.separate, Stacks.ofPending, Expectation.left?,
    Option.toList_some, List.cons_append, List.nil_append, Stacks.reduceAll_ofPending, separate]
  cases Pending.applyAll r.pending left with
  | error e => rfl
  | ok whole => cases r.outer <;> rfl

theorem closeAtOperand_stacked (h : r.expects.left? = none) :
    (r.stacked.closeAtOperand t).bind (fun next => next.inner.finish) =
      Attempt.ofExcept (r.expression t) := by
  have hlast : r.lastOperand t =
      match r.pending with
      | .prefixOp _ token :: pending =>
        if r.atTop && pending.isEmpty then
          .error ⟨.prefixOperatorAlone token.toAtom t.describe, t.place, none⟩
        else .ok (pending, ⟨.atom token.toAtom, 0⟩)
      | .infixOp _ _ token :: _ => .error ⟨.noArgumentAfter token.toAtom t.describe, t.place, none⟩
      | [] =>
        .error ⟨if r.atTop then .noTerm t.describe else .noArgument t.describe, t.place, none⟩ := by
    unfold lastOperand
    split
    · next hx => simp [hx, Expectation.left?] at h
    · next hp _ => simp only [hp]
    · next hp _ => simp only [hp]
    · next hp _ => simp only [hp]
  rw [expression, hlast, StackReading.closeAtOperand, frames_stacked, isEmpty_outer_stacked]
  cases hp : r.pending with
  | nil => rfl
  | cons p ps =>
    cases p with
    | infixOp => rfl
    | prefixOp op token =>
      -- No operator below the prefix operator: then there is no operand either.
      have halone : (r.outer.isEmpty && r.stacked.inner.operands.isEmpty &&
          (ps.map Pending.frame ++ [Frame.terminal]).length == 1) = (r.atTop && ps.isEmpty) := by
        cases ps with
        | nil => simp [stacked, Stacks.ofPending, h, hp, Pending.left?, atTop]
        | cons => simp
      simp only [List.map_cons, Pending.frame, List.cons_append, halone, prefixToAtom_stacked h hp]
      split
      · rfl
      · refine (Stacks.finish_ofPending ps ⟨.atom token.toAtom, 0⟩).trans ?_
        simp only
        cases Pending.applyAll ps ⟨.atom token.toAtom, 0⟩ <;> rfl

theorem expression_stacked : r.stacked.expression t = Attempt.ofExcept (r.expression t) := by
  cases hx : r.expects with
  | operator left =>
    simp only [StackReading.expression, expression, lastOperand, stacked, hx, Expectation.awaited,
      Expectation.left?, Option.toList_some, Stacks.finish_ofPending]
    cases Pending.applyAll r.pending left <;> rfl
  | _ =>
    rw [← closeAtOperand_stacked (by rw [hx]; rfl), StackReading.expression]
    simp only [stacked, hx, Expectation.awaited]

theorem ofAttempt_stacked (x : Except SyntaxError Reading) :
    StackStep.ofAttempt ((Attempt.ofExcept x).map stacked) = (Step.ofExcept x).stacked := by
  cases x <;> rfl

theorem takeOperator_stacked (d : Dialect) (t : Token) (hx : r.expects = .operator left) :
    r.stacked.takeOperator d t = (r.takeOperator d left t).stacked := by
  have hr : { r with expects := .operator left : Reading} = r := by rw [← hx]
  have hoperator : r.stacked.takeSymbol d t = (r.takeSymbol d left t).stacked := by
    simp only [StackReading.takeSymbol, takeSymbol]
    cases d.table.infixOperator? t.text with
    | none => rfl
    | some op =>
      simp only
      rw [← ofAttempt_stacked, ← takeInfix_stacked, hr]
  have hseparate (next : Term → Enclosure) : StackStep.ofAttempt (r.stacked.separate next) =
      (Step.ofExcept (r.separate left next)).stacked := by
    rw [← ofAttempt_stacked, ← separate_stacked, hr]
  cases hk : t.kind with
  | comma =>
    simp only [StackReading.takeOperator, takeOperator, hk, enclosure?_stacked]
    obtain _ | _ | _ | _ | ⟨done, _ | _⟩ := r.enclosure?
    · exact hoperator
    · exact hoperator
    · exact hoperator
    · exact hseparate _
    · exact hseparate _
    · rfl
  | bar =>
    simp only [StackReading.takeOperator, takeOperator, hk, enclosure?_stacked]
    obtain _ | _ | _ | _ | ⟨done, _ | _⟩ := r.enclosure?
    · exact hoperator
    · exact hoperator
    · exact hoperator
    · exact hoperator
    · exact hseparate _
    · rfl
  | atom =>
    simp only [StackReading.takeOperator, takeOperator, hk]
    exact hoperator
  | quotedAtom =>
    simp only [StackReading.takeOperator, takeOperator, hk]
    by_cases htext : t.text = "," ∨ t.text = "|"
    · simp only [htext, if_true]
      rfl
    · simp only [htext, if_false]
      exact hoperator
  | endOfFile | stop =>
    simp only [StackReading.takeOperator, takeOperator, hk]
    exact unexpectedEnd_stacked
  | _ =>
    simp only [StackReading.takeOperator, takeOperator, hk]
    rfl

/-- A token that is neither the end of the sentence nor of the file is taken after an operand
whatever was expected before. -/
theorem takeOperator_congr (e : Expectation) (he : t.kind ≠ .endOfFile) (hs : t.kind ≠ .stop) :
    takeOperator d { r with expects := e } left t = takeOperator d r left t := by
  have hinfix (op : Operator) :
      takeInfix { r with expects := e } left op t = r.takeInfix left op t := rfl
  have hseparate (next : Term → Enclosure) :
      separate { r with expects := e } left next = r.separate left next := rfl
  have henclosure : enclosure? { r with expects := e } = r.enclosure? := rfl
  simp only [takeOperator, hinfix, hseparate, henclosure]
  split
  case h_10 hk => exact absurd hk he
  case h_11 hk => exact absurd hk hs
  all_goals rfl

theorem more_pushOperand_stacked (h : r.expects.left? = none) (term : Term) :
    StackStep.more (r.stacked.pushOperand term) = (Step.more (r.withOperand term)).stacked :=
  congrArg StackStep.more (withOperand_stacked h term).symm

theorem takeOperand_stacked (d : Dialect) (t : Token) (h : r.expects.left? = none) :
    r.stacked.takeOperand d t = (r.takeOperand d t).stacked := by
  have hvar (v : Variable) (names : Bindings) :
      StackStep.more { r.stacked.pushOperand (.var v) with names } =
        (Step.more { r with names, expects := .operator ⟨.var v, 0⟩ }).stacked := by
    simp only [Step.stacked, stacked, StackReading.pushOperand, h]
    rfl
  have hexpects {a : Awaited} (e : Expectation) (ha : e.awaited = a) (he : e.left? = none) :
      StackStep.more { r.stacked with expects := a } =
        (Step.more { r with expects := e }).stacked := by
    simp only [Step.stacked, stacked, h, ha, he]
  -- Where an operand is expected all operands on the stack belong to operators, by `h`.
  cases hk : t.kind with
  | endOfFile | stop =>
    simp only [StackReading.takeOperand, takeOperand, hk]
    exact unexpectedEnd_stacked
  | closing | comma | bar =>
    simp only [StackReading.takeOperand, takeOperand, hk]
    rw [frames_stacked]
    cases hp : r.pending with
    | nil => rfl
    | cons p ps =>
      cases p with
      | infixOp => rfl
      | prefixOp op token =>
        simp only [List.map_cons, Pending.frame, List.cons_append, prefixToAtom_stacked h hp]
        rw [takeOperator_stacked d t rfl]
        exact congrArg Step.stacked (takeOperator_congr (r := { r with pending := ps })
          (.operator ⟨.atom token.toAtom, 0⟩) (by simp [hk]) (by simp [hk]))
  | integer | float | charCode =>
    simp only [StackReading.takeOperand, takeOperand, hk]
    obtain _ | _ | n := t.number?
    · rfl
    · rfl
    · exact more_pushOperand_stacked h n
  | «variable» | anonymousVariable =>
    simp only [StackReading.takeOperand, takeOperand, hk]
    exact hvar _ _
  | doubleQuoted | backQuoted =>
    simp only [StackReading.takeOperand, takeOperand, hk]
    exact more_pushOperand_stacked h _
  | opening b =>
    cases b with
    | round =>
      simp only [StackReading.takeOperand, takeOperand, hk]
      exact congrArg StackStep.more (enter_stacked h .group).symm
    | square =>
      simp only [StackReading.takeOperand, takeOperand, hk]
      exact hexpects .listStart rfl rfl
    | curly =>
      simp only [StackReading.takeOperand, takeOperand, hk]
      exact hexpects .bracesStart rfl rfl
  | atom | quotedAtom =>
    simp only [StackReading.takeOperand, takeOperand, hk]
    rw [takeName_stacked h, ofAttempt_stacked]
  | comment =>
    simp only [StackReading.takeOperand, takeOperand, hk]
    rfl

theorem take_stacked (d : Dialect) (r : Reading) (t : Token) :
    r.stacked.take d t = (r.take d t).stacked := by
  simp only [StackReading.take, take, endsWith_stacked, expression_stacked]
  by_cases hends : r.endsWith d.flags t = true
  · simp only [hends, if_true]
    cases r.expression t with
    | error e => rfl
    | ok term => exact close_stacked term
  · have hexpects : r.stacked.expects = r.expects.awaited := rfl
    simp only [hends, hexpects]
    cases hx : r.expects with
    | operator left => exact takeOperator_stacked d t hx
    | _ => exact takeOperand_stacked d t (by rw [hx]; rfl)

/-- The stacks hold what a step takes from them. -/
theorem step_stacked (d : Dialect) (r : Reading) (t : Token) :
    r.stacked.step d t = (r.step d t).stacked := by
  have hexpects : r.stacked.expects = r.expects.awaited := rfl
  cases hx : r.expects with
  | operand | operator left =>
    simp only [StackReading.step, step, settle, hexpects, hx, Expectation.awaited]
    exact take_stacked d r t
  | arguments f =>
    simp only [StackReading.step, step, settle, hexpects, hx, Expectation.awaited]
    by_cases hk : t.kind = .opening .round
    · simp only [hk, if_true]
      exact congrArg StackStep.more (enter_stacked (by rw [hx]; rfl) _).symm
    · simp only [hk, if_false]
      rfl
  | listStart | bracesStart =>
    have hleft : r.expects.left? = none := by rw [hx]; rfl
    simp only [StackReading.step, step, settle, hexpects, hx, Expectation.awaited]
    split
    · exact more_pushOperand_stacked hleft _
    · rw [← enter_stacked hleft]
      exact take_stacked d _ t
  | signed op sign =>
    simp only [StackReading.step, step, settle, hexpects, hx, Expectation.awaited]
    obtain _ | _ | n := (if t.layoutBefore = true then none else t.number?)
    · rw [takePrefix_stacked (by rw [hx]; rfl)]
      cases r.takePrefix d op sign with
      | error e => rfl
      | ok next => exact take_stacked d next t
    · rfl
    · exact more_pushOperand_stacked (by rw [hx]; rfl) _

/-- Reading on stacks comes to the same. -/
theorem feed_stacked (d : Dialect) (r : Reading) (ts : List Token) :
    r.stacked.feed d ts = (r.feed d ts).stacked := by
  induction ts generalizing r with
  | nil => rfl
  | cons t ts ih =>
    by_cases hk : t.kind = .comment
    · simp only [StackReading.feed, feed, hk, if_true]
      exact ih r
    · simp only [StackReading.feed, feed, hk, if_false, step_stacked]
      cases r.step d t with
      | more next => exact ih next
      | _ => rfl

end Reading

/-! ## Tokens of a text -/

namespace StackReading

variable {d : Dialect} {r : Reading} {ts : List Token} {c c' : Cursor}

theorem feed_ne_stuck_of_fits (h : r.Fits d.flags c) (hs : Scans d.flags c ts c') :
    r.stacked.feed d ts ≠ .stuck := by
  rw [Reading.feed_stacked]
  induction hs generalizing r with
  | nil => exact nofun
  | @cons c t after ts c' ht _ ih =>
    by_cases hk : t.kind = .comment
    · rw [Reading.feed_comment hk]
      exact ih (h.comment ht hk)
    · by_cases hmore : ∃ next, r.step d t = .more next
      · obtain ⟨next, hnext⟩ := hmore
        rw [Reading.feed_more hnext]
        exact ih (h.more ht hk hnext)
      · have hproper := h.step_proper ht hk
        rw [Reading.feed_over hk (not_exists.1 hmore)]
        intro hstuck
        cases hstep : r.step d t with
        | stuck =>
          rw [hstep] at hproper
          exact hproper
        | _ => simp [Fed.stacked, Step.stacked, hstep] at hstuck

/-- No sentence makes a stack lack what is to be taken from it, has a token that cannot come, or a
functor without its parenthesis. -/
theorem feed_ne_stuck (issued : Nat) (hs : Scans d.flags c ts c') :
    (start issued).feed d ts ≠ .stuck :=
  feed_ne_stuck_of_fits (Reading.fits_start d.flags issued c) hs

end StackReading

end PrologText
