import PrologText.Proofs.Operands
import PrologText.Proofs.Phrases
import PrologText.Proofs.Soundness

/-!
# Phrases are read

Whatever the operators, a phrase with the end of the sentence behind it is read as a sentence
(`Reader.next_sentence_of_phrase`). A reading applies an operator as soon as the next one does not
bind tighter. This never closes a way that a derivation goes, because the operators that wait stay
viable: each can take an operand of the priority to come, and its own priority suits the operator
before it.
-/

namespace PrologText

theorem Operator.leftBound_le (op : Operator) : op.leftBound ≤ op.priority := by
  unfold leftBound
  cases op.specifier <;> simp only [Specifier.bounds] <;> omega

theorem Operator.rightBound_le (op : Operator) : op.rightBound ≤ op.priority := by
  unfold rightBound
  cases op.specifier <;> simp only [Specifier.bounds] <;> omega

/-! ## Operators that can be applied -/

namespace Pending

/-- The left operand of an operator that waits, if there is one, has a priority that it admits. -/
def LeftFits : Pending → Prop
  | prefixOp _ _ => True
  | infixOp left op _ => (left.priority : Int) ≤ op.leftBound

/-- Operators that wait, last first, can be applied one after the other once an operand of the
priority `q` comes. -/
def Viable : List Pending → Nat → Prop
  | [], _ => True
  | p :: ps, q => p.LeftFits ∧ (q : Int) ≤ p.op.rightBound ∧ Viable ps p.op.priority

variable {p : Pending} {ps qs front : List Pending} {q q' : Nat} {x : Operand} {op : Operator}
variable {t : Token}

theorem Viable.mono (h : Viable ps q) (hle : q' ≤ q) : Viable ps q' := by
  cases ps with
  | nil => trivial
  | cons p ps =>
    obtain ⟨hleft, hright, hps⟩ := h
    exact ⟨hleft, by omega, hps⟩

theorem Viable.tail (h : Viable (p :: ps) q) : Viable ps q := by
  obtain ⟨-, hright, hps⟩ := h
  have := p.op.rightBound_le
  exact hps.mono (by omega)

theorem Viable.suffix (h : Viable ps q) (hs : qs <:+ ps) : Viable qs q := by
  induction ps with
  | nil =>
    rw [List.suffix_nil.1 hs]
    trivial
  | cons p ps ih =>
    rcases List.suffix_cons_iff.1 hs with rfl | hs
    · exact h
    · exact ih h.tail hs

theorem exists_apply (hleft : p.LeftFits) (hright : (x.priority : Int) ≤ p.op.rightBound) :
    ∃ y, p.apply x = .ok y ∧ y.priority = p.op.priority := by
  cases p with
  | prefixOp op t => exact ⟨_, if_neg (Int.not_lt.2 hright), rfl⟩
  | infixOp left op t =>
    exact ⟨_, if_neg (not_or.2 ⟨Int.not_lt.2 hleft, Int.not_lt.2 hright⟩), rfl⟩

theorem exists_applyAll (h : Viable ps x.priority) : ∃ y, applyAll ps x = .ok y := by
  induction ps generalizing x with
  | nil => exact ⟨x, rfl⟩
  | cons p ps ih =>
    obtain ⟨hleft, hright, hps⟩ := h
    obtain ⟨y, hy, hpriority⟩ := exists_apply hleft hright
    obtain ⟨z, hz⟩ := ih (hpriority ▸ hps)
    exact ⟨z, by simp only [applyAll, hy, hz]⟩

/-- An operator that can take the place of an operand excludes none of those that wait. -/
theorem Viable.not_excludes (h : Viable (p :: ps) op.priority) : p.excludes op = false := by
  cases p with
  | prefixOp => rfl
  | infixOp left before token =>
    have hright : (op.priority : Int) ≤ before.rightBound := h.2.1
    unfold Operator.rightBound at hright
    simp only [excludes, decide_eq_false_iff_not]
    rintro ⟨hpriority, hspecifier, -⟩
    rw [hspecifier, hpriority] at hright
    simp only [Specifier.bounds] at hright
    omega

/-- Applying what binds tighter than `op` leaves a part of the operators that wait, if the operand
and an expression with `op` as its operator both suit them. -/
theorem exists_applyTighter (h : Viable ps x.priority) (hop : Viable ps op.priority)
    (hx : (x.priority : Int) ≤ op.leftBound) :
    ∃ qs y, applyTighter op t ps x = .ok (qs, y) ∧ qs <:+ ps ∧
      (y.priority : Int) ≤ op.leftBound := by
  induction ps generalizing x with
  | nil => exact ⟨[], x, rfl, List.suffix_rfl, hx⟩
  | cons p ps ih =>
    rw [applyTighter]
    split
    · rw [hop.not_excludes]
      exact ⟨p :: ps, x, rfl, List.suffix_rfl, hx⟩
    · next hle =>
      obtain ⟨y, hy, hpriority⟩ := exists_apply h.1 h.2.1
      obtain ⟨qs, z, hz, hqs, hbound⟩ :=
        ih (hpriority ▸ h.2.2) hop.tail (by rw [hpriority]; exact Int.not_lt.1 hle)
      exact ⟨qs, z, by simp only [hy, hz], hqs.trans (List.suffix_cons p ps), hbound⟩

theorem exists_applyTighter_append (h : Viable (front ++ ps) x.priority)
    (hfront : ∀ p ∈ front, (p.op.priority : Int) ≤ op.leftBound) (hop : Viable ps op.priority)
    (hx : (x.priority : Int) ≤ op.leftBound) :
    ∃ qs y, applyTighter op t (front ++ ps) x = .ok (qs, y) ∧ qs <:+ ps ∧
      (y.priority : Int) ≤ op.leftBound := by
  induction front generalizing x with
  | nil => exact exists_applyTighter h hop hx
  | cons p front ih =>
    have hp := hfront p List.mem_cons_self
    obtain ⟨y, hy, hpriority⟩ := exists_apply h.1 h.2.1
    obtain ⟨qs, z, hz, hqs, hbound⟩ :=
      ih (hpriority ▸ h.2.2) (fun p hp => hfront p (List.mem_cons_of_mem _ hp)) (hpriority ▸ hp)
    refine ⟨qs, z, ?_, hqs, hbound⟩
    simp only [List.cons_append, applyTighter, if_neg (Int.not_lt.2 hp), hy, hz]

end Pending

/-! ## First tokens -/

/-- Tokens of which the first belongs to an expression and ends none. -/
def Starts (ts : List Token) : Prop :=
  ∃ t us, ts = t :: us ∧ t.kind.isPart ∧ t.kind.goesOn

theorem Starts.append {ts : List Token} (h : Starts ts) (us : List Token) : Starts (ts ++ us) := by
  obtain ⟨t, rest, rfl, ht⟩ := h
  exact ⟨t, rest ++ us, rfl, ht⟩

theorem Token.IsOperand.starts {d : Dialect} {t : Token} (h : t.IsOperand d) :
    t.kind.isPart ∧ t.kind.goesOn := by
  cases h with
  | number h =>
    unfold Token.number? at h
    cases hk : t.kind <;> simp_all [TokenKind.isPart, TokenKind.goesOn]
  | named h | anonymous h | doubleQuoted h | backQuoted h =>
    simp [h, TokenKind.isPart, TokenKind.goesOn]
  | name h => rcases h.1.1 with hk | hk <;> simp [hk, TokenKind.isPart, TokenKind.goesOn]

mutual

theorem Phrase.starts {d s ts p} : Phrase d s ts p → Starts ts
  | .operand h => ⟨_, _, rfl, h.starts⟩
  | .signed ⟨⟨_, hs⟩, _⟩ _ _ => ⟨_, _, rfl, by simp [hs.1, TokenKind.isPart, TokenKind.goesOn]⟩
  | .empty ho _ _ | .enclosed ho _ _ _ | .list ho _ _ | .partialList ho _ _ _ _ =>
    ⟨_, _, rfl, by simp [ho, TokenKind.isPart, TokenKind.goesOn]⟩
  | .compound hf _ _ _ => ⟨_, _, rfl, by
      rcases hf.1 with hk | hk <;> simp [hk, TokenKind.isPart, TokenKind.goesOn]⟩
  | .prefixOp ht _ _ _ => ⟨_, _, rfl, by simp [ht.1, TokenKind.isPart, TokenKind.goesOn]⟩
  | .infixOp h _ _ _ _ _ | .postfixOp h _ _ _ => h.starts.append _

theorem Phrases.starts {d s ts} : Phrases d s ts → Starts ts
  | .one h => h.starts
  | .snoc h _ _ => h.starts.append _

end

/-! ## Readings behind an expression -/

namespace Reading

open Pending (Viable)

variable {d : Dialect} {s : Scope} {o : List (Enclosure × List Pending)} {ps : List Pending}
variable {q : Nat} {b : Bindings} {t : Token} {ts us : List Token} {op : Operator} {r : Reading}

/-- A reading behind an expression of at most the priority `q`, before which the operators `ps`
waited: a part of them is left, operators of the expression may wait as well, and all can be
applied. -/
structure Behind (o : List (Enclosure × List Pending)) (ps : List Pending) (q : Nat)
    (r : Reading) : Prop where
  outer : r.outer = o
  split : ∃ front rest x, r.pending = front ++ rest ∧ r.expects = .operator x ∧ rest <:+ ps ∧
    (∀ p ∈ front, p.op.priority ≤ q) ∧ x.priority ≤ q ∧ Viable (front ++ rest) x.priority

/-- Tokens that every reading takes as an expression of the priority `q`, if the operators that wait
before it can be applied to such a one. -/
def Accepts (d : Dialect) (s : Scope) (ts : List Token) (q : Nat) : Prop :=
  ∀ o ps b, .inside o = s → Viable ps q →
    ∃ r, (⟨o, ps, .operand, b⟩ : Reading).feed d ts = .more r ∧ r.Behind o ps q

theorem behind_of_suffix {rest : List Pending} (hrest : rest <:+ ps) (h : Viable rest q)
    (x : Term) :
    (⟨o, rest, .operator ⟨x, q⟩, b⟩ : Reading).Behind o ps q :=
  ⟨rfl, [], rest, ⟨x, q⟩, rfl, rfl, hrest, by simp, Nat.le_refl _, h⟩

theorem behind_operand (h : Viable ps 0) (x : Term) :
    (⟨o, ps, .operator ⟨x, 0⟩, b⟩ : Reading).Behind o ps 0 :=
  behind_of_suffix List.suffix_rfl h x

/-- What follows on an operator that waited becomes part of the expression of that operator. -/
theorem Behind.widen {p : Pending} (h : r.Behind o (p :: ps) q) (hp : p.op.priority = op.priority)
    (hq : (q : Int) ≤ op.rightBound) {qs : List Pending} (hqs : ps <:+ qs) :
    r.Behind o qs op.priority := by
  obtain ⟨houter, front, rest, x, hpending, hx, hrest, hfront, hpriority, hviable⟩ := h
  have hle : q ≤ op.priority := by
    have := op.rightBound_le
    omega
  refine ⟨houter, ?_⟩
  rcases List.suffix_cons_iff.1 hrest with rfl | hrest
  · refine ⟨front ++ [p], ps, x, by simpa using hpending, hx, hqs, ?_, by omega,
      by simpa using hviable⟩
    intro p' hp'
    rcases List.mem_append.1 hp' with hp' | hp'
    · exact Nat.le_trans (hfront p' hp') hle
    · exact Nat.le_of_eq (List.mem_singleton.1 hp' ▸ hp)
  · exact ⟨front, rest, x, hpending, hx, hrest.trans hqs, fun p' hp' =>
      Nat.le_trans (hfront p' hp') hle, by omega, hviable⟩

/-! ## Steps from one expression to the next -/

theorem Behind.exists_expression (h : r.Behind o [] q) (t : Token) :
    ∃ x, r.expression t = .ok x := by
  obtain ⟨-, front, rest, x, hpending, hx, -, -, -, hviable⟩ := h
  obtain ⟨y, hy⟩ := Pending.exists_applyAll (hpending ▸ hviable)
  exact ⟨y.term, by simp only [expression, lastOperand, hx, hy]⟩

theorem Behind.settle_eq (h : r.Behind o ps q) (t : Token) : r.settle d t = .ready r := by
  obtain ⟨-, -, -, x, -, hx, -⟩ := h
  simp only [settle, hx]

/-- The bracket that closes an enclosure makes its content an operand. -/
theorem Behind.step_closing {e : Enclosure} (h : r.Behind ((e, ps) :: o) [] q)
    (hk : t.kind = .closing e.bracket) :
    ∃ x, r.step d t = .more ⟨o, ps, .operator ⟨x, 0⟩, r.names⟩ := by
  obtain ⟨x, hx⟩ := h.exists_expression t
  have hends : r.endsWith d.flags t := by simp [endsWith, terminal, enclosure?, h.outer, hk]
  refine ⟨e.close x, ?_⟩
  simp only [step, h.settle_eq, take, hends, if_true, hx, close, h.outer]

/-- A comma or bar ends an argument or element. -/
theorem Behind.step_separate {e : Enclosure} {next : Term → Enclosure}
    (h : r.Behind ((e, ps) :: o) [] q) (hs : e.separated t.kind = some next) :
    ∃ x, r.step d t = .more (fresh ((next x, ps) :: o) r.names) := by
  have hsettle := h.settle_eq (d := d) t
  obtain ⟨houter, front, rest, left, hpending, hx, -, -, -, hviable⟩ := h
  obtain ⟨y, hy⟩ := Pending.exists_applyAll (hpending ▸ hviable)
  have hends : r.endsWith d.flags t = false :=
    endsWith_of_goesOn (by
      rcases Enclosure.kind_of_separated hs with hk | hk <;> simp [hk, TokenKind.goesOn])
  refine ⟨y.term, ?_⟩
  simp only [step, hsettle, take, hends, Bool.false_eq_true, if_false, hx]
  unfold Enclosure.separated at hs
  split at hs
  case h_4 => cases hs
  all_goals
    next hk =>
      cases hs
      simp [takeOperator, hk, enclosure?, houter, separate, hy, Step.ofExcept, fresh]

/-- An operator between or behind operands is taken as one. -/
theorem Behind.step_operator {x : Operand} (h : r.Behind o ps q) (hx : r.expects = .operator x)
    (ht : t.IsOperator d (.inside o) op) : r.step d t = .ofExcept (r.takeInfix x op t) := by
  obtain ⟨⟨hadmits, hop⟩, hquoted⟩ := ht
  have hends : r.endsWith d.flags t = false :=
    endsWith_of_goesOn (by revert hadmits; cases t.kind <;> simp [Scope.admits, TokenKind.goesOn])
  have henclosure : r.enclosure? = o.head?.map (·.1) := by rw [enclosure?, h.outer]
  simp only [step, h.settle_eq, take, hends, Bool.false_eq_true, if_false, hx]
  -- A comma between arguments or elements, and a bar between elements, is not admitted.
  cases hk : t.kind with
  | atom => simp only [takeOperator, hk, hop]
  | quotedAtom =>
    have hne : ¬(t.text = "," ∨ t.text = "|") := fun ht => hquoted ⟨hk, ht⟩
    simp only [takeOperator, hk, hop, if_neg hne]
  | comma | bar =>
    rw [hk] at hadmits
    rcases o with _ | ⟨⟨_ | _ | _ | _, _⟩, _⟩ <;>
      simp_all [Scope.admits, Scope.inside, Enclosure.scope, takeOperator]
  | _ => simp [hk, Scope.admits] at hadmits

/-! ## Operands -/

theorem step_operand (hk : t.kind.goesOn) :
    (⟨o, ps, .operand, b⟩ : Reading).step d t =
      (⟨o, ps, .operand, b⟩ : Reading).takeOperand d t := by
  simp [step, settle, take, endsWith_of_goesOn hk]

theorem accepts_operand (h : t.IsOperand d) : Accepts d s [t] 0 := by
  intro o ps b _ hps
  suffices htake : ∃ x b', (⟨o, ps, .operand, b⟩ : Reading).takeOperand d t =
      .more ⟨o, ps, .operator ⟨x, 0⟩, b'⟩ by
    obtain ⟨x, b', htake⟩ := htake
    exact ⟨_, feed_more (by rw [step_operand h.starts.2, htake]), behind_operand hps x⟩
  cases h with
  | @number n h =>
    have hnumber := h
    unfold Token.number? at hnumber
    cases hk : t.kind with
    | integer | float | charCode => exact ⟨n, b, by simp [takeOperand, hk, h, withOperand]⟩
    | _ => simp [hk] at hnumber
  | named h | anonymous h | doubleQuoted h | backQuoted h =>
    simp only [takeOperand, h]
    exact ⟨_, _, rfl⟩
  | name h =>
    obtain ⟨⟨hk, hf⟩, hprefix, hinfix⟩ := h
    have hname : (⟨o, ps, .operand, b⟩ : Reading).takeOperand d t =
        .ofExcept ((⟨o, ps, .operand, b⟩ : Reading).takeName d t) := by
      rcases hk with hk | hk <;> simp only [takeOperand, hk]
    have hnone : (if t.kind = .atom then d.table.prefixOperator? t.text else none) = none := by
      split
      · next hatom => exact hprefix hatom
      · rfl
    exact ⟨.atom t.toAtom, b, by
      simp [hname, takeName, hf, hnone, hinfix, Step.ofExcept, withOperand]⟩

theorem step_sign_operand (ht : t.IsPrefix d op) (hs : t.text = "-" ∨ t.text = "+") :
    (⟨o, ps, .operand, b⟩ : Reading).step d t = .more ⟨o, ps, .signed op t, b⟩ := by
  obtain ⟨hk, hf, hop⟩ := ht
  rw [step_operand (by simp [hk, TokenKind.goesOn])]
  simp [takeOperand, hk, takeName, hf, hop, hs, Step.ofExcept]

theorem accepts_signed {sign : Token} {n : Term} (hs : sign.IsSign d) (hl : t.layoutBefore = false)
    (h : t.number? = some (.ok n)) : Accepts d s [sign, t] 0 := by
  intro o ps b _ hps
  obtain ⟨⟨op, hop⟩, htext⟩ := hs
  have hnumber : (⟨o, ps, .signed op sign, b⟩ : Reading).step d t =
      .more ⟨o, ps, .operator ⟨sign.signing n, 0⟩, b⟩ := by
    simp [step, settle, hl, h, withOperand, Token.signing]
  exact ⟨_, (feed_more (step_sign_operand hop htext)).trans (feed_more hnumber),
    behind_operand hps _⟩

theorem accepts_empty {opening closing : Token} {br : Bracket} (ho : opening.kind = .opening br)
    (hbr : br ≠ .round) (hc : closing.kind = .closing br) : Accepts d s [opening, closing] 0 := by
  intro o ps b _ hps
  have hopen : ∃ e x, (⟨o, ps, .operand, b⟩ : Reading).step d opening = .more ⟨o, ps, e, b⟩ ∧
      (⟨o, ps, e, b⟩ : Reading).step d closing = .more ⟨o, ps, .operator ⟨x, 0⟩, b⟩ := by
    rw [step_operand (by simp [ho, TokenKind.goesOn])]
    cases br with
    | round => exact absurd rfl hbr
    | square => exact ⟨.listStart, .nil, by simp [takeOperand, ho],
        by simp [step, settle, hc, withOperand]⟩
    | curly => exact ⟨.bracesStart, .atom .braces, by simp [takeOperand, ho],
        by simp [step, settle, hc, withOperand]⟩
  obtain ⟨e, x, hopen, hclose⟩ := hopen
  exact ⟨_, (feed_more hopen).trans (feed_more hclose), behind_operand hps x⟩

/-! ## Operators -/

theorem feed_append_of_more {r' : Reading} (h : r.feed d ts = .more r') :
    r.feed d (ts ++ us) = r'.feed d us := by
  rw [feed_append, h]
  rfl

/-- A reading that takes a token as another one does takes all tokens as that one does. -/
theorem feed_of_step_eq {r' last : Reading} (hk : t.kind.isPart) (hstep : r.step d t = r'.step d t)
    (h : r'.feed d (t :: ts) = .more last) : r.feed d (t :: ts) = .more last := by
  have hk : t.kind ≠ .comment := fun hc => by simp [hc, TokenKind.isPart] at hk
  by_cases hmore : ∃ next, r'.step d t = .more next
  · obtain ⟨next, hnext⟩ := hmore
    rwa [feed_more (hstep.trans hnext), ← feed_more hnext]
  · rw [feed_over hk (not_exists.1 hmore)] at h
    cases h

/-- A prefix operator whose expression suits the operators that wait is not taken for an infix
operator. -/
theorem takePrefix_of_viable (e : Expectation) (h : Viable ps op.priority) :
    (⟨o, ps, e, b⟩ : Reading).takePrefix d op t = .ok ⟨o, .prefixOp op t :: ps, .operand, b⟩ := by
  unfold takePrefix
  split
  · next before token qs _ hps _ =>
    cases hps
    exact if_neg (Int.not_lt.2 h.2.1)
  · rfl

theorem accepts_prefix {p : Nat} (ht : t.IsPrefix d op) (hts : Starts ts) (h : Accepts d s ts p)
    (hj : ∀ u ∈ ts.head?, ¬t.Joins d u) (hp : (p : Int) ≤ op.rightBound) :
    Accepts d s (t :: ts) op.priority := by
  intro o ps b ho hps
  obtain ⟨u, us, rfl, hu, -⟩ := hts
  obtain ⟨r, hfeed, hr⟩ := h o (.prefixOp op t :: ps) b ho ⟨trivial, hp, hps⟩
  refine ⟨r, ?_, hr.widen rfl hp List.suffix_rfl⟩
  by_cases hs : t.text = "-" ∨ t.text = "+"
  · have hnone : (if u.layoutBefore then none else u.number?) = none := by
      split
      · rfl
      · next hl =>
        exact Option.not_isSome_iff_eq_none.1 fun hn =>
          hj u rfl ⟨⟨⟨op, ht⟩, hs⟩, by simpa using hl, hn⟩
    rw [feed_more (step_sign_operand ht hs)]
    refine feed_of_step_eq hu ?_ hfeed
    simp [step, settle, hnone, takePrefix_of_viable _ hps]
  · have hstep : (⟨o, ps, .operand, b⟩ : Reading).step d t =
        .more ⟨o, .prefixOp op t :: ps, .operand, b⟩ := by
      obtain ⟨hk, hf, hop⟩ := ht
      rw [step_operand (by simp [hk, TokenKind.goesOn])]
      simp [takeOperand, hk, takeName, hf, hop, hs, takePrefix_of_viable _ hps, Step.ofExcept]
    rwa [feed_more hstep]

/-- Behind an expression that suits it, an infix or postfix operator finds its left operand. -/
theorem Behind.exists_applyTighter (h : r.Behind o ps q) (hq : (q : Int) ≤ op.leftBound)
    (hps : Viable ps op.priority) (t : Token) :
    ∃ x rest y, r.expects = .operator x ∧
      Pending.applyTighter op t r.pending x = .ok (rest, y) ∧ rest <:+ ps ∧
      (y.priority : Int) ≤ op.leftBound := by
  obtain ⟨-, front, rest, x, hpending, hx, hrest, hfront, hpriority, hviable⟩ := h
  obtain ⟨qs, y, htighter, hqs, hy⟩ := Pending.exists_applyTighter_append (t := t) hviable
    (fun p hp => by have := hfront p hp; omega) (hps.suffix hrest) (by omega)
  exact ⟨x, qs, y, hx, hpending ▸ htighter, hqs.trans hrest, hy⟩

theorem accepts_infix {p : Nat} (h : Accepts d s ts p) (ht : t.IsOperator d s op)
    (hf : op.specifier.fixity ≠ .postfixOp) (h' : Accepts d s us q)
    (hp : (p : Int) ≤ op.leftBound) (hq : (q : Int) ≤ op.rightBound) :
    Accepts d s (ts ++ t :: us) op.priority := by
  rintro o ps b rfl hps
  have hle := op.leftBound_le
  obtain ⟨r, hfeed, hr⟩ := h o ps b rfl (hps.mono (by omega))
  obtain ⟨x, rest, y, hx, htighter, hrest, hy⟩ := hr.exists_applyTighter hp hps t
  have hstep : r.step d t = .more ⟨o, .infixOp y op t :: rest, .operand, r.names⟩ := by
    simp [hr.step_operator hx ht, takeInfix, htighter, hf, Step.ofExcept, hr.outer]
  obtain ⟨r', hfeed', hr'⟩ := h' o (.infixOp y op t :: rest) r.names rfl
    ⟨hy, hq, hps.suffix hrest⟩
  exact ⟨r', (feed_append_of_more hfeed).trans ((feed_more hstep).trans hfeed'),
    hr'.widen rfl hq hrest⟩

theorem accepts_postfix {p : Nat} (h : Accepts d s ts p) (ht : t.IsOperator d s op)
    (hf : op.specifier.fixity = .postfixOp) (hp : (p : Int) ≤ op.leftBound) :
    Accepts d s (ts ++ [t]) op.priority := by
  rintro o ps b rfl hps
  have hle := op.leftBound_le
  obtain ⟨r, hfeed, hr⟩ := h o ps b rfl (hps.mono (by omega))
  obtain ⟨x, rest, y, hx, htighter, hrest, hy⟩ := hr.exists_applyTighter hp hps t
  have hstep : r.step d t =
      .more ⟨o, rest, .operator ⟨.compound t.toAtom [y.term], op.priority⟩, r.names⟩ := by
    simp [hr.step_operator hx ht, takeInfix, htighter, hf, Int.not_lt.2 hy, Step.ofExcept, hr.outer]
  exact ⟨_, (feed_append_of_more hfeed).trans (feed_more hstep),
    behind_of_suffix hrest (hps.suffix hrest) _⟩

/-! ## Enclosures -/

end Reading

namespace Enclosure

/-- Whether a comma inside an enclosure is followed by one more term. -/
def collects : Enclosure → Bool
  | arguments _ _ => true
  | list _ afterBar => !afterBar
  | _ => false

theorem exists_separated_comma {e : Enclosure} (h : e.collects) :
    ∃ next, e.separated .comma = some next ∧
      ∀ x, (next x).collects ∧ (next x).scope = e.scope ∧ (next x).bracket = e.bracket := by
  cases e with
  | group | braces => simp [collects] at h
  | arguments f done => exact ⟨_, rfl, fun _ => ⟨rfl, rfl, rfl⟩⟩
  | list done afterBar =>
    obtain rfl : afterBar = false := by simpa [collects] using h
    exact ⟨_, rfl, fun _ => ⟨rfl, rfl, rfl⟩⟩

theorem exists_separated_bar {e : Enclosure} (h : e.collects) (hs : e.scope = .element) :
    ∃ next, e.separated .bar = some next ∧
      ∀ x, (next x).scope = .element ∧ (next x).bracket = e.bracket := by
  cases e with
  | group | braces => simp [collects] at h
  | arguments => simp [scope] at hs
  | list done afterBar =>
    obtain rfl : afterBar = false := by simpa [collects] using h
    exact ⟨_, rfl, fun _ => ⟨rfl, rfl⟩⟩

end Enclosure

namespace Reading

open Pending (Viable)

variable {d : Dialect} {s : Scope} {o : List (Enclosure × List Pending)} {ps : List Pending}
variable {q : Nat} {b : Bindings} {t : Token} {ts us : List Token} {r : Reading}
variable {opening closing : Token}

/-- Tokens that are taken as terms with commas between them inside every enclosure for such. -/
def Collects (d : Dialect) (s : Scope) (ts : List Token) : Prop :=
  ∀ e ps o b, e.scope = s → e.collects →
    ∃ r e' q, (fresh ((e, ps) :: o) b).feed d ts = .more r ∧ r.Behind ((e', ps) :: o) [] q ∧
      e'.collects ∧ e'.scope = s ∧ e'.bracket = e.bracket

theorem Accepts.collects (h : Accepts d s ts q) : Collects d s ts := by
  intro e ps o b hs he
  obtain ⟨r, hfeed, hr⟩ := h ((e, ps) :: o) [] b hs trivial
  exact ⟨r, e, q, hfeed, hr, he, hs, rfl⟩

theorem Collects.snoc {comma : Token} (h : Collects d s ts) (hc : comma.kind = .comma)
    (h' : Accepts d s us q) : Collects d s (ts ++ comma :: us) := by
  intro e ps o b hs he
  obtain ⟨r, e', p, hfeed, hr, he', hs', hbracket⟩ := h e ps o b hs he
  obtain ⟨next, hnext, hkeeps⟩ := Enclosure.exists_separated_comma he'
  obtain ⟨x, hstep⟩ := hr.step_separate (d := d) (hc ▸ hnext)
  obtain ⟨hcollects, hscope, hbracket'⟩ := hkeeps x
  obtain ⟨r', e'', q', hfeed', hr', he'', hs'', hbracket''⟩ :=
    h'.collects (next x) ps o r.names (hscope.trans hs') hcollects
  exact ⟨r', e'', q', (feed_append_of_more hfeed).trans ((feed_more hstep).trans hfeed'), hr', he'',
    hs'', hbracket''.trans (hbracket'.trans hbracket)⟩

/-- An expression and the bracket behind it make the enclosure around them an operand. -/
theorem Behind.feed_closing {e : Enclosure} {start : Reading} (hr : r.Behind ((e, ps) :: o) [] q)
    (hfeed : start.feed d ts = .more r) (hc : closing.kind = .closing e.bracket)
    (hps : Viable ps 0) :
    ∃ r', start.feed d (ts ++ [closing]) = .more r' ∧ r'.Behind o ps 0 := by
  obtain ⟨x, hstep⟩ := hr.step_closing (d := d) hc
  exact ⟨_, (feed_append_of_more hfeed).trans (feed_more hstep), behind_operand hps x⟩

theorem Accepts.feed_enclosed {e : Enclosure} (h : Accepts d e.scope ts q)
    (hc : closing.kind = .closing e.bracket) (hps : Viable ps 0) :
    ∃ r, (fresh ((e, ps) :: o) b).feed d (ts ++ [closing]) = .more r ∧ r.Behind o ps 0 := by
  obtain ⟨r, hfeed, hr⟩ := h ((e, ps) :: o) [] b rfl trivial
  exact hr.feed_closing hfeed hc hps

/-- A reading takes tokens as the one does that it opens. -/
theorem Opens.feed {start last : Reading} (h : Opens d r start) (hts : Starts ts)
    (hfeed : start.feed d ts = .more last) : r.feed d ts = .more last := by
  obtain ⟨t, us, rfl, hpart, hgoes⟩ := hts
  exact feed_of_step_eq hpart (h t hgoes) hfeed

theorem accepts_enclosed {br : Bracket} (ho : opening.kind = .opening br) (hbr : br ≠ .square)
    (hts : Starts ts) (h : Accepts d .whole ts q) (hc : closing.kind = .closing br) :
    Accepts d s (opening :: ts ++ [closing]) 0 := by
  intro o ps b _ hps
  have hgoes : opening.kind.goesOn := by simp [ho, TokenKind.goesOn]
  cases br with
  | square => exact absurd rfl hbr
  | round =>
    obtain ⟨r, hfeed, hr⟩ := h.feed_enclosed (e := .group) (o := o) (b := b) hc hps
    have hopen : (⟨o, ps, .operand, b⟩ : Reading).step d opening =
        .more (fresh ((.group, ps) :: o) b) := by
      rw [step_operand hgoes]
      simp [takeOperand, ho, enter, fresh]
    exact ⟨r, (feed_more hopen).trans hfeed, hr⟩
  | curly =>
    obtain ⟨r, hfeed, hr⟩ := h.feed_enclosed (e := .braces) (o := o) (b := b) hc hps
    have hopen : (⟨o, ps, .operand, b⟩ : Reading).step d opening =
        .more ⟨o, ps, .bracesStart, b⟩ := by
      rw [step_operand hgoes]
      simp only [takeOperand, ho]
    exact ⟨r, (feed_more hopen).trans ((opens_braces d ps).feed (hts.append _) hfeed), hr⟩

theorem accepts_compound {f : Token} (hf : f.IsFunctor) (ho : opening.kind = .opening .round)
    (h : Collects d .argument ts) (hc : closing.kind = .closing .round) :
    Accepts d s (f :: opening :: ts ++ [closing]) 0 := by
  intro o ps b _ hps
  obtain ⟨hk, hfunctional⟩ := hf
  have hname : (⟨o, ps, .operand, b⟩ : Reading).step d f =
      .more ⟨o, ps, .arguments f.toAtom, b⟩ := by
    rw [step_operand (by rcases hk with hk | hk <;> simp [hk, TokenKind.goesOn])]
    rcases hk with hk | hk <;> simp [takeOperand, hk, takeName, hfunctional, Step.ofExcept]
  have hopen : (⟨o, ps, .arguments f.toAtom, b⟩ : Reading).step d opening =
      .more (fresh ((.arguments f.toAtom [], ps) :: o) b) := by
    simp [step, settle, ho, enter, fresh]
  obtain ⟨r, e', q, hfeed, hr, -, -, hbracket⟩ :=
    h (.arguments f.toAtom []) ps o b rfl rfl
  obtain ⟨r', hfeed', hr'⟩ := hr.feed_closing hfeed (hc.trans (by rw [hbracket]; rfl)) hps
  exact ⟨r', (feed_more hname).trans ((feed_more hopen).trans hfeed'), hr'⟩

/-- The tokens of a list behind its opening bracket. -/
theorem accepts_list_of_feed (ho : opening.kind = .opening .square) (hts : Starts ts)
    (h : ∀ o ps b, Viable ps 0 →
      ∃ r, (fresh ((.list [] false, ps) :: o) b).feed d ts = .more r ∧ r.Behind o ps 0) :
    Accepts d s (opening :: ts) 0 := by
  intro o ps b _ hps
  have hstep : (⟨o, ps, .operand, b⟩ : Reading).step d opening = .more ⟨o, ps, .listStart, b⟩ := by
    rw [step_operand (by simp [ho, TokenKind.goesOn])]
    simp only [takeOperand, ho]
  obtain ⟨r, hfeed, hr⟩ := h o ps b hps
  exact ⟨r, (feed_more hstep).trans ((opens_list d ps).feed hts hfeed), hr⟩

theorem accepts_list (ho : opening.kind = .opening .square) (hts : Starts ts)
    (h : Collects d .element ts) (hc : closing.kind = .closing .square) :
    Accepts d s (opening :: ts ++ [closing]) 0 := by
  refine accepts_list_of_feed ho (hts.append _) fun o ps b hps => ?_
  obtain ⟨r, e, q, hfeed, hr, -, -, hbracket⟩ := h (.list [] false) ps o b rfl rfl
  exact hr.feed_closing hfeed (hc.trans (by rw [hbracket]; rfl)) hps

theorem accepts_partialList {bar : Token} (ho : opening.kind = .opening .square)
    (hts : Starts ts) (h : Collects d .element ts) (hb : bar.kind = .bar)
    (h' : Accepts d .element us q) (hc : closing.kind = .closing .square) :
    Accepts d s (opening :: ts ++ bar :: us ++ [closing]) 0 := by
  simp only [List.cons_append, List.append_assoc]
  refine accepts_list_of_feed ho (hts.append _) fun o ps b hps => ?_
  obtain ⟨r, e, p, hfeed, hr, he, hs, hbracket⟩ := h (.list [] false) ps o b rfl rfl
  obtain ⟨next, hnext, hkeeps⟩ := Enclosure.exists_separated_bar he hs
  obtain ⟨x, hstep⟩ := hr.step_separate (d := d) (hb ▸ hnext)
  obtain ⟨hscope, hbracket'⟩ := hkeeps x
  obtain ⟨r', hfeed', hr'⟩ := (hscope ▸ h').feed_enclosed (e := next x) (o := o) (b := r.names)
    (hc.trans (by rw [hbracket', hbracket]; rfl)) hps
  exact ⟨r', (feed_append_of_more hfeed).trans ((feed_more hstep).trans hfeed'), hr'⟩

end Reading

/-! ## Phrases -/

open Reading in
mutual

theorem Phrase.accepts {d s ts p} : Phrase d s ts p → Accepts d s ts p
  | .operand h => accepts_operand h
  | .signed hs hl h => accepts_signed hs hl h
  | .empty ho hbr hc => accepts_empty ho hbr hc
  | .enclosed ho hbr h hc => accepts_enclosed ho hbr h.starts h.accepts hc
  | .compound hf ho h hc => accepts_compound hf ho h.collects hc
  | .list ho h hc => accepts_list ho h.starts h.collects hc
  | .partialList ho h hb ht hc => accepts_partialList ho h.starts h.collects hb ht.accepts hc
  | .prefixOp ht h hj hp => accepts_prefix ht h.starts h.accepts hj hp
  | .infixOp h ht hf h' hp hq => accepts_infix h.accepts ht hf h'.accepts hp hq
  | .postfixOp h ht hf hp => accepts_postfix h.accepts ht hf hp

theorem Phrases.collects {d s ts} : Phrases d s ts → Collects d s ts
  | .one h => h.accepts.collects
  | .snoc h hc h' => h.collects.snoc hc h'.accepts

end

/-! ## Sentences -/

namespace Reading

variable {d : Dialect} {r last : Reading} {ts : List Token}

theorem feed_of_uncommented (h : r.feed d (uncommented ts) = .more last) :
    r.feed d ts = .more last := by
  induction ts generalizing r with
  | nil => exact h
  | cons t ts ih =>
    by_cases hk : t.kind = .comment
    · rw [feed_comment hk]
      exact ih (by simpa [uncommented, hk] using h)
    · rw [show uncommented (t :: ts) = t :: uncommented ts by simp [uncommented, hk]] at h
      by_cases hmore : ∃ next, r.step d t = .more next
      · obtain ⟨next, hnext⟩ := hmore
        rw [feed_more hnext] at h ⊢
        exact ih h
      · rw [feed_over hk (not_exists.1 hmore)] at h
        cases h

/-- A phrase and a token that ends a sentence complete one. -/
theorem exists_done_of_phrase {p : Nat} {t : Token} (h : Phrase d .whole ts p)
    (ht : d.flags.Ends t) (issued : Nat) :
    ∃ r x, (start issued).feed d ts = .more r ∧ r.step d t = .done x r.names := by
  obtain ⟨r, hfeed, hr⟩ := h.accepts [] [] (.startingAfter issued) rfl trivial
  obtain ⟨x, hx⟩ := hr.exists_expression t
  have hends : r.endsWith d.flags t := by
    obtain ⟨houter, -, -, left, -, hleft, -⟩ := hr
    rcases ht with hk | ⟨hopt, hk⟩
    · simp [endsWith, terminal, enclosure?, houter, hk]
    · simp [endsWith, terminal, enclosure?, atTop, isEmpty, houter, hleft, hopt, hk]
  exact ⟨r, x, hfeed, by simp only [step, hr.settle_eq, take, hends, if_true, hx, close, hr.outer]⟩

end Reading

namespace Reader

/-- Tokens that are a phrase up to the comments among them, with a token behind them that ends a
sentence, are read as a sentence, whatever operators the dialect has. -/
theorem next_sentence_of_phrase {d : Dialect} {r : Reader} {start after : Cursor}
    {body : List Token} {last : Token} {p : Nat} (hstart : r.StartsAt d.flags start)
    (hscans : Scans d.flags start (body ++ [last]) after) (hlast : d.flags.Ends last)
    (h : Phrase d .whole (uncommented body) p) :
    ∃ s issued, r.next d = (.sentence s, ⟨after, false, issued⟩) := by
  obtain ⟨reading, x, hfeed, hdone⟩ := Reading.exists_done_of_phrase h hlast r.issued
  obtain ⟨middle, hbody, hrest⟩ := hscans.of_append
  have hk : last.kind ≠ .comment := by rcases hlast with hk | ⟨-, hk⟩ <;> simp [hk]
  cases hrest with
  | cons ht hnil =>
    cases hnil
    have hrun : Run.at d r.issued start =
        .conclude reading (body ++ [last]) after (.done x reading.names) := by
      rw [Run.at, Reading.run_of_feed_more hbody (Reading.feed_of_uncommented hfeed),
        Reading.run_over ht hk (by simp [hdone]), hdone]
      simp
    exact ⟨_, _, by rw [next_eq_readAt hstart, readAt, hrun]; rfl⟩

/-- A clause with prefix and infix operators, a sign that is an operator and one that is not. -/
def negatedEquation : Text :=
  "\\+ X = - 1 - f(a, [-2|T])."

/-- A token of the clause. -/
def inEquation (kind : TokenKind) (text : Text) (layoutBefore functional : Bool) (column : Nat) :
    Token :=
  ⟨kind, text, layoutBefore, functional, ⟨1, column, negatedEquation⟩⟩

/-- The tokens of the list in the clause. -/
def equationList : List Token :=
  [inEquation (.opening .square) "[" true false 19, inEquation .atom "-" false false 20,
    inEquation (.integer 10) "2" false false 21, inEquation .bar "|" false false 22,
    inEquation .variable "T" false false 23, inEquation (.closing .square) "]" false false 24]

/-- The tokens of the right side in the clause. -/
def equationRight : List Token :=
  [inEquation .atom "-" true false 8, inEquation (.integer 10) "1" true false 10,
    inEquation .atom "-" true false 12, inEquation .atom "f" true true 14,
    inEquation (.opening .round) "(" false false 15, inEquation .atom "a" false false 16,
    inEquation .comma "," false false 17] ++ equationList ++
    [inEquation (.closing .round) ")" false false 25]

/-- The tokens of the clause before its end. -/
def equationBody : List Token :=
  inEquation .atom "\\+" false false 1 :: inEquation .variable "X" true false 4 ::
    inEquation .atom "=" true false 6 :: equationRight

theorem phrase_equationList (s : Scope) : Phrase .standard s equationList 0 := by
  have hminus : (inEquation .atom "-" false false 20).IsPrefix .standard ⟨"-", 200, .fy⟩ :=
    ⟨rfl, rfl, by decide +kernel⟩
  exact .partialList rfl (.one (.signed ⟨⟨_, hminus⟩, .inl rfl⟩ rfl rfl)) rfl
    (.operand (.named rfl)) rfl

theorem phrase_equationRight (s : Scope) : Phrase .standard s equationRight 500 := by
  have hminus : (inEquation .atom "-" true false 8).IsPrefix .standard ⟨"-", 200, .fy⟩ :=
    ⟨rfl, rfl, by decide +kernel⟩
  have hinfix : (inEquation .atom "-" true false 12).IsOperator .standard s ⟨"-", 500, .yfx⟩ :=
    ⟨⟨by cases s <;> rfl, by decide +kernel⟩, by simp [Token.IsQuotedSeparator, inEquation]⟩
  have hplain : (inEquation .atom "a" false false 16).IsPlain .standard :=
    ⟨⟨.inl rfl, rfl⟩, fun _ => by decide +kernel, by decide +kernel⟩
  have hone : Phrase .standard s [inEquation (.integer 10) "1" true false 10] 0 :=
    .operand (.number rfl)
  have hleft := hone.prefixOp hminus (by simp [Token.Joins, inEquation]) (by decide)
  have hitems := (Phrases.one (.operand (.name hplain))).snoc
    (show (inEquation .comma "," false false 17).kind = .comma from rfl)
    (phrase_equationList .argument)
  have hright : Phrase .standard s (inEquation .atom "f" true true 14 ::
      inEquation (.opening .round) "(" false false 15 :: _ ++
      [inEquation (.closing .round) ")" false false 25]) 0 :=
    .compound ⟨.inl rfl, rfl⟩ rfl hitems rfl
  exact hleft.infixOp hinfix (by decide) hright (by decide) (by decide)

theorem phrase_equationBody : Phrase .standard .whole equationBody 900 := by
  have hnot : (inEquation .atom "\\+" false false 1).IsPrefix .standard ⟨"\\+", 900, .fy⟩ :=
    ⟨rfl, rfl, by decide +kernel⟩
  have heq : (inEquation .atom "=" true false 6).IsOperator .standard .whole ⟨"=", 700, .xfx⟩ :=
    ⟨⟨rfl, by decide +kernel⟩, by simp [Token.IsQuotedSeparator, inEquation]⟩
  have hx : Phrase .standard .whole [inEquation .variable "X" true false 4] 0 :=
    .operand (.named rfl)
  have hequation := hx.infixOp heq (by decide) (phrase_equationRight .whole) (by decide) (by decide)
  exact hequation.prefixOp hnot (by simp [Token.Joins, Token.number?, inEquation]) (by decide)

theorem next_negatedEquation :
    (Phrase .standard .whole (uncommented equationBody) 900 ∧
      ∃ after, Scans Dialect.standard.flags (.ofText negatedEquation)
        (equationBody ++ [inEquation .stop "." false false 26]) after) ∧
    ∃ s after, (⟨.ofText negatedEquation, false, 0⟩ : Reader).next .standard =
      (.sentence s, after) := by
  have hphrase : Phrase .standard .whole (uncommented equationBody) 900 := phrase_equationBody
  obtain ⟨ts, after, hts, hscans⟩ :=
    Scans.exists_of_tokensFrom Dialect.standard.flags [] (.ofText negatedEquation)
  have htokens : (tokensFrom Dialect.standard.flags [] (.ofText negatedEquation)).1 =
      equationBody ++ [inEquation .stop "." false false 26] := by
    decide +kernel
  obtain rfl : ts = equationBody ++ [inEquation .stop "." false false 26] := by
    simpa [htokens] using hts.symm
  obtain ⟨s, issued, hnext⟩ := next_sentence_of_phrase
    (r := ⟨.ofText negatedEquation, false, 0⟩) rfl hscans (.inl rfl) hphrase
  exact ⟨⟨hphrase, after, hscans⟩, s, _, hnext⟩

end Reader

end PrologText
