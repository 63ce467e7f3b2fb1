import PrologText.Proofs.Course

/-!
# Tokens that a reading holds

A reading holds the tokens of operators that wait for an argument and of a sign that may belong to a
number. Main statements: a syntax error stands at a token that was held or is the next one, and
tells of it (`Reading.step_follows`, `Reading.Takes.exists_isAt`), and a reading that has taken a
token has read something (`Reading.isEmpty_of_step_more`).
-/

namespace PrologText

/-! ## What errors tell of a token -/

/-- A cause tells of a token: how it is called, or which one it is. -/
def SyntaxCause.IsAbout (t : Token) : SyntaxCause → Prop
  | noArgument got | noArgumentAfter _ got | prefixOperatorAlone _ got | noTerm got
  | noOperator got => got = t.describe
  | unmatchedBracket b => t.kind = .closing b
  | unexpectedEnd got _ => t.kind = got
  | nonAssociative _ name _ | priorityClash name => name = t.toAtom
  | manyTails => t.kind = .comma
  | misplacedBar => t.kind = .bar
  | badNumber error => t.number? = some (.error error)
  | _ => False

/-- A syntax error that stands at a token and tells of it. -/
structure SyntaxError.IsAt (t : Token) (e : SyntaxError) : Prop where
  place : e.place = t.place
  cause : e.cause.IsAbout t

/-! ## What one token makes of a reading -/

/-- A sign that is not yet known to be an operator is a token of a kind. -/
def Expectation.Holds (P : Token → Prop) : Expectation → Prop
  | signed _ token => P token
  | _ => True

/-- All tokens that a reading holds are of a kind. -/
structure Reading.Holding (P : Token → Prop) (r : Reading) : Prop where
  pending : ∀ p ∈ r.pending, P p.token
  outer : ∀ o ∈ r.outer, ∀ p ∈ o.2, P p.token
  expects : r.expects.Holds P

/-- A step to a reading that has read something and holds tokens of a kind only, or to an error at
such a token. -/
def Step.Follows (P : Token → Prop) : Step → Prop
  | more next => next.isEmpty = false ∧ next.Holding P
  | fault e => ∃ t, P t ∧ e.IsAt t
  | _ => True

variable {P : Token → Prop} {d : Dialect} {r : Reading} {t : Token} {op : Operator} {left : Operand}

namespace Pending

theorem exists_isAt_of_apply {p : Pending} {x : Operand} {e : SyntaxError} (hp : P p.token)
    (h : p.apply x = .error e) : ∃ t, P t ∧ e.IsAt t := by
  unfold apply at h
  split at h <;> split at h <;> cases h <;> exact ⟨_, hp, rfl, rfl⟩

theorem exists_isAt_of_applyAll {ps : List Pending} {x : Operand} {e : SyntaxError}
    (hps : ∀ p ∈ ps, P p.token) (h : applyAll ps x = .error e) : ∃ t, P t ∧ e.IsAt t := by
  induction ps generalizing x with
  | nil => cases h
  | cons p ps ih =>
    obtain ⟨hp, hps⟩ := List.forall_mem_cons.1 hps
    unfold applyAll at h
    split at h
    · next hx =>
      cases h
      exact exists_isAt_of_apply hp hx
    · exact ih hps h

/-- What is left of some operators before another one. -/
theorem applyTighter_cases (op : Operator) (ht : P t) {ps : List Pending}
    (hps : ∀ p ∈ ps, P p.token) (x : Operand) :
    (∃ e, applyTighter op t ps x = .error e ∧ ∃ t, P t ∧ e.IsAt t) ∨
      ∃ qs y, applyTighter op t ps x = .ok (qs, y) ∧ ∀ p ∈ qs, P p.token := by
  induction ps generalizing x with
  | nil => exact .inr ⟨[], x, rfl, hps⟩
  | cons p ps ih =>
    obtain ⟨hp, hrest⟩ := List.forall_mem_cons.1 hps
    unfold applyTighter
    split
    · split
      · exact .inl ⟨_, rfl, t, ht, rfl, rfl⟩
      · exact .inr ⟨_, x, rfl, hps⟩
    · split
      · next hx => exact .inl ⟨_, rfl, exists_isAt_of_apply hp hx⟩
      · exact ih hrest _

end Pending

namespace Reading

theorem Holding.behind {p : Pending} {ps : List Pending} (h : r.Holding P)
    (hps : r.pending = p :: ps) : Holding P { r with pending := ps } :=
  ⟨fun q hq => h.pending q (hps ▸ List.mem_cons_of_mem _ hq), h.outer, h.expects⟩

theorem Holding.expecting {x : Expectation} (h : r.Holding P) (hx : x.Holds P) :
    Holding P { r with expects := x } :=
  ⟨h.pending, h.outer, hx⟩

theorem Holding.enter (h : r.Holding P) (e : Enclosure) : (r.enter e).Holding P :=
  ⟨by simp [Reading.enter], List.forall_mem_cons.2 ⟨h.pending, h.outer⟩, trivial⟩

theorem faultAt_follows {cause : SyntaxCause} (ht : P t) (h : cause.IsAbout t) :
    (Step.faultAt cause t).Follows P :=
  ⟨t, ht, rfl, h⟩

theorem takeInfix_follows (h : r.Holding P) (ht : P t) :
    (Step.ofExcept (r.takeInfix left op t)).Follows P := by
  unfold takeInfix
  rcases Pending.applyTighter_cases op ht h.pending left with
    ⟨e, he, hat⟩ | ⟨ps, x, hx, hps⟩
  · rw [he]
    exact hat
  · simp only [hx]
    split
    · split
      · exact faultAt_follows ht rfl
      · exact ⟨rfl, hps, h.outer, trivial⟩
    · exact ⟨by simp [isEmpty], List.forall_mem_cons.2 ⟨ht, hps⟩, h.outer, trivial⟩

theorem takePrefix_follows (op : Operator) (h : r.Holding P) (ht : P t) :
    (Step.ofExcept (r.takePrefix d op t)).Follows P := by
  have hwaiting : (Step.more
      { r with pending := .prefixOp op t :: r.pending, expects := .operand }).Follows P :=
    ⟨by simp [isEmpty], List.forall_mem_cons.2 ⟨ht, h.pending⟩, h.outer, trivial⟩
  unfold takePrefix
  simp only
  split
  · next hps _ =>
    split
    · exact takeInfix_follows (h.behind hps) ht
    · exact hwaiting
  · exact hwaiting

theorem takeName_follows (h : r.Holding P) (ht : P t) :
    (Step.ofExcept (r.takeName d t)).Follows P := by
  unfold takeName
  split
  · exact ⟨rfl, h.expecting trivial⟩
  · split
    · split
      · exact ⟨rfl, h.expecting ht⟩
      · exact takePrefix_follows _ h ht
    · split
      · next hps _ => exact takeInfix_follows (h.behind hps) ht
      · exact ⟨rfl, h.expecting trivial⟩

theorem separate_follows {next : Term → Enclosure} (h : r.Holding P)
    (henclosed : r.enclosure?.isSome) : (Step.ofExcept (r.separate left next)).Follows P := by
  unfold separate
  split
  · next he => exact Pending.exists_isAt_of_applyAll h.pending he
  · -- An argument or an element stands in brackets.
    cases ho : r.outer with
    | nil => simp [enclosure?, ho] at henclosed
    | cons o outer =>
      obtain ⟨hwaiting, houter⟩ := List.forall_mem_cons.1 (ho ▸ h.outer)
      exact ⟨by simp [isEmpty], by simp, List.forall_mem_cons.2 ⟨hwaiting, houter⟩, trivial⟩

theorem unexpectedEnd_follows (ht : P t) : (r.unexpectedEnd t).Follows P := by
  unfold unexpectedEnd
  split
  · trivial
  · exact faultAt_follows ht rfl

theorem takeOperator_follows (h : r.Holding P) (ht : P t) :
    (r.takeOperator d left t).Follows P := by
  have hnone : (Step.faultAt (.noOperator t.describe) t).Follows P := faultAt_follows ht rfl
  have hsymbol : (r.takeSymbol d left t).Follows P := by
    unfold takeSymbol
    split
    · exact takeInfix_follows h ht
    · exact hnone
  -- Separators first, then what may be an operator, quoted names and unexpected ends.
  unfold takeOperator
  simp only
  split
  case h_1 he | h_2 he | h_4 he => exact separate_follows h (by simp [he])
  case h_3 hk _ | h_5 hk _ => exact faultAt_follows ht hk
  case h_6 | h_7 | h_8 => exact hsymbol
  case h_9 =>
    split
    · exact hnone
    · exact hsymbol
  case h_10 | h_11 => exact unexpectedEnd_follows ht
  case h_12 hk => exact faultAt_follows ht hk
  case h_13 => exact hnone

theorem takeOperand_follows (h : r.Holding P) (ht : P t) : (r.takeOperand d t).Follows P := by
  have hoperand (term : Term) : (Step.more (r.withOperand term)).Follows P :=
    ⟨rfl, h.expecting trivial⟩
  unfold takeOperand
  split
  case h_1 | h_2 => exact unexpectedEnd_follows ht
  case h_3 | h_4 | h_5 =>
    split
    · next hps => exact takeOperator_follows (h.behind hps) ht
    · exact faultAt_follows ht rfl
  case h_6 | h_7 | h_8 =>
    split
    · exact hoperand _
    · next he => exact faultAt_follows ht he
    · trivial
  case h_9 | h_10 => exact ⟨rfl, h.pending, h.outer, trivial⟩
  case h_11 | h_12 => exact hoperand _
  case h_13 => exact ⟨by simp [isEmpty, Reading.enter], h.enter .group⟩
  case h_14 | h_15 => exact ⟨rfl, h.expecting trivial⟩
  case h_16 | h_17 => exact takeName_follows h ht
  case h_18 => trivial

theorem expression_follows {e : SyntaxError} (h : r.Holding P) (ht : P t)
    (he : r.expression t = .error e) : ∃ t, P t ∧ e.IsAt t := by
  unfold expression at he
  split at he
  · next hlast =>
    cases he
    refine ⟨t, ht, ?_⟩
    unfold lastOperand at hlast
    split at hlast
    · cases hlast
    · split at hlast <;> cases hlast
      exact ⟨rfl, rfl⟩
    · cases hlast
      exact ⟨rfl, rfl⟩
    · cases hlast
      exact ⟨rfl, by cases r.atTop <;> rfl⟩
  · next ps x hlast =>
    have hps : ∀ p ∈ ps, P p.token := by
      unfold lastOperand at hlast
      split at hlast
      · cases hlast
        exact h.pending
      · next hpending _ =>
        split at hlast <;> cases hlast
        exact (h.behind hpending).pending
      · cases hlast
      · cases hlast
    split at he
    · next hall =>
      cases he
      exact Pending.exists_isAt_of_applyAll hps hall
    · cases he

theorem take_follows (h : r.Holding P) (ht : P t) : (r.take d t).Follows P := by
  unfold take
  split
  · split
    · next he => exact expression_follows h ht he
    · unfold close
      split
      · trivial
      · next ho =>
        obtain ⟨hps, houter⟩ := List.forall_mem_cons.1 (ho ▸ h.outer)
        exact ⟨rfl, hps, houter, trivial⟩
  · split
    · exact takeOperator_follows h ht
    · exact takeOperand_follows h ht

/-- What a token decides of what came before it. -/
theorem settle_follows (h : r.Holding P) (ht : P t) :
    (∃ s, r.settle d t = .taken s ∧ s.Follows P) ∨
      ∃ next, r.settle d t = .ready next ∧ next.Holding P ∧
        (r.isEmpty = false → next.isEmpty = false) := by
  have hexpects := h.expects
  cases hx : r.expects with
  | operand | operator =>
    exact .inr ⟨r, by simp only [settle, hx], h, id⟩
  | arguments functor =>
    refine .inl ⟨_, by simp only [settle, hx]; rfl, ?_⟩
    split
    · exact ⟨by simp [isEmpty, Reading.enter], h.enter _⟩
    · trivial
  | listStart | bracesStart =>
    simp only [settle, hx]
    split
    · exact .inl ⟨_, rfl, rfl, h.expecting trivial⟩
    · exact .inr ⟨_, rfl, h.enter _, fun _ => by simp [isEmpty, Reading.enter]⟩
  | signed op sign =>
    rw [hx] at hexpects
    have hprefix := takePrefix_follows (d := d) op h hexpects
    simp only [settle, hx]
    split
    · next he =>
      refine .inl ⟨_, rfl, faultAt_follows ht ?_⟩
      split at he
      · cases he
      · exact he
    · exact .inl ⟨_, rfl, rfl, h.expecting trivial⟩
    · split
      · next he =>
        rw [he] at hprefix
        exact .inl ⟨_, rfl, hprefix⟩
      · next next hnext =>
        rw [hnext] at hprefix
        exact .inr ⟨next, rfl, hprefix.2, fun _ => hprefix.1⟩

/-- A token that is taken leaves a reading that holds it at most, beside those held before, and an
error stands at one of these. -/
theorem step_follows (h : r.Holding P) (ht : P t) : (r.step d t).Follows P := by
  unfold step
  rcases settle_follows (d := d) h ht with ⟨s, hs, hfollows⟩ | ⟨next, hnext, hholding, -⟩
  · simpa only [hs] using hfollows
  · simpa only [hnext] using take_follows hholding ht

theorem holding_any (r : Reading) : r.Holding fun _ => True :=
  ⟨fun _ _ => trivial, fun _ _ _ _ => trivial, by unfold Expectation.Holds; split <;> trivial⟩

theorem isEmpty_of_settle {next : Reading} (hr : r.isEmpty = false)
    (h : r.settle d t = .ready next) : next.isEmpty = false := by
  rcases settle_follows (d := d) (t := t) r.holding_any trivial with
    ⟨s, hs, -⟩ | ⟨next', hnext, -, hempty⟩
  · cases hs.symm.trans h
  · cases hnext.symm.trans h
    exact hempty hr

/-- A reading that has taken a token has read something. -/
theorem isEmpty_of_step_more {next : Reading} (h : r.step d t = .more next) :
    next.isEmpty = false := by
  have hfollows := step_follows (d := d) (t := t) r.holding_any trivial
  rw [h] at hfollows
  exact hfollows.1

/-! ## Runs -/

theorem holding_start (P : Token → Prop) (issued : Nat) : (start issued).Holding P :=
  ⟨by simp [start], by simp [start], trivial⟩

theorem Takes.holding {last : Reading} {ts : List Token} (h : r.Takes d ts last)
    (hr : r.Holding P) (hts : ∀ t ∈ ts, P t) : last.Holding P := by
  induction h with
  | nil => exact hr
  | comment _ _ ih => exact ih hr (List.forall_mem_cons.1 hts).2
  | more _ hnext _ ih =>
    obtain ⟨ht, hts⟩ := List.forall_mem_cons.1 hts
    have hfollows := step_follows (d := d) hr ht
    rw [hnext] at hfollows
    exact ih hfollows.2 hts

/-- A syntax error stands at a token that was taken, or at the one that could not be. -/
theorem Takes.exists_isAt {last : Reading} {ts : List Token} {issued : Nat} {e : SyntaxError}
    (h : (start issued).Takes d ts last) (he : last.step d t = .fault e) :
    ∃ u ∈ ts ++ [t], e.IsAt u := by
  have hlast : last.Holding (· ∈ ts ++ [t]) :=
    h.holding (holding_start _ issued) fun u hu => List.mem_append_left _ hu
  have hfollows := step_follows (d := d) (t := t) hlast (by simp)
  rw [he] at hfollows
  exact hfollows

end Reading

end PrologText
