import PrologText.Proofs.Course
import PrologText.Proofs.Motion

/-!
# Functors and their parentheses

A name that is marked as a functor has its opening parenthesis as the next token
(`opening_of_functional`): what the scanner sees behind the name is what it scans next. So a reading
that expects the parenthesis of a functor gets it, and no run over the tokens of a text is stuck
(`Run.at_ne_stuck`).
-/

namespace PrologText

/-! ## What stands behind a functor -/

/-- A parenthesis stands directly behind a functor. -/
def Scan.MarksFunctors : Scan → Prop
  | token t after => t.functional = true → after.peek = .ok (some (.char '('))
  | _ => True

namespace Scan

variable {start after stopped : Cursor} {layout : Bool}

theorem name_marksFunctors {kind : TokenKind} {text : Text} :
    (name kind text layout start after).MarksFunctors := by
  unfold name
  split
  · trivial
  · next hp =>
    intro hf
    rw [hp, of_decide_eq_true hf]

theorem dot_marksFunctors : (dot layout start after).MarksFunctors := by
  unfold dot
  split
  · trivial
  · next hp =>
    split
    · exact nofun
    · intro hf
      rw [hp, of_decide_eq_true hf]

theorem unended_marksFunctors {cause : SyntaxCause} :
    (unended cause start stopped).MarksFunctors := by
  unfold unended
  split <;> trivial

theorem quoted_marksFunctors {f : QuotedForm} {inside : Cursor} :
    (quoted f layout start inside).MarksFunctors := by
  unfold quoted
  split
  · exact unended_marksFunctors
  · trivial
  · simp only
    split
    · exact name_marksFunctors
    · exact nofun

theorem lexeme_marksFunctors {flags : Flags} {ch : Char} :
    (lexeme flags layout ch start).MarksFunctors := by
  unfold lexeme
  split
  · exact nofun
  · exact name_marksFunctors
  · exact dot_marksFunctors
  · exact quoted_marksFunctors
  · exact quoted_marksFunctors
  · trivial

end Scan

theorem scanFrom_marksFunctors (flags : Flags) (layout : Bool) (c : Cursor) :
    (scanFrom flags layout c).MarksFunctors := by
  fun_induction scanFrom flags layout c with
  | case1 => trivial
  | case2 | case4 | case7 => simp [Scan.MarksFunctors]
  | case3 _ _ _ _ _ _ _ _ _ _ ih | case5 _ _ _ _ _ _ _ _ _ _ _ ih
  | case8 _ _ _ _ _ _ _ _ _ _ _ _ _ _ _ ih => exact ih
  | case6 => exact Scan.unended_marksFunctors
  | case9 => exact Scan.lexeme_marksFunctors

/-- Where a parenthesis is seen it is also scanned. -/
theorem scan_of_peek_parenthesis (flags : Flags) {c : Cursor}
    (h : c.peek = .ok (some (.char '('))) :
    ∃ t after, scan flags c = .token t after ∧ t.kind = .opening .round := by
  simp only [Cursor.peek] at h
  split at h
  · next hr =>
    cases h
    exact ⟨_, _, scanFrom_solo hr rfl, rfl⟩
  · cases h
  · cases h

/-- The token behind a functor is an opening parenthesis. -/
theorem opening_of_functional {flags : Flags} {c after : Cursor} {t : Token}
    (h : scan flags c = .token t after) (hf : t.functional = true) :
    ∃ t' after', scan flags after = .token t' after' ∧ t'.kind = .opening .round := by
  have hmarks := scanFrom_marksFunctors flags false c
  rw [show scanFrom flags false c = _ from h] at hmarks
  exact scan_of_peek_parenthesis flags (hmarks hf)

/-! ## Readings are never stuck -/

/-- A step that is not stuck, that expects the parenthesis of a functor only behind one, and that
completes a sentence or finds the end of the input only at a token for it. -/
def Step.Proper (t : Token) : Step → Prop
  | .more r => ∀ f, r.expects = .arguments f → t.functional = true
  | .done _ _ => t.kind = .stop ∨ t.kind = .endOfFile
  | .endOfInput => t.kind = .endOfFile
  | .stuck => False
  | _ => True

namespace Reading

variable {d : Dialect} {r r' : Reading} {t u : Token} {op : Operator} {left : Operand}

theorem takeInfix_proper : (Step.ofExcept (r.takeInfix left op u)).Proper t := by
  unfold takeInfix
  split
  · trivial
  · split
    · split
      · trivial
      · exact nofun
    · exact nofun

theorem takePrefix_proper : (Step.ofExcept (r.takePrefix d op u)).Proper t := by
  unfold takePrefix
  simp only
  split
  · split
    · exact takeInfix_proper
    · exact nofun
  · exact nofun

theorem takeName_proper : (Step.ofExcept (r.takeName d t)).Proper t := by
  unfold takeName
  split
  · next hf => exact fun _ _ => hf
  · split
    · split
      · exact nofun
      · exact takePrefix_proper
    · split
      · exact takeInfix_proper
      · exact nofun

theorem separate_proper {next : Term → Enclosure} :
    (Step.ofExcept (r.separate left next)).Proper t := by
  unfold separate
  split
  · trivial
  · exact nofun

theorem unexpectedEnd_proper : (r.unexpectedEnd t).Proper t := by
  unfold unexpectedEnd
  split
  · next h => exact h.1
  · trivial

theorem takeOperator_proper : (r.takeOperator d left t).Proper t := by
  have hoperator : (r.takeSymbol d left t).Proper t := by
    unfold takeSymbol
    split
    · exact takeInfix_proper
    · trivial
  -- Separators first, then what may be an operator, quoted names and unexpected ends.
  unfold takeOperator
  simp only
  split
  case h_1 | h_2 | h_4 => exact separate_proper
  case h_6 | h_7 | h_8 => exact hoperator
  case h_9 =>
    split
    · trivial
    · exact hoperator
  case h_10 | h_11 => exact unexpectedEnd_proper
  all_goals trivial

theorem takeOperand_proper (hk : t.kind ≠ .comment) : (r.takeOperand d t).Proper t := by
  cases hkind : t.kind with
  | endOfFile | stop =>
    simp only [takeOperand, hkind]
    exact unexpectedEnd_proper
  | closing | comma | bar =>
    simp only [takeOperand, hkind]
    split
    · exact takeOperator_proper
    · trivial
  | integer | float | charCode =>
    obtain ⟨x, hx⟩ : ∃ x, t.number? = some x := by simp [Token.number?, hkind]
    simp only [takeOperand, hkind, hx]
    cases x with
    | ok => simp [Step.Proper, withOperand]
    | error => trivial
  | atom | quotedAtom =>
    simp only [takeOperand, hkind]
    exact takeName_proper
  | opening b =>
    cases b <;> simp [takeOperand, hkind, Step.Proper, enter]
  | «variable» | anonymousVariable | doubleQuoted | backQuoted =>
    simp [takeOperand, hkind, Step.Proper, withOperand]
  | comment => exact absurd hkind hk

theorem take_proper (hk : t.kind ≠ .comment) : (r.take d t).Proper t := by
  unfold take
  split
  · next hends =>
    split
    · trivial
    · unfold close
      split
      · next houter =>
        -- Outside of all brackets a full stop ends the expression, or the end of the file may.
        simp only [endsWith, terminal, enclosure?, houter, List.head?_nil, Option.map_none,
          Bool.or_eq_true, Bool.and_eq_true, decide_eq_true_eq] at hends
        exact hends.imp_right (·.1.2)
      · simp [Step.Proper]
  · split
    · exact takeOperator_proper
    · exact takeOperand_proper hk

theorem step_proper (hk : t.kind ≠ .comment)
    (hf : ∀ f, r.expects = .arguments f → t.kind = .opening .round) : (r.step d t).Proper t := by
  unfold step
  split
  · next s hs =>
    cases hx : r.expects with
    | operand | operator _ => simp [settle, hx] at hs
    | arguments f =>
      simp only [settle, hx, Settled.taken.injEq, hf f hx, if_true] at hs
      subst hs
      simp [Step.Proper, enter]
    | listStart | bracesStart =>
      simp only [settle, hx] at hs
      split at hs
      · cases hs
        simp [Step.Proper, withOperand]
      · cases hs
    | signed op sign =>
      simp only [settle, hx] at hs
      split at hs
      · cases hs
        trivial
      · cases hs
        simp [Step.Proper, withOperand]
      · split at hs
        · cases hs
          trivial
        · cases hs
  · exact take_proper hk

/-- If a reading expects the parenthesis of a functor, it is the next token. -/
def Fits (flags : Flags) (r : Reading) (c : Cursor) : Prop :=
  ∀ f, r.expects = .arguments f →
    ∃ t after, scan flags c = .token t after ∧ t.kind = .opening .round

theorem fits_start (flags : Flags) (issued : Nat) (c : Cursor) : (start issued).Fits flags c :=
  nofun

namespace Fits

variable {ts : List Token} {c c' after : Cursor}

theorem step_proper (h : r.Fits d.flags c) (hs : scan d.flags c = .token t after)
    (hk : t.kind ≠ .comment) : (r.step d t).Proper t := by
  refine Reading.step_proper hk fun f hf => ?_
  obtain ⟨t', after', hs', hopen⟩ := h f hf
  cases hs.symm.trans hs'
  exact hopen

theorem comment (h : r.Fits d.flags c) (hs : scan d.flags c = .token t after)
    (hk : t.kind = .comment) : r.Fits d.flags after := by
  intro f hf
  obtain ⟨t', after', hs', hopen⟩ := h f hf
  cases hs.symm.trans hs'
  simp [hk] at hopen

theorem more (h : r.Fits d.flags c) (hs : scan d.flags c = .token t after)
    (hk : t.kind ≠ .comment) (hstep : r.step d t = .more r') : r'.Fits d.flags after := by
  have hproper := h.step_proper hs hk
  rw [hstep] at hproper
  exact fun f hf => opening_of_functional hs (hproper f hf)

theorem feed (h : r.Fits d.flags c) (hs : Scans d.flags c ts c') (hfeed : r.feed d ts = .more r') :
    r'.Fits d.flags c' := by
  replace hfeed := takes_of_feed hfeed
  induction hfeed generalizing c with
  | nil =>
    cases hs
    exact h
  | comment hk _ ih =>
    cases hs with
    | cons ht hs => exact ih (h.comment ht hk) hs
  | more hk hnext _ ih =>
    cases hs with
    | cons ht hs => exact ih (h.more ht hk hnext) hs

end Fits

end Reading

/-- Reading a sentence is never stuck. -/
theorem Run.at_ne_stuck (d : Dialect) (issued : Nat) (c : Cursor) :
    (Run.at d issued c).outcome ≠ .error .stuck := by
  obtain ⟨ts, at', last, hts, hfeed, hend⟩ := Reading.run_cases d (.start issued) [] c
  have hfits := (Reading.fits_start d.flags issued c).feed hts hfeed
  revert hend
  generalize hrun : (Reading.start issued).run d [] c = run
  intro hend
  rw [Run.at, hrun]
  cases hend with
  | failure | fault => exact nofun
  | @token t after hs hk hover =>
    have hproper := hfits.step_proper hs hk
    cases hstep : last.step d t with
    | more next => exact absurd hstep (hover next)
    | stuck =>
      rw [hstep] at hproper
      exact hproper.elim
    | _ => exact nofun

end PrologText
