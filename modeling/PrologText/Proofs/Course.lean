import PrologText.Proofs.Grammar
import PrologText.Sentence.Reader
import PrologText.Token.Stream

/-!
# The course of reading a sentence

A reader scans and reads by turns. Here the two are taken apart: `Scans` are the tokens between two
cursors, and `Reading.feed` is what a list of tokens makes of a reading. `Reading.run_of_feed_more`
puts them together again, and `Reading.run_cases` says that every run is of this form.
-/

namespace PrologText

/-! ## Tokens between two cursors -/

/-- The tokens from one cursor to another, comments among them. -/
inductive Scans (flags : Flags) : Cursor → List Token → Cursor → Prop where
  | nil {c} : Scans flags c [] c
  | cons {c t after ts last} (h : scan flags c = .token t after)
      (hs : Scans flags after ts last) : Scans flags c (t :: ts) last

namespace Scans

variable {flags : Flags} {c c' c'' : Cursor} {ts us : List Token}

theorem append (h : Scans flags c ts c') (h' : Scans flags c' us c'') :
    Scans flags c (ts ++ us) c'' := by
  induction h with
  | nil => exact h'
  | cons ht _ ih => exact .cons ht (ih h')

theorem of_append (h : Scans flags c (ts ++ us) c'') :
    ∃ c', Scans flags c ts c' ∧ Scans flags c' us c'' := by
  induction ts generalizing c with
  | nil => exact ⟨c, .nil, h⟩
  | cons t ts ih =>
    cases h with
    | cons ht h =>
      obtain ⟨c', hts, hus⟩ := ih h
      exact ⟨c', .cons ht hts, hus⟩

/-- The tokens of a stream stand one behind the other in the text. -/
theorem exists_of_tokensFrom (flags : Flags) (seen : List Token) (c : Cursor) :
    ∃ ts c', (tokensFrom flags seen c).1 = seen.reverse ++ ts ∧ Scans flags c ts c' := by
  fun_induction tokensFrom flags seen c with
  | case1 | case2 | case3 => exact ⟨[], _, by simp, .nil⟩
  | case4 seen c t after hs _ _ ih =>
    obtain ⟨ts, c', hts, hscans⟩ := ih
    exact ⟨t :: ts, c', by simpa using hts, .cons hs hscans⟩

end Scans

/-- Some tokens without the comments among them. -/
def uncommented (ts : List Token) : List Token :=
  ts.filter (·.kind ≠ .comment)

@[simp] theorem uncommented_nil : uncommented [] = [] := rfl

@[simp] theorem uncommented_append (ts us : List Token) :
    uncommented (ts ++ us) = uncommented ts ++ uncommented us :=
  List.filter_append ..

theorem uncommented_singleton_of_comment {t : Token} (h : t.kind = .comment) :
    uncommented [t] = [] := by
  simp [uncommented, h]

theorem uncommented_singleton_of_ne {t : Token} (h : t.kind ≠ .comment) :
    uncommented [t] = [t] := by
  simp [uncommented, h]

/-! ## Which tokens a reading goes on behind -/

/-- A step that goes on is made at a token that can be part of an expression. -/
def Step.OnlyAtPart (t : Token) : Step → Prop
  | .more _ => t.kind.isPart
  | _ => True

namespace Reading

variable {d : Dialect} {r r' : Reading} {t : Token}

theorem onlyAtPart_of_isPart {s : Step} (h : t.kind.isPart) : s.OnlyAtPart t := by
  cases s <;> first | exact h | trivial

theorem onlyAtPart_unexpectedEnd : (r.unexpectedEnd t).OnlyAtPart t := by
  unfold unexpectedEnd
  split <;> trivial

theorem takeOperator_onlyAtPart {left : Operand} : (r.takeOperator d left t).OnlyAtPart t := by
  cases hk : t.kind with
  | endOfFile | stop =>
    simp only [takeOperator, hk]
    exact onlyAtPart_unexpectedEnd
  | comment =>
    simp only [takeOperator, hk]
    trivial
  | _ => exact onlyAtPart_of_isPart (by simp [hk, TokenKind.isPart])

theorem takeOperand_onlyAtPart : (r.takeOperand d t).OnlyAtPart t := by
  cases hk : t.kind with
  | endOfFile | stop =>
    simp only [takeOperand, hk]
    exact onlyAtPart_unexpectedEnd
  | comment =>
    simp only [takeOperand, hk]
    trivial
  | _ => exact onlyAtPart_of_isPart (by simp [hk, TokenKind.isPart])

theorem take_onlyAtPart : (r.take d t).OnlyAtPart t := by
  unfold take
  split
  · next hends =>
    split
    · trivial
    · next x hx =>
      unfold close
      split
      · trivial
      · next e ps outer houter =>
        -- Inside a bracket only the bracket that closes it ends an expression.
        have hk : t.kind = .closing e.bracket := by
          simp only [endsWith, terminal, enclosure?, atTop, houter, Bool.or_eq_true,
            Bool.and_eq_true, decide_eq_true_eq] at hends
          exact hends.resolve_right fun h => by simp at h
        simp [Step.OnlyAtPart, hk, TokenKind.isPart]
  · split
    · exact takeOperator_onlyAtPart
    · exact takeOperand_onlyAtPart

theorem step_onlyAtPart : (r.step d t).OnlyAtPart t := by
  unfold step
  split
  · next s hs =>
    cases hx : r.expects with
    | operand | operator _ => simp [settle, hx] at hs
    | arguments f =>
      simp only [settle, hx, Settled.taken.injEq] at hs
      subst hs
      split
      · next hk => exact onlyAtPart_of_isPart (by simp [hk, TokenKind.isPart])
      · trivial
    | listStart | bracesStart =>
      simp only [settle, hx] at hs
      split at hs
      · next hk => exact onlyAtPart_of_isPart (by simp [hk, TokenKind.isPart])
      · cases hs
    | signed op sign =>
      simp only [settle, hx] at hs
      split at hs
      · cases hs
        trivial
      · next n hn =>
        refine onlyAtPart_of_isPart ?_
        split at hn
        · cases hn
        · exact Token.isPart_of_number? hn
      · split at hs
        · cases hs
          trivial
        · cases hs
  · exact take_onlyAtPart

theorem isPart_of_step_more (h : r.step d t = .more r') : t.kind.isPart := by
  have := step_onlyAtPart (d := d) (r := r) (t := t)
  rwa [h] at this

end Reading

/-! ## Feeding tokens to a reading -/

/-- What comes of a reading and some tokens. -/
inductive Fed where
  /-- All tokens are taken, and more are expected. -/
  | more (next : Reading)
  /-- One of the tokens ends the reading `last` with the step `s`, and `rest` come after it. -/
  | ended (last : Reading) (s : Step) (rest : List Token)

/-- What comes of `us` after other tokens. -/
def Fed.andThen (us : List Token) (feed : Reading → List Token → Fed) : Fed → Fed
  | more next => feed next us
  | ended last s rest => ended last s (rest ++ us)

/-- Takes tokens, with comments passed over, as long as each leaves something to be expected. -/
def Reading.feed (d : Dialect) (r : Reading) : List Token → Fed
  | [] => .more r
  | t :: ts =>
    if t.kind = .comment then r.feed d ts
    else
      match r.step d t with
      | .more next => next.feed d ts
      | s => .ended r s ts

/-- Takes a token after the operand `left` as an operator. -/
def Reading.takeSymbol (d : Dialect) (r : Reading) (left : Operand) (t : Token) : Step :=
  match d.table.infixOperator? t.text with
  | some op => .ofExcept (r.takeInfix left op t)
  | none => .faultAt (.noOperator t.describe) t

/-- The tokens that lead from one reading to another, with comments passed over. -/
inductive Reading.Takes (d : Dialect) : Reading → List Token → Reading → Prop where
  | nil {r} : Takes d r [] r
  | comment {r t ts last} (hk : t.kind = .comment) (h : Takes d r ts last) :
    Takes d r (t :: ts) last
  | more {r t next ts last} (hk : t.kind ≠ .comment) (hnext : r.step d t = .more next)
    (h : Takes d next ts last) : Takes d r (t :: ts) last

/-- The run that ends with a step of the reading `last`. -/
def Run.conclude (last : Reading) (tokens : List Token) (after : Cursor) : Step → Run
  | .done term names => ⟨.sentence (.ofTokens term names tokens), tokens, after, names.issued⟩
  | .endOfInput => ⟨.endOfInput, tokens, after, last.names.issued⟩
  | .fault e => ⟨.error (.malformed e), tokens, after, last.names.issued⟩
  | .stuck | .more _ => ⟨.error .stuck, tokens, after, last.names.issued⟩

/-- The outcome of a step that ends a sentence with some tokens. -/
def Step.outcome (tokens : List Token) : Step → Outcome
  | done term names => .sentence (.ofTokens term names tokens)
  | endOfInput => .endOfInput
  | fault e => .error (.malformed e)
  | stuck | more _ => .error .stuck

theorem Run.outcome_conclude (last : Reading) (ts : List Token) (after : Cursor) (s : Step) :
    (conclude last ts after s).outcome = s.outcome ts := by
  cases s <;> rfl

/-- How a reading at a cursor comes to its end: with a token that cannot be scanned, or with one
that is its last. -/
inductive Reading.EndsAt (d : Dialect) (last : Reading) (c : Cursor) (seen : List Token) :
    Run → Prop where
  | failure {reason stopped} (h : scan d.flags c = .failure reason stopped) :
    EndsAt d last c seen ⟨.error (.failure reason), seen, stopped, last.names.issued⟩
  | fault {e start exhausted} (h : scan d.flags c = .fault e start exhausted) :
    EndsAt d last c seen ⟨.error (.malformed e), seen, start, last.names.issued⟩
  | token {t after} (h : scan d.flags c = .token t after) (hk : t.kind ≠ .comment)
    (hover : ∀ next, last.step d t ≠ .more next) :
    EndsAt d last c seen (.conclude last (seen ++ [t]) after (last.step d t))

namespace Reading

variable {d : Dialect} {r r' last : Reading} {t : Token} {ts us rest seen : List Token}
variable {c c' after : Cursor} {s : Step}

theorem feed_comment (h : t.kind = .comment) : r.feed d (t :: ts) = r.feed d ts := by
  simp [feed, h]

theorem feed_more (h : r.step d t = .more r') : r.feed d (t :: ts) = r'.feed d ts := by
  have hk : t.kind ≠ .comment := by
    intro hc
    simpa [hc, TokenKind.isPart] using isPart_of_step_more h
  simp [feed, hk, h]

theorem feed_over (hk : t.kind ≠ .comment) (h : ∀ next, r.step d t ≠ .more next) :
    r.feed d (t :: ts) = .ended r (r.step d t) ts := by
  simp [feed, hk]

/-- A reading that is fed and expects more has taken all tokens. -/
theorem takes_of_feed (h : r.feed d ts = .more last) : r.Takes d ts last := by
  induction ts generalizing r with
  | nil =>
    cases h
    exact .nil
  | cons t ts ih =>
    by_cases hk : t.kind = .comment
    · rw [feed_comment hk] at h
      exact .comment hk (ih h)
    · by_cases hmore : ∃ next, r.step d t = .more next
      · obtain ⟨next, hnext⟩ := hmore
        rw [feed_more hnext] at h
        exact .more hk hnext (ih h)
      · rw [feed_over hk (not_exists.1 hmore)] at h
        cases h

theorem feed_append : r.feed d (ts ++ us) = (r.feed d ts).andThen us (feed d) := by
  induction ts generalizing r with
  | nil => rfl
  | cons t ts ih =>
    by_cases hk : t.kind = .comment
    · rw [List.cons_append, feed_comment hk, feed_comment hk, ih]
    · by_cases hmore : ∃ next, r.step d t = .more next
      · obtain ⟨next, hnext⟩ := hmore
        rw [List.cons_append, feed_more hnext, feed_more hnext, ih]
      · have hover := not_exists.1 hmore
        rw [List.cons_append, feed_over hk hover, feed_over hk hover]
        rfl

/-! ## Runs and what they feed -/

theorem run_comment (hs : scan d.flags c = .token t after) (h : t.kind = .comment) :
    r.run d seen c = r.run d (t :: seen) after := by
  rw [run]
  split
  · next hs' => simp [hs] at hs'
  · next hs' => simp [hs] at hs'
  · next hs' =>
    cases hs.symm.trans hs'
    simp [h]

theorem run_more (hs : scan d.flags c = .token t after) (h : r.step d t = .more r') :
    r.run d seen c = r'.run d (t :: seen) after := by
  have hpart := isPart_of_step_more h
  have hk : t.kind ≠ .comment := by
    intro hc
    simp [hc, TokenKind.isPart] at hpart
  have he : t.kind ≠ .endOfFile := by
    intro he
    simp [he, TokenKind.isPart] at hpart
  rw [run]
  split
  · next hs' => simp [hs] at hs'
  · next hs' => simp [hs] at hs'
  · next hs' =>
    cases hs.symm.trans hs'
    simp [hk, h, he]

theorem run_over (hs : scan d.flags c = .token t after) (hk : t.kind ≠ .comment)
    (h : ∀ next, r.step d t ≠ .more next) :
    r.run d seen c = .conclude r (t :: seen).reverse after (r.step d t) := by
  rw [run]
  split
  · next hs' => simp [hs] at hs'
  · next hs' => simp [hs] at hs'
  · next hs' =>
    cases hs.symm.trans hs'
    simp only [hk, dite_false]
    split
    case h_5 next hn => exact absurd hn (h next)
    all_goals
      next hstep => rw [hstep]; rfl

theorem run_failure {reason : Text} {stopped : Cursor}
    (hs : scan d.flags c = .failure reason stopped) :
    r.run d seen c = ⟨.error (.failure reason), seen.reverse, stopped, r.names.issued⟩ := by
  rw [run]
  split <;> simp_all

theorem run_fault {e : SyntaxError} {start : Cursor} {exhausted : Bool}
    (hs : scan d.flags c = .fault e start exhausted) :
    r.run d seen c = ⟨.error (.malformed e), seen.reverse, start, r.names.issued⟩ := by
  rw [run]
  split <;> simp_all

/-- A run over tokens that all are taken goes on behind them. -/
theorem run_of_feed_more (hs : Scans d.flags c ts c') (h : r.feed d ts = .more r') :
    r.run d seen c = r'.run d (ts.reverse ++ seen) c' := by
  replace h := takes_of_feed h
  induction h generalizing c seen with
  | nil =>
    cases hs
    rfl
  | comment hk _ ih =>
    cases hs with
    | cons ht hs =>
      rw [List.reverse_cons, List.append_assoc, run_comment ht hk]
      exact ih hs
  | more _ hnext _ ih =>
    cases hs with
    | cons ht hs =>
      rw [List.reverse_cons, List.append_assoc, run_more ht hnext]
      exact ih hs

/-- Every run takes some tokens and then ends. -/
theorem run_cases (d : Dialect) (r : Reading) (seen : List Token) (c : Cursor) :
    ∃ ts at' last, Scans d.flags c ts at' ∧ r.feed d ts = .more last ∧
      EndsAt d last at' (seen.reverse ++ ts) (r.run d seen c) := by
  -- Comments and parts of an expression leave less of the text unread; other tokens end the run.
  induction hn : c.unread using Nat.strongRecOn generalizing r seen c with
  | _ n ih =>
    subst hn
    cases hs : scan d.flags c with
    | failure reason stopped =>
      refine ⟨[], c, r, .nil, rfl, ?_⟩
      rw [run_failure hs, List.append_nil]
      exact .failure hs
    | fault e start exhausted =>
      refine ⟨[], c, r, .nil, rfl, ?_⟩
      rw [run_fault hs, List.append_nil]
      exact .fault hs
    | token t after =>
      by_cases hk : t.kind = .comment
      · have hlt := scan_token_unread_lt hs (by simp [hk])
        obtain ⟨ts, at', last, hts, hfeed, hend⟩ := ih _ hlt r (t :: seen) after rfl
        refine ⟨t :: ts, at', last, .cons hs hts, by rwa [feed_comment hk], ?_⟩
        rw [run_comment hs hk]
        simpa using hend
      · by_cases hmore : ∃ next, r.step d t = .more next
        · obtain ⟨next, hnext⟩ := hmore
          have hlt := scan_token_unread_lt hs fun he => by
            simpa [he, TokenKind.isPart] using isPart_of_step_more hnext
          obtain ⟨ts, at', last, hts, hfeed, hend⟩ := ih _ hlt next (t :: seen) after rfl
          refine ⟨t :: ts, at', last, .cons hs hts, by rwa [feed_more hnext], ?_⟩
          rw [run_more hs hnext]
          simpa using hend
        · have hover := not_exists.1 hmore
          refine ⟨[], c, r, .nil, rfl, ?_⟩
          rw [run_over hs hk hover, List.append_nil, List.reverse_cons]
          exact .token hs hk hover

end Reading

end PrologText
