import PrologText.Proofs.Completion
import PrologText.Proofs.HeldTokens
import PrologText.Proofs.Positions
import PrologText.Proofs.Spans

/-!
# Full stops that are left out

A sentence may end at the end of the file instead of a full stop, if the flags allow it. Main
statement: the same tokens before either end are read as the same sentence, or are refused for
reasons of the same class (`Outcome.ofTokens?_endOfFile`). The two ends differ only where nothing
has been read, and a reading that has taken a token never comes back to such a state
(`Reading.isEmpty_of_step_more`).
-/

namespace PrologText

/-- Flags with which a sentence may end without a full stop, or may not. -/
def Flags.stopping (f : Flags) (optional : Bool) : Flags :=
  { f with fullStopOptional := optional }

def Dialect.stopping (d : Dialect) (optional : Bool) : Dialect :=
  { d with flags := d.flags.stopping optional }

/-! ## Reading tokens without a text -/

/-- What some tokens are read as, up to the first that ends the reading; `none` if more tokens are
expected. -/
def Outcome.ofTokens? (d : Dialect) (issued : Nat) (ts : List Token) : Option Outcome :=
  match (Reading.start issued).feed d ts with
  | .more _ => none
  | .ended _ s rest => some (s.outcome (ts.take (ts.length - rest.length)))

namespace Reading

variable {d : Dialect} {r r' last : Reading} {t : Token} {ts rest : List Token} {s : Step}

/-- Feeding ends with the step at one of the tokens, behind those that are taken. -/
theorem exists_of_feed_ended (h : r.feed d ts = .ended last s rest) :
    ∃ taken t, ts = taken ++ t :: rest ∧ r.feed d taken = .more last ∧ t.kind ≠ .comment ∧
      last.step d t = s ∧ ∀ next, s ≠ .more next := by
  induction ts generalizing r with
  | nil => cases h
  | cons t ts ih =>
    by_cases hk : t.kind = .comment
    · rw [feed_comment hk] at h
      obtain ⟨taken, u, rfl, hfeed, hu⟩ := ih h
      exact ⟨t :: taken, u, rfl, by rwa [feed_comment hk], hu⟩
    · by_cases hmore : ∃ next, r.step d t = .more next
      · obtain ⟨next, hnext⟩ := hmore
        rw [feed_more hnext] at h
        obtain ⟨taken, u, rfl, hfeed, hu⟩ := ih h
        exact ⟨t :: taken, u, rfl, by rwa [feed_more hnext], hu⟩
      · have hover := not_exists.1 hmore
        rw [feed_over hk hover] at h
        cases h
        exact ⟨[], t, rfl, rfl, hk, rfl, hover⟩

end Reading

namespace Outcome

variable {d : Dialect} {issued : Nat} {taken rest : List Token} {t : Token} {last : Reading}

/-- What tokens are read as is decided by the step at the first token that is not taken. -/
theorem ofTokens?_eq (h : (Reading.start issued).feed d taken = .more last)
    (hk : t.kind ≠ .comment) (hover : ∀ next, last.step d t ≠ .more next) :
    ofTokens? d issued (taken ++ t :: rest) =
      some ((last.step d t).outcome (taken ++ [t])) := by
  have htake : (taken ++ t :: rest).take ((taken ++ t :: rest).length - rest.length) =
      taken ++ [t] := by
    rw [List.append_cons, List.length_append, Nat.add_sub_cancel, List.take_left]
  unfold ofTokens?
  rw [Reading.feed_append, h]
  simp only [Fed.andThen, Reading.feed_over hk hover, htake]

end Outcome

/-- A text that starts with some tokens is read as the tokens are. -/
theorem Run.outcome_of_scans {d : Dialect} {issued : Nat} {ts : List Token} {c after : Cursor}
    {o : Outcome} (hs : Scans d.flags c ts after) (h : Outcome.ofTokens? d issued ts = some o) :
    (Run.at d issued c).outcome = o := by
  cases hfeed : (Reading.start issued).feed d ts with
  | more => simp [Outcome.ofTokens?, hfeed] at h
  | ended last s rest =>
    obtain ⟨taken, t, rfl, htaken, hk, rfl, hover⟩ := Reading.exists_of_feed_ended hfeed
    obtain ⟨at', htaken', hrest⟩ := hs.of_append
    rw [Outcome.ofTokens?_eq htaken hk hover] at h
    cases hrest with
    | cons ht =>
      rw [Run.at, Reading.run_of_feed_more htaken' htaken, Reading.run_over ht hk hover,
        outcome_conclude]
      simpa using h

/-! ## Tokens at other places -/

/-- What comes of tokens at other places. -/
inductive Fed.Alike : Fed → Fed → Prop where
  | more {next next' : Reading} (h : next.bare = next'.bare) : Alike (.more next) (.more next')
  | ended {last last' : Reading} {s s' : Step} {rest rest' : List Token} (hs : s.bare = s'.bare)
    (hrest : rest.length = rest'.length) : Alike (.ended last s rest) (.ended last' s' rest')

theorem Reading.feed_alike {d : Dialect} {r r' : Reading} {ts us : List Token}
    (hr : r.bare = r'.bare) (h : ts.map Token.unplaced = us.map Token.unplaced) :
    (r.feed d ts).Alike (r'.feed d us) := by
  induction ts generalizing r r' us with
  | nil =>
    obtain rfl : us = [] := by simpa using h.symm
    exact .more hr
  | cons t ts ih =>
    obtain ⟨u, us, rfl⟩ := List.exists_cons_of_ne_nil (l := us) (by rintro rfl; cases h)
    obtain ⟨htu, htail⟩ := List.cons.inj h
    have hkind : t.kind = u.kind := by
      simpa [Token.unplaced] using congrArg Token.kind htu
    by_cases hk : t.kind = .comment
    · rw [feed_comment hk, feed_comment (hkind ▸ hk)]
      exact ih hr htail
    · have hstep := step_bare_congr (d := d) hr htu
      by_cases hmore : ∃ next, r.step d t = .more next
      · obtain ⟨next, hnext⟩ := hmore
        obtain ⟨next', hnext', hbare⟩ :=
          Step.bare_eq_more (hstep.symm.trans (congrArg Step.bare hnext))
        rw [feed_more hnext, feed_more hnext']
        exact ih hbare.symm htail
      · have hover := not_exists.1 hmore
        rw [feed_over hk hover, feed_over (hkind ▸ hk) (Step.ne_more_of_bare hstep hover)]
        refine .ended hstep ?_
        simpa using congrArg List.length htail

theorem Step.outcome_unplaced {s s' : Step} {ts us : List Token} (hs : s.bare = s'.bare)
    (h : ts.map Token.unplaced = us.map Token.unplaced) :
    (s.outcome ts).unplaced = (s'.outcome us).unplaced := by
  have hts : ts.map Token.bare = us.map Token.bare := by
    have hbare : Token.bare = Token.bare ∘ Token.unplaced := rfl
    rw [hbare, ← List.map_map, h, List.map_map]
  cases s <;> cases s' <;> simp only [Step.bare, Step.moved, reduceCtorEq] at hs <;> try cases hs
  case done.done.refl => exact congrArg Outcome.sentence (Sentence.ofTokens_unplaced _ _ hts)
  case fault.fault e e' =>
    have he : e.unplaced = e'.unplaced := Step.fault.inj hs
    simp only [outcome, Outcome.unplaced, he]
  all_goals rfl

/-- What tokens are read as does not depend on their places. -/
theorem Outcome.ofTokens?_unplaced {ts us : List Token} (d : Dialect) (issued : Nat)
    (h : ts.map Token.unplaced = us.map Token.unplaced) :
    (ofTokens? d issued ts).map unplaced = (ofTokens? d issued us).map unplaced := by
  have hfeed := Reading.feed_alike (d := d) (r := .start issued) rfl h
  have hlength : ts.length = us.length := by simpa using congrArg List.length h
  unfold ofTokens?
  generalize (Reading.start issued).feed d ts = x, (Reading.start issued).feed d us = y at hfeed
  cases hfeed with
  | more => rfl
  | ended hs hrest =>
    simp only [Option.map_some, hlength, hrest]
    refine congrArg some (Step.outcome_unplaced hs ?_)
    rw [List.map_take, List.map_take, h]

/-! ## The two ends -/

/-- Steps that end a sentence in the same way: with the same term, or with faults of one class. -/
inductive Step.EndsAlike : Step → Step → Prop where
  | done (term : Term) (names : Bindings) : EndsAlike (.done term names) (.done term names)
  | fault {e e' : SyntaxError} (h : e.cause.className = e'.cause.className) :
    EndsAlike (.fault e) (.fault e')
  | stuck : EndsAlike .stuck .stuck

namespace Reading

variable {d : Dialect} {r next : Reading} {t eof stop : Token} {ts : List Token}

theorem isEmpty_of_feed (hts : ∀ t ∈ ts, t.kind ≠ .comment) (hne : ts ≠ [])
    (h : r.feed d ts = .more next) : next.isEmpty = false := by
  have htakes := takes_of_feed h
  clear h
  induction htakes with
  | nil => exact absurd rfl hne
  | comment hk => exact absurd hk (hts _ List.mem_cons_self)
  | @more r t next ts last _ hnext htakes ih =>
    by_cases hrest : ts = []
    · subst hrest
      cases htakes
      exact isEmpty_of_step_more hnext
    · exact ih (List.forall_mem_cons.1 hts).2 hrest

theorem endsWith_stopping (optional : Bool) (h : t.kind ≠ .endOfFile) :
    r.endsWith (d.flags.stopping optional) t = r.endsWith d.flags t := by
  simp [endsWith, h]

/-- Whether full stops are optional matters at the end of the file alone. -/
theorem step_stopping (optional : Bool) (h : t.kind ≠ .endOfFile) :
    r.step (d.stopping optional) t = r.step d t := by
  have htake (r : Reading) : r.take (d.stopping optional) t = r.take d t := by
    simp only [take, Dialect.stopping, endsWith_stopping optional h]
    rfl
  simp only [step, htake]
  rfl

theorem feed_stopping (optional : Bool) (h : ∀ t ∈ ts, t.kind ≠ .endOfFile) :
    r.feed (d.stopping optional) ts = r.feed d ts := by
  induction ts generalizing r with
  | nil => rfl
  | cons t ts ih =>
    obtain ⟨ht, hts⟩ := List.forall_mem_cons.1 h
    simp only [feed, step_stopping optional ht, ih hts]

theorem settle_end (heof : eof.kind = .endOfFile) (hstop : stop.kind = .stop) :
    r.settle (d.stopping true) eof = r.settle d stop := by
  have hnumber {t : Token} (h : t.kind = .endOfFile ∨ t.kind = .stop) :
      (if t.layoutBefore then none else t.number?) = none := by
    rcases h with h | h <;> simp [Token.number?, h]
  unfold settle
  simp only [hnumber (.inl heof), hnumber (.inr hstop), heof, hstop, reduceCtorEq, if_false]
  rfl

/-- Where something has been read, an expression ends in the same way at both ends. -/
theorem expression_end (r : Reading) (eof stop : Token) :
    (∃ term, r.expression eof = .ok term ∧ r.expression stop = .ok term) ∨
      ∃ e e', r.expression eof = .error e ∧ r.expression stop = .error e' ∧
        e.cause.className = e'.cause.className := by
  have hlast : (∃ x, r.lastOperand eof = .ok x ∧ r.lastOperand stop = .ok x) ∨
      ∃ e e', r.lastOperand eof = .error e ∧ r.lastOperand stop = .error e' ∧
        e.cause.className = e'.cause.className := by
    unfold lastOperand
    split
    · exact .inl ⟨_, rfl, rfl⟩
    · split
      · exact .inr ⟨_, _, rfl, rfl, rfl⟩
      · exact .inl ⟨_, rfl, rfl⟩
    · exact .inr ⟨_, _, rfl, rfl, rfl⟩
    · exact .inr ⟨_, _, rfl, rfl, by cases r.atTop <;> rfl⟩
  unfold expression
  rcases hlast with ⟨⟨ps, x⟩, heof, hstop⟩ | ⟨e, e', heof, hstop, hclass⟩
  · simp only [heof, hstop]
    cases Pending.applyAll ps x with
    | error e => exact .inr ⟨e, e, rfl, rfl, rfl⟩
    | ok whole => exact .inl ⟨whole.term, rfl, rfl⟩
  · simp only [heof, hstop]
    exact .inr ⟨e, e', rfl, rfl, hclass⟩

theorem take_end (heof : eof.kind = .endOfFile) (hstop : stop.kind = .stop)
    (hr : r.isEmpty = false) :
    Step.EndsAlike (r.take (d.stopping true) eof) (r.take d stop) := by
  cases ho : r.outer with
  | nil =>
    have hends : r.endsWith (d.stopping true).flags eof = true ∧
        r.endsWith d.flags stop = true := by
      simp [endsWith, terminal, enclosure?, atTop, ho, heof, hstop, hr, Dialect.stopping,
        Flags.stopping]
    simp only [take, hends.1, hends.2, if_true]
    rcases r.expression_end eof stop with
      ⟨term, heof, hstop⟩ | ⟨e, e', heof, hstop, hclass⟩
    · simp only [heof, hstop, close, ho]
      exact .done term r.names
    · simp only [heof, hstop]
      exact .fault hclass
  | cons enclosure outer =>
    -- Inside brackets both ends come too early.
    have hends : r.endsWith (d.stopping true).flags eof = false ∧
        r.endsWith d.flags stop = false := by
      simp [endsWith, terminal, enclosure?, atTop, ho, heof, hstop]
    have hearly : Step.EndsAlike (r.unexpectedEnd eof) (r.unexpectedEnd stop) := by
      simp only [unexpectedEnd, hr, Bool.false_eq_true, and_false, if_false]
      exact .fault rfl
    simp only [take, hends.1, hends.2, Bool.false_eq_true, if_false]
    split
    · simp only [takeOperator, heof, hstop]
      exact hearly
    · simp only [takeOperand, heof, hstop]
      exact hearly

theorem step_end (heof : eof.kind = .endOfFile) (hstop : stop.kind = .stop)
    (hr : r.isEmpty = false) :
    Step.EndsAlike (r.step (d.stopping true) eof) (r.step d stop) := by
  unfold step
  rw [settle_end heof hstop]
  cases hs : r.settle d stop with
  | ready next => exact take_end heof hstop (isEmpty_of_settle hr hs)
  | taken s =>
    -- Only a functor that lacks its parenthesis, or a sign that is no operator here, is decided.
    cases hx : r.expects with
    | operand | operator => simp [settle, hx] at hs
    | arguments =>
      simp only [settle, hx, hstop, reduceCtorEq, if_false, Settled.taken.injEq] at hs
      subst hs
      exact .stuck
    | listStart | bracesStart => simp [settle, hx, hstop] at hs
    | signed op sign =>
      simp only [settle, hx, Token.number?, hstop, ite_self] at hs
      split at hs
      · cases hs
        exact .fault rfl
      · cases hs

end Reading

/-- Steps that end a sentence are no steps to more. -/
theorem Step.EndsAlike.ne_more {s s' : Step} (h : s.EndsAlike s') (next : Reading) :
    s ≠ .more next ∧ s' ≠ .more next := by
  cases h <;> exact ⟨nofun, nofun⟩

theorem Sentence.ofTokens_append {ts : List Token} (hts : ∀ t ∈ ts, t.kind ≠ .comment)
    (hne : ts ≠ []) {t : Token} (ht : t.kind ≠ .comment) (term : Term) (names : Bindings) :
    ofTokens term names (ts ++ [t]) = ofTokens term names ts := by
  obtain ⟨first, ts, rfl⟩ := List.exists_cons_of_ne_nil hne
  have hfirst := hts first List.mem_cons_self
  simp [ofTokens, hfirst, ht, List.filter_append]

namespace Outcome

variable {ts : List Token} {eof stop : Token}

/-- Outcomes that are the same or are syntax errors of one class. -/
inductive EndsAlike : Outcome → Outcome → Prop where
  | same (o : Outcome) : EndsAlike o o
  | fault {e e' : SyntaxError} (h : e.cause.className = e'.cause.className) :
    EndsAlike (.error (.malformed e)) (.error (.malformed e'))

theorem EndsAlike.unplaced {o o' : Outcome} (h : EndsAlike o o') :
    EndsAlike o.unplaced o'.unplaced := by
  cases h with
  | same => exact .same _
  | fault h => exact .fault h

theorem ofTokens?_stopping (d : Dialect) (issued : Nat) (optional : Bool)
    (h : ∀ t ∈ ts, t.kind ≠ .endOfFile) :
    ofTokens? (d.stopping optional) issued ts = ofTokens? d issued ts := by
  simp only [ofTokens?, Reading.feed_stopping optional h]

theorem exists_ofTokens?_end (d : Dialect) (issued : Nat) (hts : ∀ t ∈ ts, t.kind.isPart)
    (hne : ts ≠ []) (heof : eof.kind = .endOfFile) (hstop : stop.kind = .stop) :
    ∃ o o', ofTokens? (d.stopping true) issued (ts ++ [eof]) = some o ∧
      ofTokens? d issued (ts ++ [stop]) = some o' ∧ EndsAlike o o' := by
  have hpart {t : Token} (ht : t ∈ ts) : t.kind ≠ .endOfFile ∧ t.kind ≠ .comment := by
    have := hts t ht
    constructor <;> intro hk <;> simp [hk, TokenKind.isPart] at this
  have hfeed := Reading.feed_stopping (r := .start issued) (d := d) true fun t ht => (hpart ht).1
  cases hlast : (Reading.start issued).feed d ts with
  | ended last s rest =>
    -- The reading ends before its last token, whatever that is.
    obtain ⟨taken, t, rfl, htaken, hk, rfl, hover⟩ := Reading.exists_of_feed_ended hlast
    have hkind := (hpart (List.mem_append_right _ List.mem_cons_self)).1
    have htaken' := (Reading.feed_stopping (r := .start issued) true fun t ht =>
      (hpart (List.mem_append_left _ ht)).1).trans htaken
    have hstep := Reading.step_stopping (d := d) (r := last) true hkind
    rw [List.append_assoc, List.append_assoc, List.cons_append, List.cons_append,
      ofTokens?_eq htaken hk hover, ofTokens?_eq htaken' hk (hstep ▸ hover), hstep]
    exact ⟨_, _, rfl, rfl, .same _⟩
  | more last =>
    have hbegun := Reading.isEmpty_of_feed (fun t ht => (hpart ht).2) hne hlast
    have hends := Reading.step_end (d := d) heof hstop hbegun
    have hsentence {t : Token} (ht : t.kind ≠ .comment) (term : Term) (names : Bindings) :=
      Sentence.ofTokens_append (fun t ht => (hpart ht).2) hne ht term names
    rw [ofTokens?_eq (hfeed.trans hlast) (by simp [heof]) fun next => (hends.ne_more next).1,
      ofTokens?_eq hlast (by simp [hstop]) fun next => (hends.ne_more next).2]
    refine ⟨_, _, rfl, rfl, ?_⟩
    generalize last.step (d.stopping true) eof = s, last.step d stop = s' at hends
    cases hends with
    | done term names =>
      simp only [Step.outcome, hsentence (t := eof) (by simp [heof]),
        hsentence (t := stop) (by simp [hstop])]
      exact .same _
    | fault h => exact .fault h
    | stuck => exact .same _

/-- Readers at texts that start with the same tokens, one before the end of the file and one before
a full stop. -/
theorem next_endsAlike {d : Dialect} {us : List Token} {c c' after after' : Cursor} (issued : Nat)
    (hts : ∀ t ∈ ts, t.kind.isPart) (hne : ts ≠ []) (heof : eof.kind = .endOfFile)
    (hstop : stop.kind = .stop) (hus : us.map Token.unplaced = ts.map Token.unplaced)
    (hc : Scans (d.stopping true).flags c (us ++ [eof]) after)
    (hc' : Scans d.flags c' (ts ++ [stop]) after') :
    EndsAlike ((Reader.ofCursor c issued).next (d.stopping true)).1.unplaced
      ((Reader.ofCursor c' issued).next d).1.unplaced := by
  obtain ⟨o, o', ho, ho', hends⟩ := exists_ofTokens?_end d issued hts hne heof hstop
  have hplaces : (us ++ [eof]).map Token.unplaced = (ts ++ [eof]).map Token.unplaced := by
    simp only [List.map_append, hus]
  have heq := ofTokens?_unplaced (d.stopping true) issued hplaces
  rw [ho] at heq
  obtain ⟨x, hx, hunplaced⟩ := Option.map_eq_some_iff.1 heq
  have hnext : ((Reader.ofCursor c issued).next (d.stopping true)).1 = x :=
    Run.outcome_of_scans hc hx
  have hnext' : ((Reader.ofCursor c' issued).next d).1 = o' := Run.outcome_of_scans hc' ho'
  rw [hnext, hnext', hunplaced]
  exact hends.unplaced

/-- The end of the file is a full stop where full stops are optional. Some tokens that are parts of
an expression are read as the same sentence before both, or are refused with errors of the same
class, and before a full stop it does not matter whether it is optional. So readers at texts that
start with these tokens yield the same before both ends, but for places and the error at hand. -/
theorem ofTokens?_endOfFile (d : Dialect) (issued : Nat) (hts : ∀ t ∈ ts, t.kind.isPart)
    (hne : ts ≠ []) (heof : eof.kind = .endOfFile) (hstop : stop.kind = .stop) :
    (∀ s, ofTokens? (d.stopping true) issued (ts ++ [eof]) = some (.sentence s) ↔
        ofTokens? d issued (ts ++ [stop]) = some (.sentence s)) ∧
      (∀ name, (∃ e, ofTokens? (d.stopping true) issued (ts ++ [eof]) =
            some (.error (.malformed e)) ∧ e.cause.className = name) ↔
          ∃ e, ofTokens? d issued (ts ++ [stop]) = some (.error (.malformed e)) ∧
            e.cause.className = name) ∧
      (∀ optional, ofTokens? (d.stopping optional) issued (ts ++ [stop]) =
        ofTokens? d issued (ts ++ [stop])) ∧
      ∀ us c c' after after', us.map Token.unplaced = ts.map Token.unplaced →
        Scans (d.stopping true).flags c (us ++ [eof]) after →
        Scans d.flags c' (ts ++ [stop]) after' →
        EndsAlike ((Reader.ofCursor c issued).next (d.stopping true)).1.unplaced
          ((Reader.ofCursor c' issued).next d).1.unplaced := by
  obtain ⟨o, o', ho, ho', hends⟩ := exists_ofTokens?_end d issued hts hne heof hstop
  refine ⟨fun s => ?_, fun name => ?_, fun optional => ofTokens?_stopping d issued optional ?_, ?_⟩
  · rw [ho, ho']
    cases hends with
    | same => rfl
    | fault => simp
  · rw [ho, ho']
    cases hends with
    | same => rfl
    | fault h => simp [h]
  · intro t ht hk
    rcases List.mem_append.1 ht with ht | ht
    · have := hts t ht
      simp [hk, TokenKind.isPart] at this
    · cases List.mem_singleton.1 ht
      simp [hstop] at hk
  · intro us c c' after after' hus hc hc'
    exact next_endsAlike issued hts hne heof hstop hus hc hc'

/-- The tokens of an equation with a sign, in a line. -/
def equationTokens (line : Text) : List Token :=
  let token (kind : TokenKind) (text : Text) (layoutBefore : Bool) (column : Nat) : Token :=
    ⟨kind, text, layoutBefore, false, ⟨1, column, line⟩⟩
  [token .atom "\\+" false 1, token .variable "X" true 4, token .atom "=" true 6,
    token (.opening .square) "[" true 8, token .atom "-" false 9, token (.integer 10) "1" false 10,
    token .bar "|" false 11, token .variable "X" false 12, token (.closing .square) "]" false 13]

theorem next_equation_endOfFile :
    (∃ eof after, Scans (Dialect.standard.stopping true).flags (.ofText "\\+ X = [-1|X]")
        (equationTokens "\\+ X = [-1|X]" ++ [eof]) after) ∧
      (∃ stop after, Scans Dialect.standard.flags (.ofText "\\+ X = [-1|X].")
        (equationTokens "\\+ X = [-1|X]." ++ [stop]) after) ∧
      EndsAlike
        ((Reader.ofCursor (.ofText "\\+ X = [-1|X]") 0).next (.stopping .standard true)).1.unplaced
        ((Reader.ofCursor (.ofText "\\+ X = [-1|X].") 0).next .standard).1.unplaced := by
  obtain ⟨us, eof, last, hus, heof, hopen⟩ := exists_scans_endOfFile
    (Dialect.standard.stopping true).flags [] (.ofText "\\+ X = [-1|X]") (by decide +kernel)
  obtain ⟨ts, after, hts, hstopped⟩ := Scans.exists_of_tokensFrom
    Dialect.standard.flags [] (.ofText "\\+ X = [-1|X].")
  obtain rfl : us = equationTokens "\\+ X = [-1|X]" :=
    hus.symm.trans (by decide +kernel)
  obtain rfl : ts = equationTokens "\\+ X = [-1|X]." ++
      [⟨.stop, ".", false, false, ⟨1, 14, "\\+ X = [-1|X]."⟩⟩] :=
    hts.symm.trans (by decide +kernel)
  refine ⟨⟨eof, last, hopen⟩, ⟨_, after, hstopped⟩, ?_⟩
  exact (ofTokens?_endOfFile .standard 0 (by decide) (by decide) heof rfl).2.2.2 _ _ _ _ _
    (by decide) hopen hstopped

end Outcome

end PrologText
