import PrologText.Program.Consult
import PrologText.Proofs.Functors

/-!
# Consulting comes to a result

Reading moves the cursor on within the lines of the text (`Reading.run_leads`, `Reader.next_leads`),
and on a text that is complete it ends in a sentence, in a syntax error or at the end of the input.
Main statement: consulting a text makes finitely many calls of the reader and comes to a result
(`Reader.exists_calls`).
-/

namespace PrologText

/-! ## Reading moves on -/

theorem Scans.leads {flags : Flags} {c c' : Cursor} {ts : List Token} (h : Scans flags c ts c') :
    c.Leads c' := by
  induction h with
  | nil => exact .refl _
  | cons ht _ ih => exact (leads_of_scan_token ht).trans ih

@[simp] theorem Run.cursor_conclude (last : Reading) (ts : List Token) (after : Cursor) (s : Step) :
    (conclude last ts after s).cursor = after := by
  cases s <;> rfl

@[simp] theorem Run.tokens_conclude (last : Reading) (ts : List Token) (after : Cursor) (s : Step) :
    (conclude last ts after s).tokens = ts := by
  cases s <;> rfl

theorem Reading.run_leads (d : Dialect) (r : Reading) (seen : List Token) (c : Cursor) :
    c.Leads (r.run d seen c).cursor := by
  obtain ⟨ts, at', last, hts, -, hend⟩ := run_cases d r seen c
  refine hts.leads.trans ?_
  generalize r.run d seen c = run at hend ⊢
  cases hend with
  | failure h => exact leads_of_scan_failure h
  | fault h => exact leads_of_scan_fault h
  | token h =>
    rw [Run.cursor_conclude]
    exact leads_of_scan_token h

theorem skipSentence_eq (flags : Flags) (c : Cursor) :
    skipSentence flags c =
      match scan flags c with
      | .failure reason stopped => .failure reason stopped
      | .fault _ start exhausted =>
        if exhausted then .ended start.toEnd else skipSentence flags (start.advance 1)
      | .token t after =>
        if t.kind = .stop then .resumed after
        else if t.kind = .endOfFile then .ended after
        else skipSentence flags after := by
  rw [skipSentence]
  split
  · next h => simp only [h]
  · next h => simp only [h]
  · next h =>
    simp only [h]
    split
    · rfl
    · split <;> rfl

/-- Passing over a sentence comes to a cursor ahead of `c`, and fails only where the lines do. -/
def Skipped.Ahead (c : Cursor) : Skipped → Prop
  | resumed at' | ended at' => c.Leads at'
  | failure reason at' => c.Leads at' ∧ c.ending = .failure reason

theorem Skipped.Ahead.mono {s : Skipped} {c d : Cursor} (h : s.Ahead d) (hd : c.Leads d) :
    s.Ahead c := by
  cases s with
  | resumed | ended => exact hd.trans h
  | failure => exact ⟨hd.trans h.1, hd.ending ▸ h.2⟩

theorem skipSentence_ahead (flags : Flags) (c : Cursor) : (skipSentence flags c).Ahead c := by
  induction hn : c.unread using Nat.strongRecOn generalizing c with
  | _ n ih =>
    subst hn
    rw [skipSentence_eq]
    cases hs : scan flags c with
    | failure reason stopped => exact ⟨leads_of_scan_failure hs, ending_of_scan_failure hs⟩
    | fault e start exhausted =>
      -- What is no token is passed over character by character, so there is less left each time.
      obtain ⟨hrest, hunread⟩ := scan_fault hs
      have hlead := leads_of_scan_fault hs
      simp only
      split
      · exact hlead.trans (Cursor.leads_toEnd _)
      · have hone := Cursor.leads_advance (List.length_pos_iff.2 hrest)
        refine (ih _ ?_ _ rfl).mono (hlead.trans hone)
        exact Nat.lt_of_lt_of_le (Cursor.unread_advance_lt Nat.one_pos hrest) hunread
    | token t after =>
      have hlead := leads_of_scan_token hs
      simp only
      split
      · exact hlead
      · split
        · exact hlead
        · next hk => exact (ih _ (scan_token_unread_lt hs hk) _ rfl).mono hlead

/-! ## Calls of a reader -/

namespace Reader

/-- A call reads from some cursor ahead, or passing over the rest of a malformed sentence comes to
the end of the input or to lines that fail. -/
theorem next_eq_cases (d : Dialect) (r : Reader) :
    (∃ start, r.cursor.Leads start ∧ r.next d = readAt d r.issued start) ∨
      (∃ after, r.cursor.Leads after ∧ r.next d = (.endOfInput, ⟨after, false, r.issued⟩)) ∨
      ∃ reason stopped, r.cursor.Leads stopped ∧ r.cursor.ending = .failure reason ∧
        r.next d = (.error (.failure reason), ⟨stopped, false, r.issued⟩) := by
  have hskip := skipSentence_ahead d.flags r.cursor
  unfold next
  split
  · generalize skipSentence d.flags r.cursor = s at hskip ⊢
    cases s with
    | failure reason stopped => exact .inr (.inr ⟨reason, stopped, hskip.1, hskip.2, rfl⟩)
    | ended after => exact .inr (.inl ⟨after, hskip, rfl⟩)
    | resumed start => exact .inl ⟨start, hskip, rfl⟩
  · exact .inl ⟨r.cursor, .refl _, rfl⟩

theorem next_leads (d : Dialect) (r : Reader) : r.cursor.Leads (r.next d).2.cursor := by
  rcases r.next_eq_cases d with
    ⟨start, hleads, h⟩ | ⟨after, hleads, h⟩ | ⟨reason, stopped, hleads, -, h⟩
  · rw [h]
    exact hleads.trans (Reading.run_leads ..)
  · rwa [h]
  · rwa [h]

/-- On a text that is complete, reading a sentence does not fail. -/
theorem readAt_outcome {c : Cursor} (hc : c.ending = .endOfInput) (d : Dialect) (issued : Nat) :
    (readAt d issued c).1 = .endOfInput ∨ (readAt d issued c).1.Continues := by
  have hstuck := Run.at_ne_stuck d issued c
  obtain ⟨ts, at', last, hts, -, hend⟩ := Reading.run_cases d (.start issued) [] c
  have hending := hts.leads.ending.trans hc
  unfold readAt
  simp only
  unfold Run.at at hstuck ⊢
  generalize (Reading.start issued).run d [] c = run at hend hstuck ⊢
  cases hend with
  | failure h => cases hending.symm.trans (ending_of_scan_failure h)
  | fault => exact .inr trivial
  | @token t after h hk hover =>
    generalize last.step d t = s at hstuck hover ⊢
    cases s with
    | more next => exact absurd rfl (hover next)
    | done | fault => exact .inr trivial
    | endOfInput => exact .inl rfl
    | stuck => exact absurd rfl hstuck

theorem next_outcome (d : Dialect) {r : Reader} (h : r.cursor.ending = .endOfInput) :
    (r.next d).1 = .endOfInput ∨ (r.next d).1.Continues := by
  rcases r.next_eq_cases d with
    ⟨start, hleads, hnext⟩ | ⟨after, -, hnext⟩ | ⟨reason, stopped, -, hfails, -⟩
  · rw [hnext]
    exact readAt_outcome (hleads.ending.trans h) d _
  · exact .inl (by rw [hnext])
  · cases h.symm.trans hfails

theorem consult_eq (d : Dialect) (done : Consultation) (r : Reader) :
    r.consult d done =
      match r.next d with
      | (.endOfInput, after) => ⟨d, after.issued, .ok done.reverse⟩
      | (.sentence s, after) => after.consult (d.apply s).dialect (done.addSentence s (d.apply s))
      | (.error (.malformed e), after) => after.consult d (done.addError e)
      | (.error e, after) => ⟨d, after.issued, .error e⟩ := by
  rw [consult]
  split <;> next h => simp only [h]

/-- A call of a reader. -/
structure Call where
  dialect : Dialect
  reader : Reader

/-- The calls that consulting makes from a reader on. The last one finds the end of the input. -/
inductive Calls : Dialect → Reader → List Call → Prop where
  | last {d : Dialect} {r : Reader} (h : (r.next d).1 = .endOfInput) : Calls d r [⟨d, r⟩]
  | sentence {d : Dialect} {r : Reader} {s : Sentence} {calls : List Call}
    (h : (r.next d).1 = .sentence s) (hs : Calls (d.apply s).dialect (r.next d).2 calls) :
    Calls d r (⟨d, r⟩ :: calls)
  | malformed {d : Dialect} {r : Reader} {e : SyntaxError} {calls : List Call}
    (h : (r.next d).1 = .error (.malformed e)) (hs : Calls d (r.next d).2 calls) :
    Calls d r (⟨d, r⟩ :: calls)

theorem Calls.ne_nil {d : Dialect} {r : Reader} {calls : List Call} (h : Calls d r calls) :
    calls ≠ [] := by
  cases h <;> simp

theorem Calls.leads {d : Dialect} {r : Reader} {calls : List Call} (h : Calls d r calls)
    {call : Call} (hc : call ∈ calls) : r.cursor.Leads call.reader.cursor := by
  induction h with
  | last =>
    cases List.mem_singleton.1 hc
    exact .refl _
  | @sentence d r _ _ _ _ ih | @malformed d r _ _ _ _ ih =>
    rcases List.mem_cons.1 hc with rfl | hc
    · exact .refl _
    · exact (next_leads d r).trans (ih hc)

/-- Consulting makes a bounded number of calls and comes to a result. -/
theorem exists_calls (d : Dialect) (r : Reader) (done : Consultation)
    (h : r.cursor.ending = .endOfInput) :
    ∃ calls result, Calls d r calls ∧ calls.length ≤ r.measure + 1 ∧
      (r.consult d done).result = .ok result := by
  -- A call that continues leaves less to be read, or has passed over the rest of a sentence.
  induction hn : r.measure using Nat.strongRecOn generalizing d r done with
  | _ n ih =>
    subst hn
    have hnext := (next_leads d r).ending.trans h
    rw [consult_eq]
    rcases next_outcome d h with hend | hmore
    · refine ⟨[⟨d, r⟩], done.reverse, .last hend, Nat.le_add_left .., ?_⟩
      rw [← Prod.eta (r.next d), hend]
    · have hlt := next_measure_lt hmore
      rw [← Prod.eta (r.next d)]
      cases ho : (r.next d).1 with
      | sentence s =>
        obtain ⟨calls, result, hcalls, hlength, hresult⟩ :=
          ih _ hlt (d.apply s).dialect _ (done.addSentence s (d.apply s)) hnext rfl
        exact ⟨_ :: calls, result, .sentence ho hcalls, by simp; omega, hresult⟩
      | endOfInput =>
        rw [ho] at hmore
        exact hmore.elim
      | error e =>
        cases e with
        | malformed e =>
          obtain ⟨calls, result, hcalls, hlength, hresult⟩ :=
            ih _ hlt d _ (done.addError e) hnext rfl
          exact ⟨_ :: calls, result, .malformed ho hcalls, by simp; omega, hresult⟩
        | failure | stuck =>
          rw [ho] at hmore
          exact hmore.elim

end Reader

end PrologText
