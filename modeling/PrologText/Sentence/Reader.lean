import PrologText.Sentence.Basic
import PrologText.Sentence.Reading
import PrologText.Token.Progress

/-!
# Readers

A reader yields the sentences of a text one after the other. After a syntax error the rest of the
sentence is passed over before the next one is read. Main statement: every sentence and every syntax
error brings a reader nearer to the end of its text (`Reader.next_measure_lt`), so that reading all
of them ends.
-/

namespace PrologText

/-- What a reader yields. -/
inductive Outcome where
  | sentence (s : Sentence)
  | endOfInput
  | error (e : ReadError)

/-- Whether there can be more to read after an outcome. -/
def Outcome.Continues : Outcome → Prop
  | sentence _ | error (.malformed _) => True
  | _ => False

/-! ## One sentence -/

/-- The course of reading one sentence. -/
structure Run where
  outcome : Outcome
  /-- The tokens that were taken, comments among them. -/
  tokens : List Token
  /-- Where reading stopped. -/
  cursor : Cursor
  /-- The number of the last variable. -/
  issued : Nat

/-- Goes on with a reading at a cursor; `seen` are the tokens before it in reverse. -/
def Reading.run (d : Dialect) (r : Reading) (seen : List Token) (c : Cursor) : Run :=
  match hs : scan d.flags c with
  | .failure reason stopped =>
    ⟨.error (.failure reason), seen.reverse, stopped, r.names.issued⟩
  | .fault e start _ => ⟨.error (.malformed e), seen.reverse, start, r.names.issued⟩
  | .token t after =>
    let tokens := t :: seen
    if hc : t.kind = .comment then
      have shorter : after.unread < c.unread := scan_token_unread_lt hs (by simp [hc])
      run d r tokens after
    else
      match r.step d t with
      | .done term names =>
        ⟨.sentence (.ofTokens term names tokens.reverse), tokens.reverse, after, names.issued⟩
      | .endOfInput => ⟨.endOfInput, tokens.reverse, after, r.names.issued⟩
      | .fault e => ⟨.error (.malformed e), tokens.reverse, after, r.names.issued⟩
      | .stuck => ⟨.error .stuck, tokens.reverse, after, r.names.issued⟩
      | .more next =>
        if he : t.kind = .endOfFile then
          ⟨.error .stuck, tokens.reverse, after, r.names.issued⟩
        else
          have shorter : after.unread < c.unread := scan_token_unread_lt hs he
          run d next tokens after
termination_by c.unread
decreasing_by all_goals exact shorter

/-- Reads one sentence at a cursor. -/
def Run.at (d : Dialect) (issued : Nat) (c : Cursor) : Run :=
  (Reading.start issued).run d [] c

/-- Whether some tokens, taken before a syntax error, leave a part of the sentence to be passed
over. -/
def leavesRest (tokens : List Token) : Bool :=
  match tokens.reverse.find? (·.kind ≠ .comment) with
  | none => true
  | some t => t.kind ≠ .stop && t.kind ≠ .endOfFile

/-! ## Passing over a sentence -/

/-- Where passing over a sentence ends. -/
inductive Skipped where
  /-- After a full stop. -/
  | resumed (after : Cursor)
  /-- At the end of the input. -/
  | ended (after : Cursor)
  | failure (reason : Text) (stopped : Cursor)

/-- Passes over tokens up to a full stop. Where the text is no token, one character is passed over,
but quoted text or a comment without an end takes the rest of the input with it. -/
def skipSentence (flags : Flags) (c : Cursor) : Skipped :=
  match hs : scan flags c with
  | .failure reason stopped => .failure reason stopped
  | .fault _ start exhausted =>
    if exhausted then .ended start.toEnd
    else
      have : (start.advance 1).unread < c.unread :=
        Nat.lt_of_lt_of_le (Cursor.unread_advance_lt Nat.one_pos (scan_fault hs).1)
          (scan_fault hs).2
      skipSentence flags (start.advance 1)
  | .token t after =>
    if t.kind = .stop then .resumed after
    else if he : t.kind = .endOfFile then .ended after
    else
      have : after.unread < c.unread := scan_token_unread_lt hs he
      skipSentence flags after
termination_by c.unread

/-! ## All sentences -/

/-- A point in a text where a sentence can be read. -/
structure Reader where
  cursor : Cursor
  /-- Whether the rest of a malformed sentence is to be passed over first. -/
  resync : Bool
  /-- The number of the last variable. -/
  issued : Nat

namespace Reader

/-- A reader at the start of some lines. -/
def ofCursor (c : Cursor) (issued : Nat) : Reader :=
  ⟨c, false, issued⟩

/-- Reads a sentence at a cursor. -/
def readAt (d : Dialect) (issued : Nat) (c : Cursor) : Outcome × Reader :=
  let run := Run.at d issued c
  let resync :=
    match run.outcome with
    | .error (.malformed _) => leavesRest run.tokens
    | _ => false
  (run.outcome, ⟨run.cursor, resync, run.issued⟩)

/-- Reads the next sentence. -/
def next (d : Dialect) (r : Reader) : Outcome × Reader :=
  if r.resync then
    match skipSentence d.flags r.cursor with
    | .failure reason stopped => (.error (.failure reason), ⟨stopped, false, r.issued⟩)
    | .ended after => (.endOfInput, ⟨after, false, r.issued⟩)
    | .resumed after => readAt d r.issued after
  else readAt d r.issued r.cursor

/-- A bound on the number of sentences and syntax errors to come. -/
def measure (r : Reader) : Nat :=
  2 * r.cursor.unread + if r.resync then 0 else 1

end Reader

/-! ## Progress -/

theorem Reading.run_unread_le (d : Dialect) (r : Reading) (seen : List Token) (c : Cursor)
    (h : (r.run d seen c).outcome.Continues) : (r.run d seen c).cursor.unread ≤ c.unread := by
  fun_induction Reading.run d r seen c with
  | case1 => exact h.elim
  | case2 _ _ _ _ _ _ hs => exact (scan_fault hs).2
  | case3 _ _ _ _ _ _ _ _ shorter ih => exact Nat.le_trans (ih h) (Nat.le_of_lt shorter)
  | case4 _ _ _ _ _ hs => exact scan_token_unread_le hs
  | case5 => exact h.elim
  | case6 _ _ _ _ _ hs => exact scan_token_unread_le hs
  | case7 => exact h.elim
  | case8 => exact h.elim
  | case9 _ _ _ _ _ _ _ _ _ _ _ shorter ih => exact Nat.le_trans (ih h) (Nat.le_of_lt shorter)

theorem Reading.step_start_endOfFile (d : Dialect) (issued : Nat) {t : Token}
    (h : t.kind = .endOfFile) : (Reading.start issued).step d t = .endOfInput := by
  simp [step, settle, start, take, endsWith, terminal, enclosure?, isEmpty, takeOperand,
    unexpectedEnd, h]

/-- The first token of a sentence is not the end of the file, whatever comes of it. -/
theorem Reading.kind_ne_of_step_start {d : Dialect} {issued : Nat} {t : Token} {s : Step}
    (h : (Reading.start issued).step d t = s) (hs : s ≠ .endOfInput) : t.kind ≠ .endOfFile :=
  fun he => hs (h.symm.trans (step_start_endOfFile d issued he))

/-- Reading a sentence, be it malformed, moves the cursor on, unless the rest of it is still to be
passed over. -/
theorem Run.at_unread_lt (d : Dialect) (issued : Nat) (c : Cursor)
    (h : (Run.at d issued c).outcome.Continues) :
    (Run.at d issued c).cursor.unread < c.unread ∨
      (∃ e, (Run.at d issued c).outcome = .error (.malformed e)) ∧
        leavesRest (Run.at d issued c).tokens = true := by
  revert h
  unfold Run.at
  fun_cases Reading.run d (Reading.start issued) [] c with
  | case1 => exact False.elim
  | case2 => exact fun _ => .inr ⟨⟨_, rfl⟩, rfl⟩
  | case3 _ _ _ _ _ shorter =>
    exact fun h => .inl (Nat.lt_of_le_of_lt (Reading.run_unread_le _ _ _ _ h) shorter)
  | case4 _ _ hs _ _ _ _ step | case6 _ _ hs _ _ _ step =>
    have := Reading.kind_ne_of_step_start step nofun
    exact fun _ => .inl (scan_token_unread_lt hs this)
  | case5 => exact False.elim
  | case7 => exact False.elim
  | case8 => exact False.elim
  | case9 _ _ _ _ _ _ _ _ shorter =>
    exact fun h => .inl (Nat.lt_of_le_of_lt (Reading.run_unread_le _ _ _ _ h) shorter)

theorem skipSentence_unread_lt {flags : Flags} {c after : Cursor}
    (h : skipSentence flags c = .resumed after) : after.unread < c.unread := by
  fun_induction skipSentence flags c with
  | case1 | case2 | case5 => cases h
  | case3 _ _ _ _ _ _ shorter ih | case6 _ _ _ _ _ _ shorter ih =>
    exact Nat.lt_trans (ih h) shorter
  | case4 _ _ _ hs hk =>
    cases h
    exact scan_token_unread_lt hs (by simp [hk])

namespace Reader

theorem measure_le (r : Reader) : r.measure ≤ 2 * r.cursor.unread + 1 := by
  unfold measure
  split <;> omega

theorem readAt_measure_lt {d : Dialect} {issued : Nat} {c : Cursor}
    (h : (readAt d issued c).1.Continues) : (readAt d issued c).2.measure < 2 * c.unread + 1 := by
  have hle := Reading.run_unread_le d (Reading.start issued) [] c h
  rcases Run.at_unread_lt d issued c h with hlt | ⟨⟨e, he⟩, hrest⟩
  · have := (readAt d issued c).2.measure_le
    have : (readAt d issued c).2.cursor.unread < c.unread := hlt
    omega
  · simp only [readAt, measure, he, hrest, if_true]
    exact Nat.lt_succ_of_le (Nat.mul_le_mul_left 2 hle)

theorem next_measure_lt {d : Dialect} {r : Reader} (h : (r.next d).1.Continues) :
    (r.next d).2.measure < r.measure := by
  revert h
  unfold next
  split
  · split
    · exact False.elim
    · exact False.elim
    · next hr _ after hs =>
      intro h
      have := readAt_measure_lt h
      have := skipSentence_unread_lt hs
      simp only [measure, hr] at *
      omega
  · next hr =>
    intro h
    have := readAt_measure_lt h
    simpa [measure, hr] using this

theorem measure_lt_of_next {d : Dialect} {r after : Reader} {o : Outcome}
    (h : r.next d = (o, after)) (ho : o.Continues) : after.measure < r.measure := by
  simpa [h, ho] using r.next_measure_lt (d := d)

end Reader

end PrologText
