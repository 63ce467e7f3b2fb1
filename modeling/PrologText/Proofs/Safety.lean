import PrologText.Proofs.LineReaders

/-!
# Reading is safe

Wherever a text is read, the cursor stays within its line and does not fall behind the line where
the call set out, no lexeme goes beyond the end of a line, a functor has its parenthesis behind it,
and the stacks of the operators hold what is taken from them (`Reader.Call.Safe`). A call can also
be made on stacks and in a buffer of lines, where a stack can lack what is to be taken from it, a
byte or a line can be out of range, and a line that one goes back to can have been given up; and
nothing of that happens (`Reader.Call.SafeIn`). Main statement: consulting makes finitely many calls
of the reader, all of them safe, and comes to a result, whatever the bytes, the flags and the
operators (`Dialect.consult_safe`).
-/

namespace PrologText

/-- What can be relied on at a cursor ahead of `start`, where scanning set out. -/
structure Cursor.Safe (c : Cursor) (flags : Flags) (start : Cursor) : Prop where
  /-- The cursor is not past the end of its line. -/
  inLine : c.InLine
  /-- The line is none of those that have been passed. -/
  number_le : start.number ≤ c.number
  /-- A lexeme lies within the rest of the line. -/
  lexeme : ∀ g t, c.fill.rest = g :: t → (Lexeme.ofText g.code (g :: t)).Fits (g :: t).length
  /-- So does what is taken of quoted text, with its escape sequences. -/
  quoted : ∀ f seen, (QuotedForm.step f seen c.fill.rest).Fits c.fill.rest.length
  /-- So does the rest of a comment. -/
  comment : ∀ n, commentLengthFrom 0 c.rest = some n → n ≤ c.rest.length
  /-- When a lexeme is looked for by indices and slices of bytes, none is out of range, and the
  lexeme is found. -/
  lookup : ∀ g t, c.fill.rest = g :: t → Lexeme.opensComment (g :: t) = false →
    Bytes.lexeme? (Text.bytes (g :: t)) =
      some (Bytes.inBytes (g :: t) (Lexeme.ofText g.code (g :: t)))
  /-- Nor is one in quoted text, where pieces of it are found. -/
  quotedLookup : ∀ f g t, c.fill.rest = g :: t → f.quote.toNat < 0x80 → f.quote ≠ '\\' →
    ∃ piece, Bytes.quoted? f (Text.bytes (g :: t)) = some piece ∧ piece.Agrees f (g :: t)
  /-- A token leads on, and a functor is followed by its parenthesis. -/
  token : ∀ t after, scan flags c = .token t after → start.Leads after ∧
    (t.functional = true →
      ∃ u after', scan flags after = .token u after' ∧ u.kind = .opening .round)
  /-- Text that is no token starts at a cursor ahead and is not empty: going back to it does not go
  behind `start`, and there is a character to be passed over. -/
  fault : ∀ e at' exhausted, scan flags c = .fault e at' exhausted →
    start.Leads at' ∧ at'.rest ≠ [] ∧ start.Leads (at'.advance 1) ∧ start.Leads at'.toEnd

theorem Cursor.isJoined_fill_rest {c : Cursor} (h : Text.IsJoined c.remaining) :
    Text.IsJoined c.fill.rest := by
  rw [← c.remaining_fill, Cursor.remaining] at h
  exact h.of_append_left

theorem Cursor.Leads.isJoined {start c : Cursor} (h : start.Leads c)
    (hj : Text.IsJoined start.remaining) : Text.IsJoined c.remaining := by
  rw [h.remaining_eq] at hj
  exact hj.of_append_right

theorem Cursor.Leads.safe {start c : Cursor} (flags : Flags) (h : start.Leads c)
    (hstart : start.InLine) (hj : Text.IsJoined start.remaining) : c.Safe flags start where
  inLine := h.inLine hstart
  number_le := h.number_le
  lexeme g t _ := Lexeme.ofText_fits g.code (List.cons_ne_nil g t)
  quoted f seen := f.step_fits seen _
  comment n hn := by simpa using commentLengthFrom_le hn
  lookup g t hr hopens :=
    Bytes.lexeme?_bytes (hr ▸ Cursor.isJoined_fill_rest (h.isJoined hj)) hopens
  quotedLookup f g t hr hq hslash :=
    Bytes.quoted?_bytes hq hslash (hr ▸ Cursor.isJoined_fill_rest (h.isJoined hj))
  token t after hs := ⟨h.trans (leads_of_scan_token hs), opening_of_functional hs⟩
  fault e at' exhausted hs := by
    have hat := h.trans (leads_of_scan_fault hs)
    have hrest := (scan_fault hs).1
    exact ⟨hat, hrest, hat.trans (leads_advance (List.length_pos_iff.2 hrest)),
      hat.trans (leads_toEnd at')⟩

/-- What can be relied on in a call of a reader. The rest of a malformed sentence ends ahead of
where the call set out, and a sentence ahead of its own start. Every cursor ahead is safe, wherever
the lines before have been given up. On the tokens from any of them on, reading with stacks is not
stuck and comes to what the reader comes to. -/
structure Reader.Call.Safe (call : Call) : Prop where
  skip : ∀ start, skipSentence call.dialect.flags call.reader.cursor = .resumed start →
    call.reader.cursor.Leads start
  run : ∀ start : Cursor, start.Leads (Run.at call.dialect call.reader.issued start).cursor
  cursor : ∀ start c, call.reader.cursor.Leads start → start.Leads c →
    c.Safe call.dialect.flags start
  operators : ∀ start ts c issued, call.reader.cursor.Leads start →
    Scans call.dialect.flags start ts c →
    (StackReading.start issued).feed call.dialect ts ≠ .stuck ∧
      (StackReading.start issued).feed call.dialect ts =
        ((Reading.start issued).feed call.dialect ts).stacked

theorem Reader.Calls.safe {d : Dialect} {r : Reader} {calls : List Call} (h : Calls d r calls)
    (hr : r.cursor.InLine) (hj : Text.IsJoined r.cursor.remaining) {call : Call}
    (hc : call ∈ calls) : call.Safe where
  skip start hskip := by
    have := skipSentence_ahead call.dialect.flags call.reader.cursor
    rwa [hskip] at this
  run _ := Reading.run_leads ..
  cursor _ _ hstart hlead :=
    have hahead := (h.leads hc).trans hstart
    hlead.safe call.dialect.flags (hahead.inLine hr) (hahead.isJoined hj)
  operators _ ts _ issued _ hs :=
    ⟨StackReading.feed_ne_stuck issued hs, Reading.feed_stacked call.dialect (.start issued) ts⟩

/-- A call is made on stacks and in a buffer of lines, after the same calls as before. The buffer
gives up the lines before the place where the call sets out. Nothing fails, and the buffer holds the
point where a malformed part starts. -/
def Reader.Call.SafeIn (call : Call) (bytes : List UInt8) : Prop :=
  ∃ s run, LineReader.ReachedBeside bytes s call.reader ∧ s.next? call.dialect = some run ∧
    run.outcome = (call.reader.next call.dialect).1 ∧
    ∀ e, run.outcome = .error (.malformed e) →
      ∃ m, run.buffer.Keeps (Bytes.lines bytes) m e.place

theorem LineReader.ReachedBeside.safeIn {bytes : List UInt8} {s : LineReader} {r : Reader}
    (h : s.ReachedBeside bytes r) (d : Dialect) : Reader.Call.SafeIn ⟨d, r⟩ bytes := by
  obtain ⟨run, hrun, houtcome, -, b, start, hbeside, -⟩ := h.next? d
  exact ⟨s, run, h, hrun, houtcome, fun e he => hbeside.exists_keeps_malformed he⟩

theorem Reader.Calls.safeIn {d : Dialect} {r : Reader} {calls : List Call} (h : Calls d r calls)
    {bytes : List UInt8} {s : LineReader} (hs : s.ReachedBeside bytes r) {call : Call}
    (hc : call ∈ calls) : call.SafeIn bytes := by
  induction h generalizing s with
  | @last d =>
    cases List.mem_singleton.1 hc
    exact hs.safeIn d
  | @sentence d _ _ _ _ _ ih | @malformed d _ _ _ _ _ ih =>
    rcases List.mem_cons.1 hc with rfl | hc
    · exact hs.safeIn d
    · obtain ⟨run, -, -, hnext, -⟩ := hs.next? d
      exact ih hnext hc

/-- Consulting a text of any bytes, in any dialect, makes finitely many calls of the reader and
comes to a result. All the calls are safe. With stacks in the place of readings, and a buffer of
lines in the place of the text, no look-up, no slice, no going back and no stack fails, and it comes
to the same. -/
theorem Dialect.consult_safe (d : Dialect) (issued : Nat) (bytes : List UInt8) :
    let start := Cursor.ofText (.ofBytes bytes)
    ∃ calls result, Reader.Calls d (.ofCursor start issued) calls ∧
      calls.length ≤ 2 * start.unread + 2 ∧ (d.consult issued start).result = .ok result ∧
      (LineReader.ofBytes bytes issued).consult? d .empty = some (d.consult issued start) ∧
      ∀ call ∈ calls, call.Safe ∧ call.SafeIn bytes := by
  intro start
  obtain ⟨calls, result, hcalls, hlength, hresult⟩ :=
    Reader.exists_calls d (.ofCursor start issued) .empty (Cursor.ending_ofText _)
  refine ⟨calls, result, hcalls, hlength, hresult, LineReader.consult?_eq d issued bytes,
    fun call hc => ?_⟩
  have hjoined : Text.IsJoined start.remaining := by
    rw [Cursor.remaining_ofText]
    exact Text.isJoined_ofBytes bytes
  exact ⟨hcalls.safe (Cursor.inLine_ofText _) hjoined hc, hcalls.safeIn (.start issued) hc⟩

end PrologText
