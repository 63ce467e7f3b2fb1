import PrologText.Proofs.LineScans
import PrologText.Proofs.Simulation
import PrologText.Proofs.Unterminated

/-!
# Reading a buffer of lines

A sentence is read on stacks, token by token, in a buffer of lines. Before it is read the lines that
lie behind are given up, and an error at a token is reported with the line where the token starts.
Getting stuck, a look-up of a line that is not held and going back to one that was given up all make
the reading fail here. Main statements: it never fails, and what is read is what the reader reads
that has all of the lines (`LineReader.Tracks.next?`, `LineReader.consult?_eq`).
-/

namespace PrologText

/-- The course of reading one sentence in a buffer. -/
structure LineRun where
  outcome : Outcome
  /-- The tokens that were taken and the points where they start, last first. -/
  seen : List (Token × Mark)
  buffer : LineBuffer
  /-- The number of the last variable. -/
  issued : Nat

/-- A point in a buffer where a sentence can be read. -/
structure LineReader where
  buffer : LineBuffer
  /-- Whether the rest of a malformed sentence is to be passed over first. -/
  resync : Bool
  /-- The number of the last variable. -/
  issued : Nat

/-- An error at one of the tokens that were taken, with the text of the line where it starts. -/
def SyntaxError.located? (e : SyntaxError) (seen : List (Token × Mark)) (b : LineBuffer) :
    Option SyntaxError := do
  let (_, begins) ← seen.find? fun x => x.1.place = e.place
  some { e with place := { e.place with text := .ofBytes (b.lineText begins) } }

/-- The run that ends with a step on stacks, unless that is stuck. -/
def LineRun.conclude? (issued : Nat) (seen : List (Token × Mark)) (b : LineBuffer) :
    StackStep → Option LineRun
  | .done term names =>
    some ⟨.sentence (.ofTokens term names (seen.map Prod.fst).reverse), seen, b, names.issued⟩
  | .endOfInput => some ⟨.endOfInput, seen, b, issued⟩
  | .fault e => (e.located? seen b).map fun e => ⟨.error (.malformed e), seen, b, issued⟩
  | .stuck | .more _ => none

/-- Goes on with a reading in a buffer. -/
def StackReading.run? (d : Dialect) (r : StackReading) (seen : List (Token × Mark))
    (b : LineBuffer) : Option LineRun := do
  match ← b.scan? d.flags with
  | .fault e start _ => some ⟨.error (.malformed e), seen, start, r.names.issued⟩
  | .token t begins after =>
    let tokens := (t, begins) :: seen
    if t.kind = .comment then
      if after.left < b.left then r.run? d tokens after else none
    else
      match r.step d t with
      | .more next => if after.left < b.left then next.run? d tokens after else none
      | step => LineRun.conclude? r.names.issued tokens after step
termination_by b.left

/-- Passes over tokens up to a full stop or the end of the input. -/
def LineBuffer.skipSentence? (flags : Flags) (b : LineBuffer) : Option LineBuffer := do
  match ← b.scan? flags with
  | .fault _ start exhausted =>
    let after ← if exhausted then start.skipAll? else start.skipGlyph?
    if after.left < b.left then after.skipSentence? flags else none
  | .token t _ after =>
    if t.kind = .stop ∨ t.kind = .endOfFile then some after
    else if after.left < b.left then after.skipSentence? flags
    else none
termination_by b.left

/-- The reader behind a sentence. -/
def LineRun.reader (run : LineRun) : LineReader where
  buffer := run.buffer
  resync :=
    match run.outcome with
    | .error (.malformed _) => leavesRest (run.seen.map Prod.fst).reverse
    | _ => false
  issued := run.issued

namespace LineReader

/-- The buffer where the next sentence is read: behind the rest of a malformed one. -/
def start? (flags : Flags) (r : LineReader) : Option LineBuffer :=
  if r.resync then r.buffer.skipSentence? flags else some r.buffer

/-- Reads the next sentence, with the lines before it given up. -/
def next? (d : Dialect) (r : LineReader) : Option LineRun := do
  let b ← r.start? d.flags
  (StackReading.start r.issued).run? d [] b.release

/-- A bound on the number of sentences and syntax errors to come. -/
def measure (r : LineReader) : Nat :=
  2 * r.buffer.left + if r.resync then 0 else 1

/-- Consults what a reader still has before it; `done` is what came before, last first. -/
def consult? (d : Dialect) (done : Consultation) (r : LineReader) : Option Consulted := do
  let run ← r.next? d
  match run.outcome with
  | .endOfInput => some ⟨d, run.issued, .ok done.reverse⟩
  | .sentence s =>
    let x := d.apply s
    if run.reader.measure < r.measure then run.reader.consult? x.dialect (done.addSentence s x)
    else none
  | .error (.malformed e) =>
    if run.reader.measure < r.measure then run.reader.consult? d (done.addError e) else none
  | .error e => some ⟨d, run.issued, .error e⟩
termination_by r.measure

end LineReader

/-! ## Tokens leave less to be read -/

theorem exists_fits_of_scan {flags : Flags} {c after : Cursor} {t : Token} (hc : c.Lined)
    (h : scan flags c = .token t after) :
    ∃ start, c.Leads start ∧ start.Leads after ∧ t.Fits (start.upTo after) after.remaining := by
  obtain ⟨start, hstart, -, hcuts⟩ := scanFrom_cuts flags false c hc
  rw [show scanFrom flags false c = _ from h] at hcuts
  exact ⟨start, hstart, hcuts.1, hcuts.2.2.2⟩

theorem upTo_ne_nil_of_scan {flags : Flags} {c after : Cursor} {t : Token} (hc : c.Lined)
    (h : scan flags c = .token t after) (hk : t.kind ≠ .endOfFile) : c.upTo after ≠ [] := by
  obtain ⟨start, hstart, hafter, hfits⟩ := exists_fits_of_scan hc h
  rw [hstart.upTo_trans hafter]
  exact fun hnil => hk (hfits.span_eq_nil.1 (List.append_eq_nil_iff.1 hnil).2)

namespace LineBuffer

variable {lines : List (List UInt8)} {b d : LineBuffer} {c c' : Cursor} {flags : Flags}

theorem Tracks.left_lt (h : b.Tracks lines c) (h' : d.Tracks lines c') (hc : c.Leads c')
    (hne : c.upTo c' ≠ []) : d.left < b.left := by
  have hpos : 0 < (Text.bytes (c.upTo c')).length :=
    List.length_pos_iff.2 (mt Text.bytes_eq_nil_iff.1 hne)
  rw [h.left_eq, h'.left_eq, hc.remaining_eq, Text.bytes_append, List.length_append]
  omega

theorem Tracks.release (h : b.Tracks lines c) : b.release.Tracks lines c :=
  ⟨h.of.release.1, h.inside, by rw [h.of.release.2, h.filled]⟩

/-! ## Passing over a sentence -/

theorem toEndOf_skipEmpty {later : List Text} (hr : c.rest = []) (hl : c.later = later) :
    (c.skipEmpty later).toEnd = c.toEndOf later := by
  induction later generalizing c with
  | nil => rw [Cursor.skipEmpty, Cursor.toEnd, hl]
  | cons line later ih =>
    simp only [Cursor.skipEmpty, Cursor.toEndOf]
    split
    · next hline => exact ih (by simpa [Cursor.atLine] using hline) rfl
    · rfl

theorem toEnd_fill (c : Cursor) : c.fill.toEnd = c.toEnd := by
  unfold Cursor.fill
  split
  · next hr => exact toEndOf_skipEmpty (by simpa using hr) rfl
  · rfl

theorem toEnd_toLineEnd (c : Cursor) : c.toLineEnd.toEnd = c.toEnd := by
  show c.toLineEnd.toEndOf c.later = c.toEndOf c.later
  cases c.later with
  | nil => simp [Cursor.toEndOf, Cursor.toLineEnd, Cursor.advance]
  | cons line later => rfl

theorem toLineEnd_of_rest_nil (h : c.rest = []) : c.toLineEnd = c := by
  obtain ⟨number, whole, column, rest, later, ending, hrest⟩ := c
  obtain rfl : rest = [] := h
  rfl

theorem toEnd_of_fill_nil (h : c.fill.rest = []) : c.toEnd = c.fill := by
  rw [← toEnd_fill, Cursor.toEnd, Cursor.later_fill h, Cursor.toEndOf, toLineEnd_of_rest_nil h]

/-- All that is left is passed over line by line. -/
theorem Tracks.skipAll? (h : b.Tracks lines c) :
    ∃ d, b.skipAll? = some d ∧ d.Tracks lines c.toEnd ∧ b.Grows d := by
  induction hn : b.left using Nat.strongRecOn generalizing b c with
  | _ n ih =>
    subst hn
    obtain ⟨d, hfill, hstands, hgrows⟩ := h.fill?
    rw [LineBuffer.skipAll?, hfill]
    by_cases hr : c.fill.rest = []
    · refine ⟨d, by simp [hr], ?_, hgrows⟩
      rw [toEnd_of_fill_nil hr]
      exact hstands.tracks
    · have hlt := h.left_advance_lt hstands (List.length_pos_iff.2 hr) (Nat.le_refl _)
      obtain ⟨d', hskip, htracks, hgrows'⟩ :=
        ih _ hlt (hstands.advance (Nat.le_refl _)).tracks rfl
      refine ⟨d', ?_, ?_, hgrows.trans hgrows'⟩
      · simp only [hr, ne_eq, not_false_eq_true, decide_true, hstands.rest?_eq, ← Text.width_length,
          if_pos hlt, hskip]
      · rw [← toEnd_fill, ← toEnd_toLineEnd]
        exact htracks

theorem Stands.skipGlyph? (h : b.Stands lines c) (hr : c.rest ≠ []) :
    ∃ d, b.skipGlyph? = some d ∧ d.Tracks lines (c.advance 1) ∧ b.Grows d := by
  obtain ⟨g, t, hcons⟩ := List.exists_cons_of_ne_nil hr
  have hc : c.fill = c := Cursor.fill_of_rest hcons
  obtain ⟨d, hfill, hstands, hgrows⟩ := h.tracks.fill?
  rw [hc] at hfill hstands
  have hjoined := hstands.inside.isJoined_rest
  have hadvance := hstands.advance (k := 1) (List.length_pos_iff.2 hr)
  rw [hcons] at hjoined
  have hsize : (Bytes.rune (Text.bytes c.rest)).2 = c.rest.width 1 := by
    rw [hcons, Bytes.rune_bytes hjoined, Text.width_cons_succ]
    simp
  refine ⟨_, ?_, hadvance.tracks, hgrows⟩
  rw [LineBuffer.skipGlyph?, hfill]
  simp only [Option.bind_eq_bind, Option.bind_some, hr, ne_eq, not_false_eq_true, decide_true,
    if_true, hstands.rest?_eq, hsize]

/-- Text that is no token is passed over, up to the end of the input or by one character. -/
theorem Stands.skipFault? (h : b.Stands lines c) (hr : c.rest ≠ []) (exhausted : Bool) :
    ∃ d, (if exhausted then b.skipAll? else b.skipGlyph?) = some d ∧
      d.Tracks lines (if exhausted then c.toEnd else c.advance 1) ∧ d.left < b.left := by
  cases exhausted with
  | true =>
    obtain ⟨d, hskip, htracks, -⟩ := h.tracks.skipAll?
    refine ⟨d, hskip, htracks, h.tracks.left_lt htracks c.leads_toEnd fun hupTo => hr ?_⟩
    have hall := c.leads_toEnd.remaining_eq
    rw [hupTo, c.remaining_toEnd] at hall
    exact (List.append_eq_nil_iff.1 hall).1
  | false =>
    obtain ⟨d, hskip, htracks, -⟩ := h.skipGlyph? hr
    refine ⟨d, hskip, htracks, h.tracks.left_lt htracks
      (Cursor.leads_advance (List.length_pos_iff.2 hr)) ?_⟩
    rw [Cursor.upTo_advance]
    simpa using hr

/-- Where passing over a sentence ends, in a buffer as for a cursor. -/
inductive SkipsTo (lines : List (List UInt8)) (d : LineBuffer) : Skipped → Prop where
  | resumed {after : Cursor} (h : d.Tracks lines after) : SkipsTo lines d (.resumed after)
  | ended {after : Cursor} (h : d.Tracks lines after) (hnil : after.remaining = []) :
      SkipsTo lines d (.ended after)

theorem Tracks.skipSentence?_of_remaining_nil (h : b.Tracks lines c)
    (hj : Text.IsJoined (lines.map Text.ofBytes).flatten) (hnil : c.remaining = [])
    (flags : Flags) : ∃ d, b.skipSentence? flags = some d ∧ d.Tracks lines c := by
  obtain ⟨s, hs, hmatches⟩ := h.scanFrom? hj flags false
  obtain ⟨t, ht, hscan⟩ := scan_of_remaining_nil flags hnil h.inside.ending
  rw [← scan, hscan] at hmatches
  cases hmatches with
  | @token _ _ _ d _ _ _ htracks =>
    refine ⟨d, ?_, htracks.of_fill h.inside⟩
    rw [LineBuffer.skipSentence?, scan?, hs]
    simp [ht]

theorem Tracks.skipSentence? (h : b.Tracks lines c)
    (hj : Text.IsJoined (lines.map Text.ofBytes).flatten) (hl : c.Lined) (flags : Flags) :
    ∃ d, b.skipSentence? flags = some d ∧ d.SkipsTo lines (skipSentence flags c) := by
  induction hn : b.left using Nat.strongRecOn generalizing b c with
  | _ n ih =>
    subst hn
    obtain ⟨s, hs, hmatches⟩ := h.scanFrom? hj flags false
    rw [← scan] at hmatches
    rw [LineBuffer.skipSentence?, scan?, hs, skipSentence_eq]
    cases hscan : scan flags c with
    | failure reason stopped =>
      rw [hscan] at hmatches
      cases hmatches
    | fault e start exhausted =>
      rw [hscan] at hmatches
      have hleads := leads_of_scan_fault hscan
      have hrest := (scan_fault hscan).1
      cases hmatches with
      | fault hplace hstands hgrows =>
        obtain ⟨d, hskip, htracks, hlt⟩ := hstands.skipFault? hrest exhausted
        have hlt := Nat.lt_of_lt_of_le hlt (h.left_le hstands.tracks hleads)
        cases exhausted with
        | true =>
          have hnil := start.remaining_toEnd
          obtain ⟨d', hskip', htracks'⟩ := htracks.skipSentence?_of_remaining_nil hj hnil flags
          rw [if_pos rfl] at hskip
          exact ⟨d', by simp [hskip, hlt, hskip'], .ended htracks' hnil⟩
        | false =>
          have hone := hleads.trans (Cursor.leads_advance (List.length_pos_iff.2 hrest))
          obtain ⟨d', hskip', hto⟩ := ih _ hlt htracks (hone.lined hl) rfl
          rw [if_neg Bool.false_ne_true] at hskip
          exact ⟨d', by simp [hskip, hlt, hskip'], hto⟩
    | token t after =>
      rw [hscan] at hmatches
      have hleads := leads_of_scan_token hscan
      cases hmatches with
      | @token _ _ _ d hstart hplace hhas htracks hasked hgrows =>
        by_cases hstop : t.kind = .stop
        · refine ⟨d, by simp [hstop], ?_⟩
          simp only [hstop, if_true]
          exact .resumed htracks
        by_cases hend : t.kind = .endOfFile
        · refine ⟨d, by simp [hend], ?_⟩
          simp only [hend, reduceCtorEq, if_false, if_true]
          obtain ⟨start, -, -, hfits⟩ := exists_fits_of_scan hl hscan
          exact .ended htracks (hfits.last hend)
        have hlt := h.left_lt htracks hleads (upTo_ne_nil_of_scan hl hscan hend)
        obtain ⟨d', hskip', hto⟩ := ih _ hlt htracks (hleads.lined hl) rfl
        refine ⟨d', ?_, ?_⟩
        · simp [hstop, hend, hlt, hskip']
        · simpa only [hstop, hend, if_false] using hto

end LineBuffer

/-! ## Reading one sentence -/

/-- Tokens with the points where they start, which a buffer holds, and the tokens a cursor comes
to. -/
inductive Carries (lines : List (List UInt8)) (b : LineBuffer) :
    List (Token × Mark) → List Token → Prop where
  | nil : Carries lines b [] []
  | cons {t : Token} {start : Cursor} {seen : List (Token × Mark)} {ts : List Token}
      (hstart : start.In lines) (hplace : t.place = start.place) (hhas : b.Has start.mark)
      (h : Carries lines b seen ts) :
      Carries lines b ((t.shifted .unlined, start.mark) :: seen) (t :: ts)

namespace Carries

variable {lines : List (List UInt8)} {b b' : LineBuffer} {seen : List (Token × Mark)}
  {ts : List Token}

theorem grows (h : Carries lines b seen ts) (hg : b.Grows b') : Carries lines b' seen ts := by
  induction h with
  | nil => exact .nil
  | cons hstart hplace hhas _ ih => exact .cons hstart hplace (hhas.grows hg) ih

theorem map_fst (h : Carries lines b seen ts) :
    seen.map Prod.fst = ts.map (.shifted .unlined) := by
  induction h with
  | nil => rfl
  | cons _ _ _ _ ih => rw [List.map_cons, List.map_cons, ih]

theorem exists_of_mem (h : Carries lines b seen ts) {t : Token} (ht : t ∈ ts) :
    ∃ start : Cursor, start.In lines ∧ t.place = start.place ∧ b.Has start.mark ∧
      (t.shifted .unlined, start.mark) ∈ seen := by
  induction h with
  | nil => cases ht
  | @cons u start _ _ hstart hplace hhas _ ih =>
    rcases List.mem_cons.1 ht with rfl | ht
    · exact ⟨start, hstart, hplace, hhas, List.mem_cons_self⟩
    · obtain ⟨start, hstart, hplace, hhas, hmem⟩ := ih ht
      exact ⟨start, hstart, hplace, hhas, List.mem_cons_of_mem _ hmem⟩

theorem exists_of_mem_seen (h : Carries lines b seen ts) {x : Token × Mark} (hx : x ∈ seen) :
    ∃ start : Cursor, start.In lines ∧ x.2 = start.mark ∧ b.Has start.mark ∧
      x.1.place = start.place.unlined := by
  induction h with
  | nil => cases hx
  | @cons u start _ _ hstart hplace hhas _ ih =>
    rcases List.mem_cons.1 hx with rfl | hx
    · exact ⟨start, hstart, rfl, hhas, congrArg Place.unlined hplace⟩
    · exact ih hx

end Carries

/-- The text of a line is told by its number. -/
theorem Cursor.In.place_eq {lines : List (List UInt8)} {c d : Cursor} (hc : c.In lines)
    (hd : d.In lines) (h : c.place.unlined = d.place.unlined) : c.place = d.place := by
  have hline : c.place.unlined.line = d.place.unlined.line := by rw [h]
  have hcolumn : c.place.unlined.column = d.place.unlined.column := by rw [h]
  have hnumber : c.number = d.number := Nat.succ.inj hline
  have htext : c.place.text = d.place.text := by
    show c.whole = d.whole
    rw [hc.whole, hd.whole, hnumber]
  show Place.mk c.place.unlined.line c.place.unlined.column c.place.text = _
  rw [hline, hcolumn, htext]
  rfl

/-- An error at a token is found with the line of the token. -/
theorem SyntaxError.located?_eq {lines : List (List UInt8)} {b : LineBuffer}
    {seen : List (Token × Mark)} {ts : List Token} {e e' : SyntaxError}
    (h : Carries lines b seen ts) (hb : b.Of lines) (hasked : b.held = [] → b.pending = [])
    (he : e.place ∈ ts.map (·.place)) (he' : e'.place ∈ (seen.map Prod.fst).map (·.place))
    (heq : e'.moved .unlined = e.moved .unlined) : e'.located? seen b = some e := by
  obtain ⟨t, ht, hplace⟩ := List.mem_map.1 he
  obtain ⟨start, hstart, hat, -, -⟩ := h.exists_of_mem ht
  obtain ⟨x, hx, hplace'⟩ : ∃ x, seen.find? (fun x => x.1.place = e'.place) = some x ∧
      x.1.place = e'.place := by
    rw [List.map_map] at he'
    obtain ⟨y, hy, hyplace⟩ := List.mem_map.1 he'
    have hsome : (seen.find? fun x => x.1.place = e'.place).isSome :=
      List.find?_isSome.2 ⟨y, hy, by simpa using hyplace⟩
    obtain ⟨x, hx⟩ := Option.isSome_iff_exists.1 hsome
    exact ⟨x, hx, by simpa using List.find?_some hx⟩
  obtain ⟨first, hfirst, hmark, hhas, hxplace⟩ :=
    h.exists_of_mem_seen (List.mem_of_find?_eq_some hx)
  have hunlined : e'.place = e.place.unlined := by
    have hpair : e'.place.unlined = e.place.unlined := congrArg SyntaxError.place heq
    rw [← hplace', hxplace] at hpair ⊢
    exact hpair
  have hsame : first.place = e.place := by
    rw [← hplace, hat]
    refine hfirst.place_eq hstart ?_
    rw [← hxplace, hplace', hunlined, ← hplace, hat]
  have htext := hb.lineText_mark hfirst hhas hasked
  rw [located?, hx]
  simp only [Option.bind_eq_bind, Option.bind_some, hmark, htext, hsame, hunlined]
  obtain ⟨cause, place, consumed⟩ := e
  obtain ⟨cause', place', consumed'⟩ := e'
  have hcause : cause' = cause := congrArg SyntaxError.cause heq
  have hconsumed : consumed' = consumed := congrArg SyntaxError.consumed heq
  rw [hcause, hconsumed]
  rfl

/-- Reading a sentence in a buffer comes to what reading it at a cursor comes to. The buffer has
given up no line, and it holds the points where the tokens and a malformed part start. -/
structure LineRun.Beside (lines : List (List UInt8)) (b : LineBuffer) (run : LineRun) (r : Run) :
    Prop where
  outcome : run.outcome = r.outcome
  carries : Carries lines run.buffer run.seen r.tokens.reverse
  tracks : run.buffer.Tracks lines r.cursor
  issued : run.issued = r.issued
  grows : b.Grows run.buffer
  asked : run.buffer.held = [] → run.buffer.pending = []
  malformed : ∀ e, r.outcome = .error (.malformed e) →
    ∃ start : Cursor, start.In lines ∧ e.place = start.place ∧ run.buffer.Has start.mark

theorem LineRun.Beside.behind {lines : List (List UInt8)} {b b' : LineBuffer} {run : LineRun}
    {r : Run} (h : run.Beside lines b' r) (hg : b.Grows b') : run.Beside lines b r :=
  { h with grows := hg.trans h.grows }

section

variable {lines : List (List UInt8)} {b : LineBuffer} {run : LineRun} {r : Run}

theorem LineRun.Beside.exists_keeps (h : run.Beside lines b r) {t : Token} (ht : t ∈ r.tokens) :
    ∃ m, (t.shifted .unlined, m) ∈ run.seen ∧ run.buffer.Keeps lines m t.place := by
  obtain ⟨start, hstart, hplace, hhas, hmem⟩ := h.carries.exists_of_mem (List.mem_reverse.2 ht)
  exact ⟨start.mark, hmem, hplace ▸ h.tracks.of.keeps hstart hhas h.asked⟩

theorem LineRun.Beside.exists_keeps_malformed (h : run.Beside lines b r) {e : SyntaxError}
    (he : run.outcome = .error (.malformed e)) : ∃ m, run.buffer.Keeps lines m e.place := by
  obtain ⟨start, hstart, hplace, hhas⟩ := h.malformed e (h.outcome ▸ he)
  exact ⟨start.mark, hplace ▸ h.tracks.of.keeps hstart hhas h.asked⟩

end

section

variable {lines : List (List UInt8)} {d : Dialect} {r r' : Reading} {b after' : LineBuffer}
  {c after : Cursor} {t : Token} {seen : List Token} {seen' : List (Token × Mark)} {issued : Nat}

theorem Sentence.ofTokens_shifted (term : Term) (names : Bindings) (ts : List Token) :
    ofTokens term names (ts.map (.shifted .unlined)) = ofTokens term names ts := by
  simp only [ofTokens, List.filter_map, List.find?_map, List.map_map, Option.map_map,
    Function.comp_def]
  rfl

/-- The last step of a sentence, on stacks and without the texts of lines. -/
theorem LineRun.conclude?_beside {s s' : Step} (hs : s'.moved .unlined = s.moved .unlined)
    (hover : ∀ next, s ≠ .more next) (hstuck : s ≠ .stuck)
    (hnames : issued = r.names.issued)
    (he : ∀ e, s = .fault e → e.place ∈ seen.map (·.place))
    (he' : ∀ e, s' = .fault e → e.place ∈ (seen'.map Prod.fst).map (·.place))
    (hcarries : Carries lines after' seen' seen) (htracks : after'.Tracks lines after)
    (hgrows : b.Grows after') (hasked : after'.held = [] → after'.pending = []) :
    ∃ run, conclude? issued seen' after' s'.stacked = some run ∧
      run.Beside lines b (.conclude r seen.reverse after s) := by
  have hcarries' : Carries lines after' seen' seen.reverse.reverse := by
    rwa [List.reverse_reverse]
  cases s with
  | more next => exact absurd rfl (hover next)
  | stuck => exact absurd rfl hstuck
  | done term names =>
    obtain rfl : s' = .done term names := by cases s' <;> simp_all [Step.moved]
    refine ⟨_, rfl, ?_, hcarries', htracks, rfl, hgrows, hasked, fun e he => by cases he⟩
    simp only [Run.conclude, hcarries.map_fst, ← List.map_reverse, Sentence.ofTokens_shifted]
  | endOfInput =>
    obtain rfl : s' = .endOfInput := by cases s' <;> simp_all [Step.moved]
    exact ⟨_, rfl, rfl, hcarries', htracks, hnames, hgrows, hasked, fun e he => by cases he⟩
  | fault e =>
    obtain ⟨e', rfl, heq⟩ : ∃ e', s' = .fault e' ∧ e'.moved .unlined = e.moved .unlined := by
      cases s' <;> simp_all [Step.moved]
    have hlocated := SyntaxError.located?_eq hcarries htracks.of hasked (he e rfl) (he' e' rfl) heq
    refine ⟨_, by rw [Step.stacked, conclude?, hlocated]; rfl, rfl, hcarries', htracks, hnames,
      hgrows, hasked, ?_⟩
    intro e₁ he₁
    cases he₁
    obtain ⟨t, ht, hplace⟩ := List.mem_map.1 (he e rfl)
    obtain ⟨start, hstart, hat, hhas, -⟩ := hcarries.exists_of_mem ht
    exact ⟨start, hstart, hplace ▸ hat, hhas⟩

theorem Reading.Takes.comment_last (h : r.Takes d seen r') (hk : t.kind = .comment) :
    r.Takes d (seen ++ [t]) r' := by
  induction h with
  | nil => exact .comment hk .nil
  | comment hk' _ ih => exact .comment hk' ih
  | more hk' hnext _ ih => exact .more hk' hnext ih

theorem Reading.Takes.more_last {last next : Reading} (h : r.Takes d seen last)
    (hk : t.kind ≠ .comment) (hnext : last.step d t = .more next) :
    r.Takes d (seen ++ [t]) next := by
  induction h with
  | nil => exact .more hk hnext .nil
  | comment hk' _ ih => exact .comment hk' (ih hnext)
  | more hk' hnext' _ ih => exact .more hk' hnext' (ih hnext)

/-- A sentence has been read so far on stacks in the buffer `b`, where tokens are without the text
of their line, and at the cursor `c`. -/
structure InStep (lines : List (List UInt8)) (d : Dialect) (issued : Nat) (b : LineBuffer)
    (seen' : List (Token × Mark)) (r' : Reading) (c : Cursor) (seen : List Token) (r : Reading) :
    Prop where
  tracks : b.Tracks lines c
  lined : c.Lined
  fits : r.Fits d.flags c
  moved : r'.moved .unlined = r.moved .unlined
  carries : Carries lines b seen' seen
  takes : (Reading.start issued).Takes d seen.reverse r
  takes' : (Reading.start issued).Takes d (seen'.map Prod.fst).reverse r'

namespace InStep

variable {t' : Token} {m : Mark} {start' : LineBuffer} {e e' : SyntaxError} {exhausted x : Bool}
  {next : Reading}

theorem names_eq (h : InStep lines d issued b seen' r' c seen r) : r'.names = r.names :=
  (congrArg Reading.names h.moved : (r'.moved _).names = (r.moved _).names)

theorem carries_cons (h : InStep lines d issued b seen' r' c seen r)
    (hs : LineScan.Matches lines b (.token t' m after') (.token t after)) :
    Carries lines after' ((t', m) :: seen') (t :: seen) := by
  cases hs with
  | token hstart hplace hhas _ _ hgrows => exact .cons hstart hplace hhas (h.carries.grows hgrows)

theorem left_lt (h : InStep lines d issued b seen' r' c seen r)
    (hscan : scan d.flags c = .token t after)
    (hs : LineScan.Matches lines b (.token t' m after') (.token t after))
    (hk : t.kind ≠ .endOfFile) : after'.left < b.left := by
  cases hs with
  | token _ _ _ htracks =>
    exact h.tracks.left_lt htracks (leads_of_scan_token hscan)
      (upTo_ne_nil_of_scan h.lined hscan hk)

theorem comment (h : InStep lines d issued b seen' r' c seen r)
    (hscan : scan d.flags c = .token t after)
    (hs : LineScan.Matches lines b (.token t' m after') (.token t after))
    (hk : t.kind = .comment) :
    InStep lines d issued after' ((t', m) :: seen') r' after (t :: seen) r := by
  have hcarries := h.carries_cons hs
  cases hs with
  | token _ _ _ htracks =>
    refine ⟨htracks, (leads_of_scan_token hscan).lined h.lined, h.fits.comment hscan hk, h.moved,
      hcarries, ?_, ?_⟩
    · rw [List.reverse_cons]
      exact h.takes.comment_last hk
    · rw [List.map_cons, List.reverse_cons]
      exact h.takes'.comment_last hk

theorem more (h : InStep lines d issued b seen' r' c seen r)
    (hscan : scan d.flags c = .token t after)
    (hs : LineScan.Matches lines b (.token t' m after') (.token t after))
    (hk : t.kind ≠ .comment) (hnext : r.step d t = .more next) :
    ∃ next', r'.step d t' = .more next' ∧
      InStep lines d issued after' ((t', m) :: seen') next' after (t :: seen) next := by
  have hcarries := h.carries_cons hs
  cases hs with
  | token _ _ _ htracks =>
    have hstep : (r'.step d (t.shifted .unlined)).moved .unlined = (r.step d t).moved .unlined :=
      Reading.step_moved_congr h.moved rfl
    rw [hnext] at hstep
    obtain ⟨next', hnext', hmoved⟩ := Step.moved_eq_more hstep
    refine ⟨next', hnext', htracks, (leads_of_scan_token hscan).lined h.lined,
      h.fits.more hscan hk hnext, hmoved, hcarries, ?_, ?_⟩
    · rw [List.reverse_cons]
      exact h.takes.more_last hk hnext
    · rw [List.map_cons, List.reverse_cons]
      exact h.takes'.more_last hk hnext'

/-- The sentence is over with the next token. -/
theorem last (h : InStep lines d issued b seen' r' c seen r)
    (hscan : scan d.flags c = .token t after)
    (hs : LineScan.Matches lines b (.token t' m after') (.token t after))
    (hk : t.kind ≠ .comment) (hover : ∀ next, r.step d t ≠ .more next) :
    (∀ next, r'.step d t' ≠ .more next) ∧
      ∃ run, LineRun.conclude? r'.names.issued ((t', m) :: seen') after' (r'.step d t').stacked =
          some run ∧ run.Beside lines b (r.run d seen c) := by
  have hcarries := h.carries_cons hs
  have hproper := h.fits.step_proper hscan hk
  cases hs with
  | token _ _ _ htracks hasked hgrows =>
    have hstep : (r'.step d (t.shifted .unlined)).moved .unlined = (r.step d t).moved .unlined :=
      Reading.step_moved_congr h.moved rfl
    refine ⟨Step.ne_more_of_moved hstep.symm hover, ?_⟩
    rw [Reading.run_over hscan hk hover]
    refine LineRun.conclude?_beside hstep hover ?_ (congrArg Bindings.issued h.names_eq)
      (fun e he => ?_) (fun e he => ?_) hcarries htracks hgrows hasked
    · intro hstuck
      rw [hstuck] at hproper
      exact hproper
    · have hmem := h.takes.place_mem he
      rwa [← List.reverse_cons, List.map_reverse, List.mem_reverse] at hmem
    · have hmem := h.takes'.place_mem he
      rwa [← List.reverse_cons, List.map_reverse, List.mem_reverse] at hmem

/-- The sentence is over at text that is no token. -/
theorem fault (h : InStep lines d issued b seen' r' c seen r)
    (hscan : scan d.flags c = .fault e after exhausted)
    (hs : LineScan.Matches lines b (.fault e' start' x) (.fault e after exhausted)) :
    LineRun.Beside lines b ⟨.error (.malformed e'), seen', start', r'.names.issued⟩
      (r.run d seen c) := by
  rw [Reading.run_fault hscan]
  cases hs with
  | fault hplace hstands hgrows =>
    refine ⟨rfl, ?_, hstands.tracks, congrArg Bindings.issued h.names_eq, hgrows, hstands.asked, ?_⟩
    · rw [List.reverse_reverse]
      exact h.carries.grows hgrows
    · intro e₁ he₁
      cases he₁
      exact ⟨after, hstands.inside, hplace, hstands.has⟩

/-- Reading a sentence in a buffer, token by token. -/
theorem run? (h : InStep lines d issued b seen' r' c seen r)
    (hj : Text.IsJoined (lines.map Text.ofBytes).flatten) :
    ∃ run, r'.stacked.run? d seen' b = some run ∧ run.Beside lines b (r.run d seen c) := by
  induction hn : b.left using Nat.strongRecOn generalizing b c r r' seen seen' with
  | _ n ih =>
    subst hn
    obtain ⟨s, hs, hmatches⟩ := h.tracks.scanFrom? hj d.flags false
    rw [← scan] at hmatches
    rw [StackReading.run?, LineBuffer.scan?, hs]
    cases hscan : scan d.flags c with
    | failure reason stopped =>
      rw [hscan] at hmatches
      cases hmatches
    | fault e start exhausted =>
      rw [hscan] at hmatches
      cases s with
      | token => cases hmatches
      | fault => exact ⟨_, rfl, h.fault hscan hmatches⟩
    | token t after =>
      rw [hscan] at hmatches
      cases s with
      | fault => cases hmatches
      | token t' m after' =>
        obtain ⟨hkind, hgrows⟩ : t'.kind = t.kind ∧ b.Grows after' := by
          cases hmatches with
          | token _ _ _ _ _ hgrows => exact ⟨rfl, hgrows⟩
        simp only [Option.bind_eq_bind, Option.bind_some]
        by_cases hk : t.kind = .comment
        · have hlt := h.left_lt hscan hmatches (by simp [hk])
          rw [if_pos (hkind.trans hk), if_pos hlt, Reading.run_comment hscan hk]
          obtain ⟨run, hrun, hbeside⟩ := ih _ hlt (h.comment hscan hmatches hk) rfl
          exact ⟨run, hrun, hbeside.behind hgrows⟩
        rw [if_neg (hkind ▸ hk), Reading.step_stacked]
        by_cases hmore : ∃ next, r.step d t = .more next
        · obtain ⟨next, hnext⟩ := hmore
          obtain ⟨next', hnext', hin⟩ := h.more hscan hmatches hk hnext
          have hpart := Reading.isPart_of_step_more hnext
          have hlt := h.left_lt hscan hmatches fun he => by simp [he, TokenKind.isPart] at hpart
          rw [hnext', Reading.run_more hscan hnext]
          simp only [Step.stacked, if_pos hlt]
          obtain ⟨run, hrun, hbeside⟩ := ih _ hlt hin rfl
          exact ⟨run, hrun, hbeside.behind hgrows⟩
        · obtain ⟨hover, run, hrun, hbeside⟩ :=
            h.last hscan hmatches hk (not_exists.1 hmore)
          refine ⟨run, ?_, hbeside⟩
          rw [← hrun]
          cases hstep : r'.step d t' with
          | more next => exact absurd hstep (hover next)
          | _ => rfl

end InStep

/-! ## Sentences leave less to be read -/

theorem Run.at_upTo_ne_nil (d : Dialect) (issued : Nat) (hc : c.Lined)
    (h : (Run.at d issued c).outcome.Continues) :
    c.upTo (Run.at d issued c).cursor ≠ [] ∨
      (∃ e, (Run.at d issued c).outcome = .error (.malformed e)) ∧
        leavesRest (Run.at d issued c).tokens = true := by
  have hne {t : Token} {after : Cursor} {r : Reading} (hs : scan d.flags c = .token t after)
      (hk : t.kind ≠ .endOfFile) : c.upTo (r.run d [t] after).cursor ≠ [] := by
    rw [(leads_of_scan_token hs).upTo_trans (Reading.run_leads d r [t] after)]
    exact fun hnil => upTo_ne_nil_of_scan hc hs hk (List.append_eq_nil_iff.1 hnil).1
  revert h
  unfold Run.at
  fun_cases Reading.run d (Reading.start issued) [] c with
  | case1 | case5 | case7 | case8 => exact False.elim
  | case2 => exact fun _ => .inr ⟨⟨_, rfl⟩, rfl⟩
  | case3 t after hs tokens hk => exact fun _ => .inl (hne hs (by simp [hk]))
  | case4 _ _ hs _ _ _ _ step | case6 _ _ hs _ _ _ step =>
    have hk := Reading.kind_ne_of_step_start step (by simp)
    exact fun _ => .inl (upTo_ne_nil_of_scan hc hs hk)
  | case9 t after hs tokens hk next step he => exact fun _ => .inl (hne hs he)

theorem skipSentence_upTo_ne_nil {flags : Flags} (hc : c.Lined)
    (h : skipSentence flags c = .resumed after) : c.upTo after ≠ [] := by
  have hbehind {c c' : Cursor} (hc' : c.Leads c') (hs : skipSentence flags c' = .resumed after)
      (hne : c'.upTo after ≠ []) : c.upTo after ≠ [] := by
    have hafter := skipSentence_ahead flags c'
    rw [hs] at hafter
    rw [hc'.upTo_trans hafter]
    exact fun hnil => hne (List.append_eq_nil_iff.1 hnil).2
  fun_induction skipSentence flags c with
  | case1 | case2 | case5 => cases h
  | case3 c _ start _ hs _ _ ih =>
    have hone := (leads_of_scan_fault hs).trans
      (Cursor.leads_advance (List.length_pos_iff.2 (scan_fault hs).1))
    exact hbehind hone h (ih (hone.lined hc) h)
  | case4 c t at' hs hk =>
    cases h
    exact upTo_ne_nil_of_scan hc hs (by simp [hk])
  | case6 c t at' hs _ he _ ih =>
    have hleads := leads_of_scan_token hs
    exact hbehind hleads h (ih (hleads.lined hc) h)

/-! ## The next sentence -/

theorem leavesRest_shifted (ts : List Token) :
    leavesRest (ts.map (.shifted .unlined)) = leavesRest ts := by
  simp only [leavesRest, ← List.map_reverse, List.find?_map, Function.comp_def]
  cases hfind : ts.reverse.find? (fun t => t.kind ≠ .comment) with
  | none =>
    rw [show ts.reverse.find? (fun t => (t.shifted .unlined).kind ≠ .comment) = none from hfind]
    rfl
  | some t =>
    rw [show ts.reverse.find? (fun t => (t.shifted .unlined).kind ≠ .comment) = some t from hfind]
    rfl

namespace LineReader

/-- A reader of a buffer is where a reader with all of the lines is. -/
structure Tracks (lines : List (List UInt8)) (s : LineReader) (r : Reader) : Prop where
  buffer : s.buffer.Tracks lines r.cursor
  resync : s.resync = r.resync
  issued : s.issued = r.issued

variable {s s' : LineReader} {r : Reader} {start : Cursor}

/-- Reading a sentence where the buffer and a cursor stand, the lines before it given up. -/
theorem run?_release (h : b.Tracks lines start)
    (hj : Text.IsJoined (lines.map Text.ofBytes).flatten) (hl : start.Lined) (d : Dialect)
    (issued : Nat) :
    ∃ run, (StackReading.start issued).run? d [] b.release = some run ∧
      run.Beside lines b.release (Run.at d issued start) :=
  have hin : InStep lines d issued b.release [] (.start issued) start [] (.start issued) :=
    ⟨h.release, hl, Reading.fits_start d.flags issued start, rfl, .nil, .nil, .nil⟩
  hin.run? hj

theorem Tracks.of_beside {run : LineRun} {d : Dialect} {issued : Nat}
    (h : run.Beside lines b (Run.at d issued start)) :
    run.reader.Tracks lines (Reader.readAt d issued start).2 := by
  have hrest : leavesRest (run.seen.map Prod.fst).reverse =
      leavesRest (Run.at d issued start).tokens := by
    rw [h.carries.map_fst, ← List.map_reverse, List.reverse_reverse, leavesRest_shifted]
  refine ⟨h.tracks, ?_, h.issued⟩
  cases houtcome : (Run.at d issued start).outcome with
  | error e =>
    cases e <;> simp only [LineRun.reader, Reader.readAt, h.outcome, houtcome, hrest]
  | _ => simp only [LineRun.reader, Reader.readAt, h.outcome, houtcome]

/-- Where the next sentence is read: behind the rest of a malformed one, if there is such a rest, or
at the end of the input. -/
theorem Tracks.exists_start (h : s.Tracks lines r)
    (hj : Text.IsJoined (lines.map Text.ofBytes).flatten) (hl : r.cursor.Lined) (d : Dialect) :
    ∃ b start, s.start? d.flags = some b ∧ b.Tracks lines start ∧
      r.cursor.Leads start ∧ (∀ c, r.StartsAt d.flags c → c = start) ∧
      (r.next d = Reader.readAt d r.issued start ∨
        start.remaining = [] ∧ r.next d = (.endOfInput, ⟨start, false, r.issued⟩)) := by
  cases hresync : r.resync with
  | false =>
    refine ⟨s.buffer, r.cursor, by simp [start?, h.resync, hresync], h.buffer, .refl _, ?_, .inl ?_⟩
    · simp [Reader.StartsAt, hresync]
    · simp [Reader.next, hresync]
  | true =>
    obtain ⟨b, hskip, hto⟩ := h.buffer.skipSentence? hj hl d.flags
    have hahead := skipSentence_ahead d.flags r.cursor
    cases hs : skipSentence d.flags r.cursor with
    | failure reason stopped =>
      rw [hs] at hto
      cases hto
    | resumed start =>
      rw [hs] at hto hahead
      cases hto with
      | resumed htracks =>
        refine ⟨b, start, by simpa [start?, h.resync, hresync] using hskip, htracks, hahead, ?_,
          .inl ?_⟩
        · simp [Reader.StartsAt, hresync, hs]
        · simp [Reader.next, hresync, hs]
    | ended start =>
      rw [hs] at hto hahead
      cases hto with
      | ended htracks hnil =>
        refine ⟨b, start, by simpa [start?, h.resync, hresync] using hskip, htracks, hahead, ?_,
          .inr ⟨hnil, ?_⟩⟩
        · simp [Reader.StartsAt, hresync, hs]
        · simp [Reader.next, hresync, hs]

/-- The next sentence of a buffer is the next sentence of the text: nothing fails on the way. -/
theorem Tracks.next? (h : s.Tracks lines r)
    (hj : Text.IsJoined (lines.map Text.ofBytes).flatten) (hl : r.cursor.Lined) (d : Dialect) :
    ∃ run, s.next? d = some run ∧ run.outcome = (r.next d).1 ∧
      run.reader.Tracks lines (r.next d).2 ∧
      ∃ b start, run.Beside lines b (Run.at d r.issued start) ∧
        ∀ c, r.StartsAt d.flags c → c = start := by
  obtain ⟨b, start, hb, htracks, hleads, hstarts, hnext⟩ := h.exists_start hj hl d
  obtain ⟨run, hrun, hbeside⟩ := run?_release htracks hj (hleads.lined hl) d r.issued
  have hsome : s.next? d = some run := by
    rw [LineReader.next?, hb, h.issued]
    exact hrun
  rcases hnext with hnext | ⟨hnil, hnext⟩
  · rw [hnext]
    exact ⟨run, hsome, hbeside.outcome, .of_beside hbeside, _, _, hbeside, hstarts⟩
  · -- The end of the input is found once more.
    obtain ⟨t, -, hat⟩ := Run.at_of_remaining_nil d r.issued hnil htracks.inside.ending
    have houtcome : run.outcome = .endOfInput := by rw [hbeside.outcome, hat]
    have hissued : run.issued = r.issued := by rw [hbeside.issued, hat]
    have hbuffer := hbeside.tracks
    rw [hat] at hbuffer
    have hresync : run.reader.resync = false := by rw [LineRun.reader, houtcome]
    rw [hnext]
    exact ⟨run, hsome, houtcome, ⟨hbuffer.of_fill htracks.inside, hresync, hissued⟩, _, _, hbeside,
      hstarts⟩

/-! ## All sentences -/

/-- Every sentence and every syntax error leaves less to be read. -/
theorem Tracks.measure_lt (h : s.Tracks lines r) {d : Dialect} (h' : s'.Tracks lines (r.next d).2)
    (hl : r.cursor.Lined) (ho : (r.next d).1.Continues) : s'.measure < s.measure := by
  obtain ⟨start, hstart⟩ := Reader.exists_startsAt ho
  have hleads := hstart.leads
  rw [Reader.next_eq_readAt hstart] at h' ho
  have hrun : start.Leads (Run.at d r.issued start).cursor := Reading.run_leads ..
  have hle := h.buffer.left_le h'.buffer (hleads.trans hrun)
  have hlt (hne : r.cursor.upTo (Run.at d r.issued start).cursor ≠ []) :
      s'.measure < s.measure := by
    have hlt := h.buffer.left_lt h'.buffer (hleads.trans hrun) hne
    simp only [measure]
    split <;> split <;> omega
  rw [hleads.upTo_trans hrun] at hlt
  rcases Run.at_upTo_ne_nil d r.issued (hleads.lined hl) ho with hne | ⟨⟨e, he⟩, hrest⟩
  · exact hlt fun hnil => hne (List.append_eq_nil_iff.1 hnil).2
  · cases hresync : r.resync with
    | true =>
      -- The full stop before the sentence has been passed over.
      rw [Reader.StartsAt, if_pos hresync] at hstart
      exact hlt fun hnil =>
        skipSentence_upTo_ne_nil hl hstart (List.append_eq_nil_iff.1 hnil).1
    | false =>
      have hagain : s'.resync = true := by
        rw [h'.resync]
        simp only [Reader.readAt, he, hrest]
      rw [measure, measure, hagain, h.resync, hresync]
      simp only [if_true, Bool.false_eq_true, if_false]
      omega

/-- Consulting a buffer of lines, nothing goes wrong, and it comes to what consulting the text comes
to. -/
theorem Tracks.consult? (h : s.Tracks lines r)
    (hj : Text.IsJoined (lines.map Text.ofBytes).flatten) (hl : r.cursor.Lined) (d : Dialect)
    (done : Consultation) : s.consult? d done = some (r.consult d done) := by
  induction hn : s.measure using Nat.strongRecOn generalizing s r d done with
  | _ n ih =>
    subst hn
    obtain ⟨run, hrun, houtcome, htracks, -⟩ := h.next? hj hl d
    have hlined := (Reader.next_leads d r).lined hl
    have hlt := h.measure_lt htracks hl
    rw [LineReader.consult?, hrun, Reader.consult_eq]
    simp only [Option.bind_eq_bind, Option.bind_some, houtcome]
    cases ho : r.next d with
    | mk o after =>
      rw [ho] at htracks hlined hlt
      have hissued : run.issued = after.issued := htracks.issued
      cases o with
      | endOfInput => simp [hissued]
      | sentence x => simp only [if_pos (hlt trivial), ih _ (hlt trivial) htracks hlined _ _ rfl]
      | error e =>
        cases e with
        | malformed e => simp only [if_pos (hlt trivial), ih _ (hlt trivial) htracks hlined _ _ rfl]
        | _ => simp [hissued]

end LineReader

end

/-! ## Readers of bytes -/

namespace LineReader

/-- A reader of bytes, none of which has been asked for. -/
def ofBytes (bytes : List UInt8) (issued : Nat) : LineReader :=
  ⟨.ofLines (Bytes.lines bytes), false, issued⟩

theorem tracks_ofBytes (bytes : List UInt8) (issued : Nat) :
    (ofBytes bytes issued).Tracks (Bytes.lines bytes)
      (.ofCursor (.ofText (.ofBytes bytes)) issued) :=
  ⟨Bytes.tracks_lines bytes, rfl, rfl⟩

/-- Whatever the bytes, consulting them in a buffer of lines comes to what consulting their text
comes to. -/
theorem consult?_eq (d : Dialect) (issued : Nat) (bytes : List UInt8) :
    (ofBytes bytes issued).consult? d .empty =
      some (d.consult issued (.ofText (.ofBytes bytes))) :=
  (tracks_ofBytes bytes issued).consult? (Bytes.isJoined_lines bytes) (Cursor.lined_ofText _) d
    .empty

/-- A reader of a buffer and a reader of a text that the same calls come to. -/
inductive ReachedBeside (bytes : List UInt8) : LineReader → Reader → Prop where
  | start (issued : Nat) :
    ReachedBeside bytes (.ofBytes bytes issued) (.ofCursor (.ofText (.ofBytes bytes)) issued)
  | next {s : LineReader} {r : Reader} {run : LineRun} (d : Dialect) (h : ReachedBeside bytes s r)
    (hrun : s.next? d = some run) : ReachedBeside bytes run.reader (r.next d).2

variable {bytes : List UInt8} {s : LineReader} {r : Reader}

theorem ReachedBeside.tracks (h : s.ReachedBeside bytes r) :
    s.Tracks (Bytes.lines bytes) r ∧ r.cursor.Lined := by
  induction h with
  | start issued => exact ⟨tracks_ofBytes bytes issued, Cursor.lined_ofText _⟩
  | @next s r run d _ hrun ih =>
    obtain ⟨htracks, hl⟩ := ih
    obtain ⟨run', hrun', -, hnext, -⟩ := htracks.next? (Bytes.isJoined_lines bytes) hl d
    obtain rfl : run' = run := Option.some.inj (hrun'.symm.trans hrun)
    exact ⟨hnext, (Reader.next_leads d r).lined hl⟩

/-- However many calls came before, the next one does not fail. -/
theorem ReachedBeside.next? (h : s.ReachedBeside bytes r) (d : Dialect) :
    ∃ run, s.next? d = some run ∧ run.outcome = (r.next d).1 ∧
      run.reader.ReachedBeside bytes (r.next d).2 ∧
      ∃ b start, run.Beside (Bytes.lines bytes) b (Run.at d r.issued start) ∧
        ∀ c, r.StartsAt d.flags c → c = start := by
  obtain ⟨htracks, hl⟩ := h.tracks
  obtain ⟨run, hrun, houtcome, -, hbeside⟩ := htracks.next? (Bytes.isJoined_lines bytes) hl d
  exact ⟨run, hrun, houtcome, .next d h hrun, hbeside⟩

end LineReader

end PrologText
