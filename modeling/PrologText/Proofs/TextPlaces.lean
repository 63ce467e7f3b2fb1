import PrologText.Proofs.HeldTokens
import PrologText.Proofs.LineReaders

/-!
# Places in a text

A place says how many newlines come before a point of a text, how many glyphs stand between the last
of them and the point, and what the line of the point is (`Place.Marks`). Main statement: tokens,
sentences, comments and syntax errors report the places where they start, however many calls come
before and whatever these leave unread; and a buffer that gives up lines with each call tells the
same places from the points it still holds (`Text.places_reported`).
-/

namespace PrologText

/-! ## Points and lines -/

namespace Text

/-- The glyphs behind the last newline. -/
def lastLine (t : Text) : Text :=
  (t.reverse.takeWhile (· ≠ .char '\n')).reverse

/-- The glyphs before the first newline. -/
def firstLine (t : Text) : Text :=
  t.takeWhile (· ≠ .char '\n')

theorem takeWhile_append_of_not_mem {t : Text} (h : .char '\n' ∉ t) (u : Text) :
    (t ++ u).takeWhile (· ≠ .char '\n') = t ++ u.takeWhile (· ≠ .char '\n') := by
  refine List.takeWhile_append_of_pos fun g hg => ?_
  simp only [decide_eq_true_eq]
  rintro rfl
  exact h hg

theorem firstLine_of_not_mem {t : Text} (h : .char '\n' ∉ t) : t.firstLine = t := by
  simpa [firstLine] using takeWhile_append_of_not_mem h []

theorem firstLine_append_newline {t : Text} (h : .char '\n' ∉ t) (u : Text) :
    firstLine (t ++ .char '\n' :: u) = t := by
  rw [firstLine, takeWhile_append_of_not_mem h]
  simp

theorem lastLine_of_not_mem {t : Text} (h : .char '\n' ∉ t) : t.lastLine = t := by
  have hfirst : firstLine t.reverse = t.reverse := firstLine_of_not_mem (by simpa using h)
  rw [lastLine, ← firstLine, hfirst, List.reverse_reverse]

theorem lastLine_append_newline (t : Text) {u : Text} (h : .char '\n' ∉ u) :
    lastLine (t ++ .char '\n' :: u) = u := by
  have hfirst := firstLine_append_newline (t := u.reverse) (by simpa using h) t.reverse
  have hreverse : (t ++ .char '\n' :: u).reverse = u.reverse ++ .char '\n' :: t.reverse := by simp
  rw [lastLine, hreverse, ← firstLine, hfirst, List.reverse_reverse]

theorem trimLineEnd_append_newline (t : Text) :
    trimLineEnd (t ++ [.char '\n']) = t.trimLineEnd := by
  simp [trimLineEnd, dropEndWhile, isLineEnd]

/-- Lines before other lines have one newline each, at their end. -/
theorem IsSplit.exists_body {done later : List Text} {line : Text}
    (h : IsSplit (done ++ line :: later)) :
    ∀ l ∈ done, ∃ body, l = body ++ [.char '\n'] ∧ .char '\n' ∉ body := by
  induction done with
  | nil => simp
  | cons l done ih =>
    refine List.forall_mem_cons.2 ⟨?_, ih h.2⟩
    exact h.1.resolve_right fun hlast => by simp at hlast

variable {done : List Text} {u : Text}

theorem count_newline_flatten
    (h : ∀ l ∈ done, ∃ body, l = body ++ [.char '\n'] ∧ .char '\n' ∉ body) :
    done.flatten.count (.char '\n') = done.length := by
  induction done with
  | nil => rfl
  | cons l done ih =>
    obtain ⟨⟨body, rfl, hbody⟩, hdone⟩ := List.forall_mem_cons.1 h
    rw [List.flatten_cons, List.count_append, ih hdone, List.count_append,
      List.count_eq_zero.2 hbody]
    simp [Nat.add_comm]

theorem lastLine_flatten_append
    (h : ∀ l ∈ done, ∃ body, l = body ++ [.char '\n'] ∧ .char '\n' ∉ body)
    (hu : .char '\n' ∉ u) : lastLine (done.flatten ++ u) = u := by
  rcases List.eq_nil_or_concat done with rfl | ⟨front, l, rfl⟩
  · exact lastLine_of_not_mem hu
  · obtain ⟨body, rfl, -⟩ := h l (by simp)
    simpa using lastLine_append_newline (front.flatten ++ body) hu

end Text

/-- A place tells where a text is cut in two: it counts the newlines before the point and the glyphs
behind the last of them, and has the line of the point. -/
structure Place.Marks (p : Place) (before behind : Text) : Prop where
  line : p.line = 1 + before.count (.char '\n')
  column : p.column = 1 + before.lastLine.length
  text : p.text.trimLineEnd = (before.lastLine ++ behind.firstLine).trimLineEnd

namespace Cursor

variable {text : Text} {c : Cursor}

/-- The lines behind a cursor, and what of its own line is behind it. -/
theorem Leads.exists_lines (h : (ofText text).Leads c) (ht : text ≠ []) :
    ∃ done, done.length = c.number ∧ text.lines = done ++ c.whole :: c.later ∧
      (ofText text).upTo c = done.flatten ++ c.whole.take c.column := by
  obtain ⟨l, ls, hl⟩ := List.exists_cons_of_ne_nil (Text.lines_ne_nil ht)
  have hfirst : ofText text = atLine 0 l ls .endOfInput := by rw [ofText, hl]; rfl
  rw [hl]
  rw [hfirst] at h ⊢
  rcases h.lines with ⟨hn, hw, hlater, -⟩ | ⟨hn, hlater⟩
  · refine ⟨[], hn.symm, by rw [hw, hlater]; rfl, ?_⟩
    rw [upTo, if_pos hn.symm, hw]
    rfl
  · have hsplit : ls = ls.take (c.number - 1) ++ c.whole :: c.later := by
      have hdrop : ls.drop (c.number - 1) = c.whole :: c.later := hlater
      rw [← hdrop, List.take_append_drop]
    have hlength : (ls.take (c.number - 1)).length = c.number - 1 := by
      have hdrop := congrArg List.length hlater
      simp only [List.length_drop, List.length_cons, atLine] at hdrop
      exact List.length_take_of_le (by omega)
    have hpos : 0 < c.number := hn
    refine ⟨l :: ls.take (c.number - 1), ?_, by rw [List.cons_append, ← hsplit], ?_⟩
    · rw [List.length_cons, hlength]
      omega
    · rw [upTo, if_neg (Nat.ne_of_lt hn)]
      rfl

/-- The newline of a line, if there is one, stands behind a cursor that is not at the end. -/
theorem Lined.newline_not_mem_take_column (hc : c.Lined) (hr : c.rest ≠ []) :
    .char '\n' ∉ c.whole.take c.column := by
  rcases hc.1 with ⟨body, hw, hbody⟩ | ⟨-, hw⟩
  · rw [hw, List.take_append_of_le_length (column_le_of_rest_ne_nil hr hw)]
    exact fun hmem => hbody (List.mem_of_mem_take hmem)
  · exact fun hmem => hw (List.mem_of_mem_take hmem)

/-- The line of a cursor is what stands before the cursor in it, and what follows up to the next
newline. -/
theorem Lined.trimLineEnd_whole (hc : c.Lined) (hr : c.rest ≠ []) :
    c.whole.trimLineEnd =
      Text.trimLineEnd (c.whole.take c.column ++ c.remaining.firstLine) := by
  rcases hc.rest_cases hr with ⟨body, hrest, hbody⟩ | ⟨hlater, hrest⟩
  · have hfirst : c.remaining.firstLine = body := by
      rw [remaining, hrest, List.append_assoc]
      exact Text.firstLine_append_newline hbody _
    calc c.whole.trimLineEnd
      _ = Text.trimLineEnd (c.whole.take c.column ++ body ++ [.char '\n']) := by
        rw [List.append_assoc, ← hrest, c.take_column_append_rest]
      _ = Text.trimLineEnd (c.whole.take c.column ++ body) := Text.trimLineEnd_append_newline _
      _ = _ := by rw [hfirst]
  · have hfirst : c.remaining.firstLine = c.rest := by
      rw [remaining, hlater, List.flatten_nil, List.append_nil]
      exact Text.firstLine_of_not_mem hrest
    rw [hfirst, c.take_column_append_rest]

/-- A cursor before some glyph tells its place. -/
theorem Leads.marks (h : (ofText text).Leads c) (hr : c.rest ≠ []) :
    c.place.Marks ((ofText text).upTo c) c.remaining := by
  have hlined : c.Lined := h.lined (lined_ofText text)
  have htext : text ≠ [] := by
    rintro rfl
    have hnil : (ofText []).remaining = [] := rfl
    rw [h.remaining_eq, List.append_eq_nil_iff] at hnil
    exact hr (List.append_eq_nil_iff.1 hnil.2).1
  obtain ⟨done, hnumber, hlines, hupTo⟩ := h.exists_lines htext
  have hdone := Text.IsSplit.exists_body (hlines ▸ text.isSplit_lines)
  have hbefore := hlined.newline_not_mem_take_column hr
  have hcolumn : (c.whole.take c.column).length = c.column := by
    have hlength := congrArg List.length c.rest_eq
    have hpos := List.length_pos_iff.2 hr
    rw [List.length_drop] at hlength
    exact List.length_take_of_le (by omega)
  have hlast : ((ofText text).upTo c).lastLine = c.whole.take c.column := by
    rw [hupTo, Text.lastLine_flatten_append hdone hbefore]
  refine ⟨?_, ?_, ?_⟩
  · rw [hupTo, List.count_append, Text.count_newline_flatten hdone, hnumber,
      List.count_eq_zero.2 hbefore, place]
    exact Nat.add_comm ..
  · rw [hlast, hcolumn, place]
    exact Nat.add_comm ..
  · rw [hlast]
    exact hlined.trimLineEnd_whole hr

end Cursor

/-! ## Tokens and faults -/

/-- What a syntax error reports of the point where a text is cut in two: its line and its column,
counted from one, and the text of its line without line ends. -/
structure SyntaxError.Reports (e : SyntaxError) (before behind : Text) : Prop where
  line_number : e.diagnostic.details.get? "line_number" =
    some (.integer (1 + before.count (.char '\n') : Nat))
  column : e.diagnostic.details.get? "column" = some (.integer (1 + before.lastLine.length : Nat))
  line : e.diagnostic.details.get? "line" =
    some (.text (before.lastLine ++ behind.firstLine).trimLineEnd)

/-- The details of a syntax error, each of which has a name of its own. -/
theorem SyntaxError.details_diagnostic (e : SyntaxError) :
    e.diagnostic.details =
      [("line", .text e.place.text.trimLineEnd), ("line_number", .integer e.place.line),
        ("column", .integer e.place.column)] ++
        e.consumed.toList.map fun t => ("consumed", .text t) := by
  obtain ⟨cause, place, consumed⟩ := e
  cases consumed <;>
    simp [diagnostic, Diagnostic.details, Diagnostic.tags, Details.override, Details.insert]

theorem Place.Marks.reports {e : SyntaxError} {before behind : Text}
    (h : e.place.Marks before behind) : e.Reports before behind := by
  constructor <;> rw [e.details_diagnostic]
  · simp [Details.get?, List.lookup_cons, h.line]
  · simp [Details.get?, List.lookup_cons, h.column]
  · simp [Details.get?, h.text]

section

variable {flags : Flags} {text : Text} {c start after c' : Cursor} {t : Token} {e : SyntaxError}

/-- Scanning a text between two cursors comes to a token behind nothing but layout, and the token
tells the place where it starts. -/
structure Token.FoundAt (flags : Flags) (text : Text) (c start after : Cursor) (t : Token) :
    Prop where
  scan : scan flags c = .token t after
  passesTo : c.PassesTo flags false start
  leads : start.Leads after
  marks : t.place.Marks ((Cursor.ofText text).upTo start) start.remaining

theorem Token.exists_foundAt (hc : (Cursor.ofText text).Leads c)
    (h : scan flags c = .token t after) (hk : t.kind ≠ .endOfFile) :
    ∃ start, t.FoundAt flags text c start after := by
  have hlined : c.Lined := hc.lined (Cursor.lined_ofText text)
  obtain ⟨start, hstart⟩ := exists_passesTo flags false c hlined
  have hcuts := hstart.atToken.cutsAt (hstart.leads.lined hlined) (false || !(c.upTo start).isEmpty)
  rw [← hstart.scan, show scanFrom flags false c = _ from h] at hcuts
  obtain ⟨hafter, -, hplace, hfits⟩ := hcuts
  have hrest : start.rest ≠ [] := by
    intro hnil
    have hremaining := Cursor.remaining_of_fill_nil (hstart.atToken.fill.symm ▸ hnil)
    rw [hafter.remaining_eq] at hremaining
    exact hk (hfits.span_eq_nil.1 (List.append_eq_nil_iff.1 hremaining).1)
  exact ⟨start, h, hstart, hafter, hplace ▸ (hc.trans hstart.leads).marks hrest⟩

theorem SyntaxError.reports_of_scan {exhausted : Bool} (hc : (Cursor.ofText text).Leads c)
    (h : scan flags c = .fault e start exhausted) :
    c.PassesTo flags false start ∧
      e.Reports ((Cursor.ofText text).upTo start) start.remaining := by
  obtain ⟨hpasses, hagain, hfaults⟩ := (hc.lined (Cursor.lined_ofText text)).fault_cases h
  rw [hagain] at hfaults
  have hmarks := (hc.trans hpasses.leads).marks (scan_fault h).1
  exact ⟨hpasses, Place.Marks.reports (hfaults.2.1 ▸ hmarks)⟩

end

/-! ## Sentences and errors -/

/-- Comments alone leave a reading as it is. -/
theorem Reading.Takes.eq_of_comments {d : Dialect} {r last : Reading} {ts : List Token}
    (h : r.Takes d ts last) (hts : ∀ t ∈ ts, t.kind = .comment) : last = r := by
  induction h with
  | nil => rfl
  | comment _ _ ih => exact ih (List.forall_mem_cons.1 hts).2
  | more hk => exact absurd (List.forall_mem_cons.1 hts).1 hk

namespace Reader

variable {d : Dialect} {r r' : Reader} {s : Sentence} {e : SyntaxError}

/-- A sentence or a syntax error comes of the tokens from the start of the sentence on. -/
theorem next_cases {o : Outcome} (h : r.next d = (o, r')) (ho : o.Continues) :
    ∃ start ts at' last, r.StartsAt d.flags start ∧ Scans d.flags start ts at' ∧
      (Reading.start r.issued).Takes d ts last ∧
      ((∃ e exhausted, scan d.flags at' = .fault e r'.cursor exhausted ∧
          o = .error (.malformed e)) ∨
        ∃ t, scan d.flags at' = .token t r'.cursor ∧ t.kind ≠ .comment ∧
          o = (last.step d t).outcome (ts ++ [t])) := by
  obtain ⟨start, hstart⟩ := exists_startsAt (d := d) (r := r) (h ▸ ho)
  rw [next_eq_readAt hstart] at h
  obtain ⟨ts, at', last, hts, hfeed, hend⟩ := Reading.run_cases d (.start r.issued) [] start
  simp only [readAt, Prod.mk.injEq] at h
  obtain ⟨rfl, rfl⟩ := h
  refine ⟨start, ts, at', last, hstart, hts, Reading.takes_of_feed hfeed, ?_⟩
  unfold Run.at at ho ⊢
  generalize (Reading.start r.issued).run d [] start = run at hend ho ⊢
  cases hend with
  | failure => exact ho.elim
  | fault hs => exact .inl ⟨_, _, hs, rfl⟩
  | @token t after hs hk =>
    refine .inr ⟨t, ?_, hk, Run.outcome_conclude ..⟩
    rw [Run.cursor_conclude]
    exact hs

/-- The tokens of a sentence, of which its comments and its line come. -/
theorem exists_tokens_of_next_sentence (h : r.next d = (.sentence s, r')) :
    ∃ start ts first, r.StartsAt d.flags start ∧ Scans d.flags start ts r'.cursor ∧
      (uncommented ts).head? = some first ∧ first.kind ≠ .endOfFile ∧
      s.line = first.place.line ∧
      s.comments = (ts.filter (·.kind = .comment)).map fun t => ⟨t.text, t.place.line⟩ := by
  obtain ⟨start, ts, at', last, hstart, hts, htakes, ⟨_, _, -, ho⟩ | ⟨t, hs, hk, ho⟩⟩ :=
    next_cases h trivial
  · cases ho
  · obtain ⟨term, names, hdone⟩ : ∃ term names, last.step d t = .done term names := by
      cases hstep : last.step d t <;> simp_all [Step.outcome]
    rw [hdone] at ho
    cases ho
    obtain ⟨first, hfirst⟩ : ∃ first, (ts ++ [t]).find? (·.kind ≠ .comment) = some first :=
      Option.isSome_iff_exists.1 (List.find?_isSome.2 ⟨t, by simp, by simpa using hk⟩)
    refine ⟨start, ts ++ [t], first, hstart, hts.append (.cons hs .nil), ?_, ?_, ?_, rfl⟩
    · rw [uncommented, List.head?_filter, hfirst]
    · intro he
      rw [List.find?_append] at hfirst
      cases hfind : ts.find? (·.kind ≠ .comment) with
      | some u =>
        rw [hfind] at hfirst
        cases hfirst
        have hnot := List.find?_some hfind
        rcases htakes.isPart first (List.mem_of_find?_eq_some hfind) with hcomment | hpart
        · simp [hcomment] at hnot
        · simp [he, TokenKind.isPart] at hpart
      | none =>
        -- No sentence starts at the end of the file.
        have hcomments : ∀ u ∈ ts, u.kind = .comment := by
          simpa using List.find?_eq_none.1 hfind
        rw [hfind] at hfirst
        obtain rfl : t = first := by simpa [hk] using hfirst
        rw [htakes.eq_of_comments hcomments, Reading.step_start_endOfFile d _ he] at hdone
        cases hdone
    · simp only [Sentence.ofTokens, hfirst, Option.map_some, Option.getD_some]

/-- A syntax error stands at the text that cannot be scanned, or at a token of the sentence, and
tells of it. -/
theorem malformed_cases (h : r.next d = (.error (.malformed e), r')) :
    ∃ start ts, r.StartsAt d.flags start ∧
      ((∃ c exhausted, Scans d.flags start ts c ∧ scan d.flags c = .fault e r'.cursor exhausted) ∨
        Scans d.flags start ts r'.cursor ∧ ∃ t ∈ ts, e.IsAt t) := by
  obtain ⟨start, ts, at', last, hstart, hts, htakes, ⟨_, _, hs, ho⟩ | ⟨t, hs, hk, ho⟩⟩ :=
    next_cases h trivial
  · cases ho
    exact ⟨start, ts, hstart, .inl ⟨at', _, hts, hs⟩⟩
  · have hfault : last.step d t = .fault e := by
      cases hstep : last.step d t <;> simp_all [Step.outcome]
    exact ⟨start, ts ++ [t], hstart, .inr ⟨hts.append (.cons hs .nil), htakes.exists_isAt hfault⟩⟩

end Reader

/-! ## Runs of calls -/

/-- A cursor that calls to scan a text come to, whatever the flags of each call are. -/
inductive Cursor.ScannedFrom (text : Text) : Cursor → Prop where
  | start : ScannedFrom text (.ofText text)
  | scan {c : Cursor} (flags : Flags) (h : ScannedFrom text c) :
    ScannedFrom text (scan flags c).cursor

theorem Cursor.ScannedFrom.leads {text : Text} {c : Cursor} (h : c.ScannedFrom text) :
    (ofText text).Leads c := by
  induction h with
  | start => exact .refl _
  | scan flags _ ih => exact ih.trans (leads_cursor_scan flags _)

/-- A reader that calls to read a text come to, whatever the dialect of each call is. -/
inductive Reader.ReachedFrom (text : Text) : Reader → Prop where
  | start (issued : Nat) : ReachedFrom text (.ofCursor (.ofText text) issued)
  | next {r : Reader} (d : Dialect) (h : ReachedFrom text r) : ReachedFrom text (r.next d).2

theorem Reader.ReachedFrom.leads {text : Text} {r : Reader} (h : r.ReachedFrom text) :
    (Cursor.ofText text).Leads r.cursor := by
  induction h with
  | start => exact .refl _
  | next d _ ih => exact ih.trans (next_leads d _)

/-- A buffer and a cursor that the same calls to scan some bytes come to. Each call gives up the
lines before it. -/
inductive LineBuffer.ScannedBeside (bytes : List UInt8) : LineBuffer → Cursor → Prop where
  | start : ScannedBeside bytes (.ofLines (Bytes.lines bytes)) (.ofText (.ofBytes bytes))
  | scan {b : LineBuffer} {c : Cursor} {s : LineScan} (flags : Flags) (h : ScannedBeside bytes b c)
    (hs : b.release.scan? flags = some s) :
    ScannedBeside bytes s.buffer (scan flags c).cursor

section

variable {bytes : List UInt8} {b : LineBuffer} {c : Cursor} {s : LineReader} {r : Reader}

theorem LineBuffer.ScannedBeside.tracks (h : b.ScannedBeside bytes c) :
    c.ScannedFrom (.ofBytes bytes) ∧ b.Tracks (Bytes.lines bytes) c := by
  induction h with
  | start => exact ⟨.start, Bytes.tracks_lines bytes⟩
  | @scan b c s flags _ hs ih =>
    obtain ⟨hfrom, htracks⟩ := ih
    obtain ⟨s', hs', hmatches⟩ :=
      htracks.release.scanFrom? (Bytes.isJoined_lines bytes) flags false
    obtain rfl : s' = s := Option.some.inj (hs'.symm.trans hs)
    refine ⟨.scan flags hfrom, ?_⟩
    rw [PrologText.scan]
    generalize scanFrom flags false c = r at hmatches ⊢
    cases hmatches with
    | token _ _ _ htracks => exact htracks
    | fault _ hstands => exact hstands.tracks

theorem LineReader.ReachedBeside.reachedFrom (h : s.ReachedBeside bytes r) :
    r.ReachedFrom (.ofBytes bytes) := by
  induction h with
  | start issued => exact .start issued
  | next d _ _ ih => exact .next d ih

end

/-- A token among those between two cursors tells the place where it starts. -/
def Token.FoundBetween (flags : Flags) (text : Text) (c c' : Cursor) (t : Token) : Prop :=
  ∃ before start after, c.Leads before ∧ t.FoundAt flags text before start after ∧ after.Leads c'

theorem Scans.foundBetween {flags : Flags} {text : Text} {c c' : Cursor} {ts : List Token}
    (h : Scans flags c ts c') (hc : (Cursor.ofText text).Leads c) {t : Token} (ht : t ∈ ts)
    (hk : t.kind ≠ .endOfFile) : t.FoundBetween flags text c c' := by
  obtain ⟨before, after, hbefore, hscan, hafter⟩ := h.exists_of_mem ht
  obtain ⟨start, hfound⟩ := Token.exists_foundAt (hc.trans hbefore) hscan hk
  exact ⟨before, start, after, hbefore, hfound, hafter⟩

/-- Scanning and reading a text report places as they are in it, after any calls. A token tells the
place where it starts behind layout, and a text that is no token where it starts. A sentence has the
line of its first token that is no comment, and comments have the lines of theirs. A syntax error is
at a text that is no token, or at a token that it tells of, and reports the place where that starts
unless it is the end of the file.

The same calls on a buffer, which gives up the lines before each of them, come to the same. Until
the next call gives up lines the buffer holds the points where the tokens and the malformed text
start, and tells their places. -/
theorem Text.places_reported (text : Text) :
    (∀ flags c t after, Cursor.ScannedFrom text c → scan flags c = .token t after →
      t.kind ≠ .endOfFile → ∃ start, t.FoundAt flags text c start after) ∧
    (∀ flags c e start exhausted, Cursor.ScannedFrom text c →
      scan flags c = .fault e start exhausted →
      c.PassesTo flags false start ∧
        e.Reports ((Cursor.ofText text).upTo start) start.remaining) ∧
    (∀ d r s r', Reader.ReachedFrom text r → r.next d = (.sentence s, r') →
      ∃ start ts first, r.StartsAt d.flags start ∧ Scans d.flags start ts r'.cursor ∧
        (uncommented ts).head? = some first ∧ first.kind ≠ .endOfFile ∧
        s.line = first.place.line ∧
        s.comments = (ts.filter (·.kind = .comment)).map (fun t => ⟨t.text, t.place.line⟩) ∧
        ∀ t ∈ ts, t.kind ≠ .endOfFile → t.FoundBetween d.flags text start r'.cursor) ∧
    (∀ d r e r', Reader.ReachedFrom text r → r.next d = (.error (.malformed e), r') →
      ∃ start ts, r.StartsAt d.flags start ∧
        ((∃ c exhausted, Scans d.flags start ts c ∧
            scan d.flags c = .fault e r'.cursor exhausted ∧
            c.PassesTo d.flags false r'.cursor ∧
            e.Reports ((Cursor.ofText text).upTo r'.cursor) r'.cursor.remaining) ∨
          Scans d.flags start ts r'.cursor ∧ ∃ t ∈ ts, e.IsAt t ∧
            (t.kind ≠ .endOfFile → ∃ before first after, start.Leads before ∧
              t.FoundAt d.flags text before first after ∧ after.Leads r'.cursor ∧
              e.Reports ((Cursor.ofText text).upTo first) first.remaining))) ∧
    (∀ bytes flags b c, .ofBytes bytes = text → LineBuffer.ScannedBeside bytes b c →
      Cursor.ScannedFrom text c ∧ ∃ s, b.release.scan? flags = some s ∧
        s.Places (Bytes.lines bytes) (scan flags c)) ∧
    ∀ bytes d s r, .ofBytes bytes = text → LineReader.ReachedBeside bytes s r →
      Reader.ReachedFrom text r ∧ ∃ run, s.next? d = some run ∧ run.outcome = (r.next d).1 ∧
        (∀ start, r.StartsAt d.flags start → ∀ t ∈ (Run.at d r.issued start).tokens,
          ∃ m, (t.shifted .unlined, m) ∈ run.seen ∧
            run.buffer.Keeps (Bytes.lines bytes) m t.place) ∧
        ∀ e, run.outcome = .error (.malformed e) →
          ∃ m, run.buffer.Keeps (Bytes.lines bytes) m e.place := by
  refine ⟨fun flags c t after hc h hk => Token.exists_foundAt hc.leads h hk,
    fun flags c e start exhausted hc h => SyntaxError.reports_of_scan hc.leads h, ?_, ?_, ?_, ?_⟩
  · intro d r s r' hr h
    obtain ⟨start, ts, first, hstart, hscans, hfirst, hk, hline, hcomments⟩ :=
      Reader.exists_tokens_of_next_sentence h
    have hleads := hr.leads.trans hstart.leads
    exact ⟨start, ts, first, hstart, hscans, hfirst, hk, hline, hcomments,
      fun t ht hk => hscans.foundBetween hleads ht hk⟩
  · intro d r e r' hr h
    obtain ⟨start, ts, hstart, ⟨c, exhausted, hscans, hfault⟩ | ⟨hscans, t, ht, hat⟩⟩ :=
      Reader.malformed_cases h
    · have hleads := hr.leads.trans (hstart.leads.trans hscans.leads)
      obtain ⟨hpasses, hreports⟩ := SyntaxError.reports_of_scan hleads hfault
      exact ⟨start, ts, hstart, .inl ⟨c, exhausted, hscans, hfault, hpasses, hreports⟩⟩
    · refine ⟨start, ts, hstart, .inr ⟨hscans, t, ht, hat, fun hk => ?_⟩⟩
      obtain ⟨before, first, after, hbefore, hfound, hafter⟩ :=
        hscans.foundBetween (hr.leads.trans hstart.leads) ht hk
      refine ⟨before, first, after, hbefore, hfound, hafter, Place.Marks.reports ?_⟩
      exact hat.place ▸ hfound.marks
  · rintro bytes flags b c rfl h
    obtain ⟨hfrom, htracks⟩ := h.tracks
    obtain ⟨s, hs, hmatches⟩ :=
      htracks.release.scanFrom? (Bytes.isJoined_lines bytes) flags false
    exact ⟨hfrom, s, hs, hmatches.places⟩
  · rintro bytes d s r rfl h
    obtain ⟨run, hrun, houtcome, -, b, start, hbeside, hstarts⟩ := h.next? d
    refine ⟨h.reachedFrom, run, hrun, houtcome, fun start' hstart t ht => ?_, fun e he => ?_⟩
    · obtain rfl := hstarts start' hstart
      exact hbeside.exists_keeps ht
    · exact hbeside.exists_keeps_malformed he

/-- A clause and a comment before a directive that turns out to be malformed lines behind its first
operator. -/
def lateClash : Text :=
  "p. % one\n:- dynamic\n  a :-\n  b.\n"

/-- The reader behind the clause. -/
def beforeLateClash : Reader :=
  ((Reader.ofCursor (.ofText lateClash) 0).next .standard).2

theorem places_reported_lateClash :
    ∃ e r', beforeLateClash.next .standard = (.error (.malformed e), r') ∧
      e.place = ⟨2, 1, ":- dynamic\n"⟩ ∧
      ∃ start ts, beforeLateClash.StartsAt Dialect.standard.flags start ∧
        ((∃ c exhausted, Scans Dialect.standard.flags start ts c ∧
            scan Dialect.standard.flags c = .fault e r'.cursor exhausted ∧
            c.PassesTo Dialect.standard.flags false r'.cursor ∧
            e.Reports ((Cursor.ofText lateClash).upTo r'.cursor) r'.cursor.remaining) ∨
          Scans Dialect.standard.flags start ts r'.cursor ∧ ∃ t ∈ ts, e.IsAt t ∧
            (t.kind ≠ .endOfFile → ∃ before first after, start.Leads before ∧
              t.FoundAt Dialect.standard.flags lateClash before first after ∧
              after.Leads r'.cursor ∧
              e.Reports ((Cursor.ofText lateClash).upTo first) first.remaining)) := by
  have hplace : (beforeLateClash.next .standard).1.place? = some ⟨2, 1, ":- dynamic\n"⟩ := by
    decide +kernel
  obtain ⟨e, he, hplace⟩ := Outcome.exists_of_place? hplace
  have hnext : beforeLateClash.next .standard =
      (.error (.malformed e), (beforeLateClash.next .standard).2) := by rw [← he]
  have hreached : beforeLateClash.ReachedFrom lateClash := .next .standard (.start 0)
  exact ⟨e, _, hnext, hplace,
    (Text.places_reported lateClash).2.2.2.1 .standard beforeLateClash e _ hreached hnext⟩

end PrologText
