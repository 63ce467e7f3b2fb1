import PrologText.Proofs.LineBuffers
import PrologText.Proofs.Motion

/-!
# Cursors and buffers of lines

A cursor has all its lines before it, decoded; a buffer asks for them when it needs them and gives
them up. Main statements: a point that the buffer holds has the place of the cursor there
(`LineBuffer.Of.position_mark`, `LineBuffer.Of.lineText_mark`); both move in step, and the buffer
stands for a place in the whole text (`LineBuffer.Reached.refines_cursor`).
-/

namespace PrologText

namespace Text

theorem bytes_eq_nil_iff {t : Text} : t.bytes = [] ↔ t = [] := by
  cases t with
  | nil => exact iff_of_true rfl rfl
  | cons g t => simp [g.bytes_ne_nil]

theorem bytes_flatten_ofBytes (lines : List (List UInt8)) :
    bytes (lines.map ofBytes).flatten = lines.flatten := by
  induction lines with
  | nil => rfl
  | cons line lines ih =>
    rw [List.map_cons, List.flatten_cons, bytes_append, bytes_ofBytes, ih, List.flatten_cons]

end Text

/-! ## Cursors in lines of bytes -/

namespace Cursor

/-- The point in lines of bytes where a cursor stands. -/
def mark (c : Cursor) : Mark :=
  ⟨c.number, (Text.bytes (c.whole.take c.column)).length⟩

/-- A cursor in lines of bytes. -/
structure In (lines : List (List UInt8)) (c : Cursor) : Prop where
  ending : c.ending = .endOfInput
  whole : c.whole = .ofBytes (lines.getD c.number [])
  later : c.later = (lines.drop (c.number + 1)).map .ofBytes
  inLine : c.InLine

variable {lines : List (List UInt8)} {c d : Cursor}

theorem in_ofLines (lines : List (List UInt8)) :
    (ofLines (lines.map .ofBytes) .endOfInput).In lines := by
  cases lines with
  | nil => exact ⟨rfl, Text.ofBytes_nil.symm, rfl, inLine_atLine ..⟩
  | cons line lines => exact ⟨rfl, rfl, rfl, inLine_atLine ..⟩

theorem mark_ofLines (lines : List Text) (ending : Ending) :
    (ofLines lines ending).mark = ⟨0, 0⟩ := by
  cases lines <;> rfl

theorem In.of_leads (h : c.In lines) (hd : c.Leads d) : d.In lines := by
  rcases hd.lines with ⟨hnumber, hwhole, hlater, -⟩ | ⟨hlt, hlater⟩
  · exact ⟨hd.ending.trans h.ending, by rw [hwhole, h.whole, hnumber],
      by rw [hlater, h.later, hnumber], hd.inLine h.inLine⟩
  · have hsum : c.number + 1 + (d.number - c.number - 1) = d.number := by omega
    rw [h.later, ← List.map_drop, List.drop_drop, hsum] at hlater
    obtain ⟨line, later, hlines, hwhole, hlater⟩ := List.map_eq_cons_iff.1 hlater
    have hline : lines.getD d.number [] = line := by
      rw [List.getD_eq_getElem?_getD, ← List.head?_drop, hlines]
      rfl
    have hdrop : lines.drop (d.number + 1) = later := by
      rw [← List.drop_drop, hlines]
      rfl
    exact ⟨hd.ending.trans h.ending, by rw [hline, hwhole], by rw [hdrop, hlater],
      hd.inLine h.inLine⟩

theorem In.bytes_whole (h : c.In lines) :
    Text.bytes (c.whole.take c.column) ++ Text.bytes c.rest = c.mark.whole lines := by
  rw [← Text.bytes_append, c.take_column_append_rest, h.whole, Text.bytes_ofBytes]
  rfl

theorem In.bytes_rest (h : c.In lines) : Text.bytes c.rest = c.mark.rest lines := by
  rw [Mark.rest, ← h.bytes_whole]
  exact List.drop_left.symm

theorem In.inLine_mark (h : c.In lines) : c.mark.InLine lines := by
  rw [Mark.InLine, ← h.bytes_whole, List.length_append]
  exact Nat.le_add_right _ _

theorem In.bytes_remaining (h : c.In lines) :
    Text.bytes c.remaining = lines.flatten.drop (c.mark.offset lines) := by
  rw [Mark.drop_offset h.inLine_mark, ← h.bytes_rest, remaining, Text.bytes_append, h.later,
    Text.bytes_flatten_ofBytes]
  rfl

theorem In.isJoined_rest (h : c.In lines) : Text.IsJoined c.rest := by
  have hjoined : Text.IsJoined c.whole := h.whole ▸ Text.isJoined_ofBytes _
  rw [c.rest_eq]
  exact hjoined.of_isInfix (List.drop_suffix _ _).isInfix

/-! ## Moves -/

theorem In.mark_skipEmpty {later : List Text} (h : c.In lines) (hl : c.later = later) :
    (c.skipEmpty later).mark = c.mark.skipEmpty (lines.drop (c.number + 1)) := by
  induction later generalizing c with
  | nil =>
    rw [h.later, List.map_eq_nil_iff] at hl
    rw [hl]
    rfl
  | cons text later ih =>
    have hnext : (atLine (c.number + 1) text later c.ending).In lines :=
      h.of_leads (leads_atLine hl)
    obtain ⟨line, lines', hlines, rfl, hlater⟩ :=
      List.map_eq_cons_iff.1 (h.later.symm.trans hl)
    have hempty : (Text.ofBytes line).isEmpty = line.isEmpty := by
      rw [Bool.eq_iff_iff, List.isEmpty_iff, List.isEmpty_iff, Text.ofBytes_eq_nil_iff]
    have hdrop : lines.drop (c.number + 1 + 1) = lines' := by
      rw [← List.drop_drop, hlines]
      rfl
    rw [hlines, skipEmpty, Mark.skipEmpty, hempty]
    split
    · rw [ih hnext rfl, ← hdrop]
      rfl
    · rfl

theorem In.mark_fill (h : c.In lines) : c.fill.mark = c.mark.filled lines := by
  have hempty : c.rest = [] ↔ c.mark.rest lines = [] := by
    rw [← h.bytes_rest, Text.bytes_eq_nil_iff]
  by_cases hr : c.rest = []
  · rw [Mark.filled_of_rest_nil (hempty.1 hr), fill, if_pos (by simp [hr]), h.mark_skipEmpty rfl]
    rfl
  · rw [Mark.filled_of_rest_ne_nil (mt hempty.2 hr), fill, if_neg (by simpa using hr)]

theorem mark_advance (c : Cursor) (n : Nat) :
    (c.advance n).mark =
      ⟨c.mark.line, c.mark.column + (Text.bytes (c.rest.take n)).length⟩ := by
  have htake : c.whole.take (c.column + n) = c.whole.take c.column ++ c.rest.take n := by
    rw [c.rest_eq, List.take_add]
  simp only [mark, advance, htake, Text.bytes_append, List.length_append]

theorem In.peek_eq (h : c.In lines) : c.peek = .ok c.fill.rest.head? := by
  have hending : c.fill.ending = .endOfInput := (h.of_leads c.leads_fill).ending
  unfold peek
  cases hr : c.fill.rest with
  | nil => simp only [hr, hending]; rfl
  | cons g t => simp only [hr]; rfl

/-- The bytes up to a later cursor. -/
theorem In.bytes_upTo (h : d.In lines) (hd : d.Leads c) :
    Text.bytes (d.upTo c) = (lines.flatten.drop (d.mark.offset lines)).take
      (c.mark.offset lines - d.mark.offset lines) := by
  have hc := h.of_leads hd
  have hsplit := congrArg Text.bytes hd.remaining_eq
  rw [Text.bytes_append, h.bytes_remaining, hc.bytes_remaining] at hsplit
  have hlength := congrArg List.length hsplit
  have hle := Mark.offset_le hc.inLine_mark
  have hle' := Mark.offset_le h.inLine_mark
  rw [List.length_append, List.length_drop, List.length_drop] at hlength
  rw [hsplit]
  exact (List.take_left' (by omega)).symm

/-- The point at the end of the lines. -/
theorem In.toEnd_spec (h : c.In lines) :
    c.toEnd.mark.rest lines = [] ∧ lines.drop (c.toEnd.number + 1) = [] ∧
      (c.toEnd.number = c.number ∨ c.toEnd.number < lines.length) := by
  have hin := h.of_leads c.leads_toEnd
  have hunread := c.unread_toEnd
  have hrest : c.toEnd.rest = [] := by
    rw [← List.length_eq_zero_iff]
    rw [unread] at hunread
    omega
  have hlater : c.toEnd.later = [] := by
    cases hl : c.toEnd.later with
    | nil => rfl
    | cons line later =>
      rw [unread, hl, extent] at hunread
      omega
  refine ⟨?_, ?_, ?_⟩
  · rw [← hin.bytes_rest, hrest]
    rfl
  · rw [hin.later, List.map_eq_nil_iff] at hlater
    exact hlater
  · rcases c.leads_toEnd.lines with ⟨hnumber, -⟩ | ⟨hlt, hlines⟩
    · exact .inl hnumber
    · have hlength := congrArg List.length hlines
      simp only [h.later, List.length_drop, List.length_map, List.length_cons] at hlength
      omega

end Cursor

/-! ## Buffers beside cursors -/

namespace LineBuffer

/-- A buffer stands where a cursor stands. -/
def Follows (lines : List (List UInt8)) (b : LineBuffer) (c : Cursor) : Prop :=
  c.In lines ∧ b.mark = c.mark

/-- A buffer and a cursor that stand in one place make the same moves and see the same text. -/
structure MovesWith (lines : List (List UInt8)) (b : LineBuffer) (marks : List Mark)
    (c : Cursor) : Prop where
  fill : b.fill.1.Follows lines c.fill
  fill_eq_false_iff : b.fill.2 = false ↔ c.fill.rest = []
  rest_fill : b.fill.1.rest = Text.bytes c.fill.rest
  peek : c.peek = .ok b.peek.2
  /-- As soon as a line was asked for, the buffer has the rest of it as well. -/
  rest : b.held ≠ [] → b.rest = Text.bytes c.rest
  advance : ∀ n ≤ c.rest.length,
    (b.advance (Text.bytes (c.rest.take n)).length).Follows lines (c.advance n)
  skipGlyph : c.fill.rest ≠ [] → b.skipGlyph.Follows lines (c.fill.advance 1)
  skipAll : b.skipAll.Follows lines c.toEnd
  release : b.release.Follows lines c
  seek : ∀ d : Cursor, d.In lines → d.mark ∈ marks →
    ∃ b', b.seek d.mark = some b' ∧ b'.Follows lines d
  text : ∀ d : Cursor, d.In lines → d.mark ∈ marks → d.Leads c →
    b.text d.mark = Text.bytes (d.upTo c)
  position : ∀ d : Cursor, d.In lines → d.mark ∈ marks →
    b.position d.mark = (d.place.line, d.place.column)
  /-- As soon as a line was asked for, the buffer has the text of a line as well. -/
  lineText : ∀ d : Cursor, d.In lines → d.mark ∈ marks → (b.held = [] → b.pending = []) →
    .ofBytes (b.lineText d.mark) = d.place.text

variable {lines : List (List UInt8)} {b : LineBuffer} {marks : List Mark} {c : Cursor}

theorem follows_ofLines (lines : List (List UInt8)) :
    (ofLines lines).Follows lines (.ofLines (lines.map .ofBytes) .endOfInput) :=
  ⟨Cursor.in_ofLines lines, (Cursor.mark_ofLines ..).symm⟩

theorem Of.line_le (h : b.Of lines) : b.mark.line ≤ lines.length - 1 := by
  have hlength := h.length_eq
  rcases h.mark.2 with ⟨hlt, -⟩ | ⟨hheld, hmark⟩
  · omega
  · rw [hmark, h.base_eq hheld]
    exact Nat.zero_le _

theorem Of.rest_eq_of_held (h : b.Of lines) (hheld : b.held ≠ []) :
    b.rest = b.mark.rest lines := by
  have hle := h.mark.1
  rcases h.mark.2 with ⟨hlt, -⟩ | ⟨hnil, -⟩
  · exact h.rest_eq (by omega)
  · exact absurd hnil hheld

theorem Of.follows_skipAll (h : b.Of lines) (hf : b.Follows lines c) :
    b.skipAll.Follows lines c.toEnd := by
  obtain ⟨hin, hmark⟩ := hf
  have hended := h.ended_skipAll
  have htoEnd := hin.of_leads c.leads_toEnd
  obtain ⟨hrest, hlater, hnumber⟩ := hin.toEnd_spec
  -- Both points are at the end of the last line.
  have hline : b.skipAll.mark.line = c.toEnd.mark.line := by
    have hle := h.line_le
    have hle' := hended.of.line_le
    have hge := List.drop_eq_nil_iff.1 hended.later
    have hge' := List.drop_eq_nil_iff.1 hlater
    have hhere : b.mark.line = c.number := congrArg Mark.line hmark
    show b.skipAll.mark.line = c.toEnd.number
    omega
  refine ⟨htoEnd, Mark.eq_of_rest_nil hline (hended.of.inLine hended.of.mark) hended.rest
    htoEnd.inLine_mark hrest⟩

/-- A point tells the line and the column of a cursor that stands there. -/
theorem Of.position_mark (h : b.Of lines) (hc : c.In lines) (hm : b.Has c.mark) :
    b.position c.mark = (c.place.line, c.place.column) := by
  have htake : (c.whole.take c.column).length = c.column := List.length_take_of_le hc.inLine
  rcases hm with ⟨hle, ⟨hlt, hcolumn⟩ | ⟨hheld, hmark⟩⟩
  · have hline : b.lineText c.mark = c.mark.whole lines := by
      rw [LineBuffer.lineText, if_pos ⟨hle, hlt⟩, h.lineAt_eq hle hlt]
      rfl
    have hbytes : (c.mark.whole lines).take c.mark.column =
        Text.bytes (c.whole.take c.column) := by
      rw [← hc.bytes_whole]
      exact List.take_left
    have hjoined : Text.IsJoined (c.whole.take c.column) := by
      rw [hc.whole]
      exact (Text.isJoined_ofBytes _).of_isInfix (List.take_prefix _ _).isInfix
    rw [LineBuffer.position, hline, if_pos (show c.mark.column ≤ _ from hc.inLine_mark), hbytes,
      show Text.ofBytes (Text.bytes (c.whole.take c.column)) = _ from hjoined, htake]
    rfl
  · -- Before the first line is asked for there is only one point.
    have hcolumn : Text.bytes (c.whole.take c.column) = [] :=
      List.length_eq_zero_iff.1 (congrArg Mark.column hmark)
    rw [Text.bytes_eq_nil_iff] at hcolumn
    rw [hcolumn] at htake
    have hline : b.lineText c.mark = [] := if_neg (by rw [hheld, hmark]; simp)
    rw [LineBuffer.position, hline, hmark, List.take_nil, Text.ofBytes_nil]
    show (b.base + 1, 1) = (c.number + 1, c.column + 1)
    rw [← htake, show c.number = b.base from congrArg Mark.line hmark]
    rfl

theorem Of.lineText_mark (h : b.Of lines) (hc : c.In lines) (hm : b.Has c.mark)
    (hasked : b.held = [] → b.pending = []) : .ofBytes (b.lineText c.mark) = c.place.text := by
  show _ = c.whole
  rw [hc.whole]
  rcases hm with ⟨hle, ⟨hlt, -⟩ | ⟨hheld, hmark⟩⟩
  · rw [LineBuffer.lineText, if_pos ⟨hle, hlt⟩, h.lineAt_eq hle hlt]
    rfl
  · have hlength := h.length_eq
    rw [hheld, hasked hheld, h.base_eq hheld] at hlength
    have hnil : lines = [] := List.length_eq_zero_iff.1 hlength
    rw [LineBuffer.lineText, if_neg (by rw [hheld, hmark]; simp), hnil]
    rfl

theorem firstWidth_bytes {g : Glyph} {t : Text} (h : Text.IsJoined (g :: t)) :
    firstWidth (Text.bytes (g :: t)) = g.bytes.length := by
  rw [firstWidth, show Text.ofBytes (Text.bytes (g :: t)) = g :: t from h]
  rfl

/-- What buffers come to, cursors come to as well. -/
theorem Reached.movesWith (h : Reached lines b marks) (hf : b.Follows lines c) :
    b.MovesWith lines marks c := by
  obtain ⟨hof, hmarks⟩ := h.of
  have hrefines := h.refinesOffset
  have hfill := hof.filled_fill
  obtain ⟨hin, hmark⟩ := hf
  have hinFill := hin.of_leads c.leads_fill
  have hmarkFill : b.fill.1.mark = c.fill.mark := by rw [hfill.mark, hmark, hin.mark_fill]
  have hrestFill : b.fill.1.rest = Text.bytes c.fill.rest := by
    rw [hfill.rest, hmarkFill, hinFill.bytes_rest]
  have hjoined : Text.ofBytes (Text.bytes c.fill.rest) = c.fill.rest := hinFill.isJoined_rest
  exact {
    fill := ⟨hinFill, hmarkFill⟩
    fill_eq_false_iff := by rw [hfill.eq_false_iff, hrestFill, Text.bytes_eq_nil_iff]
    rest_fill := hrestFill
    peek := by rw [hin.peek_eq, hrefines.peek, hrestFill, hjoined]
    rest := fun hheld => by rw [hof.rest_eq_of_held hheld, hmark, hin.bytes_rest]
    advance := fun n hn => ⟨hin.of_leads (Cursor.leads_advance hn), by
      rw [c.mark_advance, ← hmark]
      rfl⟩
    skipGlyph := fun hne => by
      obtain ⟨g, t, hr⟩ := List.exists_cons_of_ne_nil hne
      refine ⟨hinFill.of_leads (Cursor.leads_advance (by simp [hr])), ?_⟩
      have htake : Text.bytes ((g :: t).take 1) = g.bytes := List.append_nil g.bytes
      rw [hof.skipGlyph.2.2, c.fill.mark_advance, hrestFill, hmarkFill, hr, htake,
        firstWidth_bytes (hr ▸ hinFill.isJoined_rest)]
    skipAll := hof.follows_skipAll ⟨hin, hmark⟩
    release := ⟨hin, hof.release.2.trans hmark⟩
    seek := fun d hd hm => ⟨b.moved d.mark, seek_of_has (hmarks _ hm), hd, rfl⟩
    text := fun d hd hm hleads => by
      rw [hrefines.text _ hm, hmark, hd.bytes_upTo hleads]
    position := fun d hd hm => hof.position_mark hd (hmarks _ hm)
    lineText := fun d hd hm => hof.lineText_mark hd (hmarks _ hm) }

/-- Whatever is done with it, a buffer stands for a place in the whole text of its lines; and it
starts and moves as a cursor does that has all of the lines. -/
theorem Reached.refines_cursor (h : Reached lines b marks) :
    b.RefinesOffset lines marks ∧
      (ofLines lines).Follows lines (.ofLines (lines.map .ofBytes) .endOfInput) ∧
      ∀ c, b.Follows lines c → b.MovesWith lines marks c :=
  ⟨h.refinesOffset, follows_ofLines lines, fun _ hf => h.movesWith hf⟩

/-- A line without a newline, an empty one, and one with a character of two bytes. -/
def unevenLines : List (List UInt8) :=
  [[104, 105], [], [206, 187, 10]]

/-- The buffer behind that character. -/
def amidUneven : LineBuffer :=
  ((ofLines unevenLines).fill.1.advance 2).skipGlyph

def cursorAmidUneven : Cursor :=
  ((Cursor.ofLines (unevenLines.map .ofBytes) .endOfInput).fill.advance 2).fill.advance 1

theorem refines_cursor_amidUneven :
    amidUneven.RefinesOffset unevenLines [⟨0, 0⟩] ∧ amidUneven.mark = ⟨2, 2⟩ ∧
      amidUneven.mark.offset unevenLines = 4 ∧ amidUneven.text ⟨0, 0⟩ = [104, 105, 206, 187] ∧
      amidUneven.MovesWith unevenLines [⟨0, 0⟩] cursorAmidUneven := by
  have hstart : Reached unevenLines (ofLines unevenLines) [⟨0, 0⟩] := .mark .start
  have hpassed : Reached unevenLines ((ofLines unevenLines).fill.1.advance 2) [⟨0, 0⟩] :=
    .advance (.fill hstart) (by decide +kernel)
  have hcursor : amidUneven.Follows unevenLines cursorAmidUneven := by
    have hfill := (hstart.movesWith (follows_ofLines unevenLines)).fill
    have hadvance := (hstart.fill.movesWith hfill).advance 2 (by decide +kernel)
    have hwidth : (Text.bytes ((Cursor.ofLines (unevenLines.map .ofBytes)
        .endOfInput).fill.rest.take 2)).length = 2 := by
      decide +kernel
    rw [hwidth] at hadvance
    exact (hpassed.movesWith hadvance).skipGlyph (by decide +kernel)
  obtain ⟨hrefines, -, hmoves⟩ := Reached.refines_cursor (.skipGlyph hpassed)
  exact ⟨hrefines, by decide +kernel, by decide +kernel, by decide +kernel, hmoves _ hcursor⟩

end LineBuffer

end PrologText
