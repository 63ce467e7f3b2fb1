import PrologText.Proofs.ByteSlices
import PrologText.Proofs.Concatenation
import PrologText.Proofs.LineCursors

/-!
# Looking into a buffer of lines

What is done with a buffer comes down to look-ups of lines by their numbers and to slices of them.
Here a look-up goes wrong where the line is not held, and a slice where the line is not that long.
Main statements: in a buffer of lines nothing goes wrong (`LineBuffer.Of.fill?_eq`,
`LineBuffer.Of.rest?_eq`, `LineBuffer.Of.text?_eq`), what is left to be read is told by the place in
the whole text (`LineBuffer.Of.left_eq`), and the lines of some bytes are those of their text
(`Bytes.map_ofBytes_lines`).
-/

namespace PrologText

namespace LineBuffer

/-- The line with number `n`, if it is held. -/
def line? (b : LineBuffer) (n : Nat) : Option (List UInt8) :=
  if n < b.base then none else b.held[n - b.base]?

/-- What the line has from the point on; nothing if the line has not been asked for. -/
def rest? (b : LineBuffer) : Option (List UInt8) :=
  if b.base + b.held.length ≤ b.mark.line then some []
  else do
    let line ← b.line? b.mark.line
    Bytes.from? line b.mark.column

theorem lag_newLine_lt_of_lt {b : LineBuffer} (h : b.mark.line < b.base + b.held.length) :
    b.newLine.lag < b.lag := by
  simp only [lag, newLine, moved, Mark.newLine]
  omega

/-- Moves the point on to a line that has something to read, and tells whether there is one. -/
def fill? (b : LineBuffer) : Option (LineBuffer × Bool) :=
  if hi : b.mark.line < b.base + b.held.length then do
    let line ← b.line? b.mark.line
    if b.mark.column < line.length then some (b, true)
    else if b.mark.line + 1 = b.base + b.held.length then
      match hp : b.pull with
      | (b', false) => some (b', false)
      | (b', true) =>
        have : b'.newLine.lag < b.lag := Nat.lt_of_le_of_lt b'.lag_newLine_le (lag_pull_lt hp)
        fill? b'.newLine
    else
      have : b.newLine.lag < b.lag := lag_newLine_lt_of_lt hi
      fill? b.newLine
  else
    match hp : b.pull with
    | (b', false) => some (b', false)
    | (b', true) =>
      have : b'.lag < b.lag := lag_pull_lt hp
      fill? b'
termination_by b.lag

/-- The next character, if there is one. -/
def peek? (b : LineBuffer) : Option (LineBuffer × Option Char) := do
  let (d, found) ← b.fill?
  if found then
    let rest ← d.rest?
    some (d, some (Bytes.rune rest).1)
  else some (d, none)

/-- Moves over one character. -/
def skipGlyph? (b : LineBuffer) : Option LineBuffer := do
  let (d, found) ← b.fill?
  if found then
    let rest ← d.rest?
    some (d.advance (Bytes.rune rest).2)
  else some d

/-- The bytes of a line from `i` up to `j`, if `j` is behind `i`. -/
def piece? (line : List UInt8) (i j : Nat) : Option (List UInt8) :=
  if i < j then Bytes.slice? line i j else some []

/-- What lines from number `n` on have up to the point, the first of them from a column on. -/
def textFrom? (b : LineBuffer) : Nat → Nat → Nat → Option (List UInt8)
  | 0, _, _ => some []
  | count + 1, n, column =>
    if b.base + b.held.length ≤ n then some []
    else do
      let line ← b.line? n
      let piece ← piece? line column (if n = b.mark.line then b.mark.column else line.length)
      let behind ← b.textFrom? count (n + 1) 0
      some (piece ++ behind)

/-- What the lines have from an earlier point on. -/
def text? (b : LineBuffer) (m : Mark) : Option (List UInt8) :=
  b.textFrom? (b.mark.line + 1 - m.line) m.line m.column

/-- The number of bytes that are left to be read. -/
def left (b : LineBuffer) : Nat :=
  (b.rest ++ (b.held.drop (b.mark.line - b.base + 1)).flatten ++ b.pending.flatten).length

/-- Moves over all that is left. -/
def skipAll? (b : LineBuffer) : Option LineBuffer :=
  match b.fill? with
  | none => none
  | some (d, false) => some d
  | some (d, true) =>
    match d.rest? with
    | none => none
    | some rest =>
      if (d.advance rest.length).left < b.left then skipAll? (d.advance rest.length) else none
termination_by b.left

variable {lines : List (List UInt8)} {b : LineBuffer} {m : Mark}

theorem line?_eq {n : Nat} (hle : b.base ≤ n) (hlt : n < b.base + b.held.length) :
    b.line? n = some (b.lineAt n) := by
  have hlt' : n - b.base < b.held.length := by omega
  rw [line?, if_neg (Nat.not_lt.2 hle), lineAt, List.getD_eq_getElem?_getD,
    List.getElem?_eq_getElem hlt']
  rfl

theorem Of.rest?_eq (h : b.Of lines) : b.rest? = some b.rest := by
  unfold LineBuffer.rest?
  split
  · next hge =>
    rcases h.mark.2 with ⟨hlt, -⟩ | ⟨hheld, -⟩
    · omega
    · simp [LineBuffer.rest, lineAt, hheld]
  · next hlt =>
    rw [line?_eq h.mark.1 (by omega)]
    exact Bytes.from?_of_le h.column_le

/-- Filling, case by case, in a buffer of lines. -/
theorem Of.fill?_step (h : b.Of lines) :
    b.fill? =
      if b.mark.line - b.base < b.held.length then
        if b.mark.column < (b.lineAt b.mark.line).length then some (b, true)
        else if b.mark.line - b.base + 1 = b.held.length then
          if b.pull.2 then b.pull.1.newLine.fill? else some b.pull
        else b.newLine.fill?
      else if b.pull.2 then b.pull.1.fill? else some b.pull := by
  have hle := h.mark.1
  rw [LineBuffer.fill?]
  by_cases hlt : b.mark.line < b.base + b.held.length
  · have hi : b.mark.line - b.base < b.held.length := by omega
    rw [dif_pos hlt, if_pos hi, line?_eq hle hlt, Option.bind_eq_bind, Option.bind_some]
    by_cases hc : b.mark.column < (b.lineAt b.mark.line).length
    · rw [if_pos hc, if_pos hc]
    · rw [if_neg hc, if_neg hc]
      by_cases hl : b.mark.line + 1 = b.base + b.held.length
      · have hl' : b.mark.line - b.base + 1 = b.held.length := by omega
        rw [if_pos hl, if_pos hl']
        split <;> next hp => simp [hp]
      · have hl' : b.mark.line - b.base + 1 ≠ b.held.length := by omega
        rw [if_neg hl, if_neg hl']
  · have hi : ¬b.mark.line - b.base < b.held.length := by omega
    rw [dif_neg hlt, if_neg hi]
    split <;> next hp => simp [hp]

theorem Of.fill?_eq (h : b.Of lines) : b.fill? = some b.fill := by
  fun_induction fill b with
  | case1 b hi hc => rw [h.fill?_step, if_pos hi, if_pos hc]
  | case2 b hi hc hl b' hp => rw [h.fill?_step, if_pos hi, if_neg hc, if_pos hl, hp]; rfl
  | case3 b hi hc hl b' hp _ ih =>
    obtain ⟨hof, hgrows, hmark, hheld⟩ := h.pull_true hp
    have hbase := hgrows.1
    have hle := h.mark.1
    rw [h.fill?_step, if_pos hi, if_neg hc, if_pos hl, hp]
    exact ih (hof.newLine (by rw [hmark]; omega))
  | case4 b hi hc hl _ ih =>
    have hle := h.mark.1
    rw [h.fill?_step, if_pos hi, if_neg hc, if_neg hl]
    exact ih (h.newLine (by omega))
  | case5 b hi b' hp => rw [h.fill?_step, if_neg hi, hp]; rfl
  | case6 b hi b' hp _ ih =>
    rw [h.fill?_step, if_neg hi, hp]
    exact ih (h.pull_true hp).1

theorem piece?_eq {line : List UInt8} {i j : Nat} (hj : j ≤ line.length) :
    piece? line i j = some ((line.take j).drop i) := by
  unfold piece?
  split
  · next hlt => rw [Bytes.slice?, if_pos ⟨Nat.le_of_lt hlt, hj⟩]
  · rw [List.drop_eq_nil_of_le (by rw [List.length_take]; omega)]

theorem Of.textFrom?_eq (h : b.Of lines) {count n column : Nat} (hle : b.base ≤ n)
    (hlt : n + count ≤ b.mark.line + 1) (hheld : b.mark.line < b.base + b.held.length) :
    b.textFrom? count n column = some (Mark.slices b.lineAt b.mark count n column) := by
  induction count generalizing n column with
  | zero => rfl
  | succ count ih =>
    have hcolumn := h.column_le
    have hstop : (if n = b.mark.line then b.mark.column else (b.lineAt n).length) ≤
        (b.lineAt n).length := by
      split
      · next hn => rwa [hn]
      · exact Nat.le_refl _
    rw [textFrom?, if_neg (by omega), line?_eq hle (by omega), ih (by omega) (by omega)]
    simp only [Option.bind_eq_bind, Option.bind_some, piece?_eq hstop]
    rfl

theorem slices_nil (stop : Mark) (count n column : Nat) :
    Mark.slices (fun _ => []) stop count n column = [] := by
  induction count generalizing n column with
  | zero => rfl
  | succ count ih => simp [Mark.slices, Mark.slice, ih]

theorem Of.text?_eq (h : b.Of lines) (hm : b.Has m) : b.text? m = some (b.text m) := by
  have hbase := hm.1
  rcases h.mark.2 with ⟨hlt, -⟩ | ⟨hheld, hmark⟩
  · by_cases hle : m.line ≤ b.mark.line
    · exact h.textFrom?_eq hbase (by omega) hlt
    · have hcount : b.mark.line + 1 - m.line = 0 := by omega
      rw [LineBuffer.text?, LineBuffer.text, Mark.between, hcount]
      rfl
  · -- Before the first line is asked for there is nothing between two points.
    have hlines : b.lineAt = fun _ => [] := by
      funext n
      simp [lineAt, hheld]
    have hnone : b.text m = [] := by
      rw [LineBuffer.text, Mark.between, hlines, slices_nil]
    rw [hnone, LineBuffer.text?]
    cases b.mark.line + 1 - m.line with
    | zero => rfl
    | succ count => rw [textFrom?, if_pos (by rw [hheld]; exact hbase)]

theorem Of.left_eq (h : b.Of lines) :
    b.left = lines.flatten.length - b.mark.offset lines := by
  have hinLine := h.inLine h.mark
  rw [← List.length_drop, Mark.drop_offset hinLine, left, List.append_assoc, ← List.flatten_append]
  have hle := h.mark.1
  rcases h.mark.2 with ⟨hlt, -⟩ | ⟨hheld, hmark⟩
  · have hdrop : b.held.drop (b.mark.line - b.base + 1) ++ b.pending =
        lines.drop (b.mark.line + 1) := by
      rw [← List.drop_append_of_le_length (by omega), h.held, List.drop_drop]
      congr 1
      omega
    rw [hdrop, h.rest_eq (by omega)]
  · have hlines := h.held
    rw [h.base_eq hheld, hheld, List.nil_append, List.drop_zero] at hlines
    rw [hmark, h.base_eq hheld, hheld, hlines]
    cases lines <;> simp [LineBuffer.rest, lineAt, hheld, Mark.rest, Mark.whole]

/-! ## Buffers beside cursors -/

theorem exhausted_fill (h : b.fill.2 = false) : b.fill.1.exhausted = true := by
  fun_induction fill b with
  | case1 => cases h
  | case2 _ _ _ _ _ hp | case5 _ _ _ hp => rw [(eq_of_pull_false hp).1]
  | case3 _ _ _ _ _ _ _ ih | case4 _ _ _ _ _ ih | case6 _ _ _ _ _ ih => exact ih h

/-- A buffer stands where a cursor stands, and has asked for the line. -/
structure Stands (lines : List (List UInt8)) (b : LineBuffer) (c : Cursor) : Prop where
  of : b.Of lines
  inside : c.In lines
  mark : b.mark = c.mark
  asked : b.held = [] → b.pending = []

/-- A buffer stands in the place of a cursor, which can be the end of a line for the one and the
start of the next line for the other. -/
structure Tracks (lines : List (List UInt8)) (b : LineBuffer) (c : Cursor) : Prop where
  of : b.Of lines
  inside : c.In lines
  filled : b.mark.filled lines = c.mark.filled lines

variable {c : Cursor}

theorem Stands.tracks (h : b.Stands lines c) : b.Tracks lines c :=
  ⟨h.of, h.inside, by rw [h.mark]⟩

theorem tracks_ofLines (lines : List (List UInt8)) :
    (ofLines lines).Tracks lines (.ofLines (lines.map .ofBytes) .endOfInput) :=
  ⟨of_ofLines lines, Cursor.in_ofLines lines, by rw [Cursor.mark_ofLines]; rfl⟩

theorem Stands.rest?_eq (h : b.Stands lines c) : b.rest? = some (Text.bytes c.rest) := by
  rw [h.of.rest?_eq, h.inside.bytes_rest, ← h.mark]
  by_cases hheld : b.held = []
  · have hlines := h.of.held
    rw [hheld, h.asked hheld, h.of.base_eq hheld] at hlines
    have hnil : lines = [] := hlines.symm
    simp [LineBuffer.rest, lineAt, hheld, Mark.rest, Mark.whole, hnil]
  · rw [h.of.rest_eq_of_held hheld]

theorem Stands.advance (h : b.Stands lines c) {k : Nat} (hk : k ≤ c.rest.length) :
    (b.advance (c.rest.width k)).Stands lines (c.advance k) := by
  have hrest : b.rest = Text.bytes c.rest := Option.some.inj (h.of.rest?_eq.symm.trans h.rest?_eq)
  refine ⟨h.of.moved (h.of.has_advance (by rw [hrest]; exact Text.width_le _ _)),
    h.inside.of_leads (Cursor.leads_advance hk), ?_, h.asked⟩
  rw [c.mark_advance, ← h.mark]
  rfl

theorem Stands.has (h : b.Stands lines c) : b.Has c.mark :=
  h.mark ▸ h.of.mark

/-- What filling a buffer comes to: it stands where the cursor stands that is filled. -/
theorem Tracks.fill? (h : b.Tracks lines c) :
    ∃ d, b.fill? = some (d, decide (c.fill.rest ≠ [])) ∧ d.Stands lines c.fill ∧ b.Grows d := by
  have hfill := h.of.filled_fill
  have hin := h.inside.of_leads c.leads_fill
  have hmark : b.fill.1.mark = c.fill.mark := by rw [hfill.mark, h.filled, h.inside.mark_fill]
  have hrest : b.fill.1.rest = [] ↔ c.fill.rest = [] := by
    rw [hfill.rest, hmark, ← hin.bytes_rest, Text.bytes_eq_nil_iff]
  refine ⟨b.fill.1, ?_, ⟨hfill.of, hin, hmark, fun hheld => ?_⟩, hfill.grows⟩
  · have hfound : b.fill.2 = decide (c.fill.rest ≠ []) := by
      rw [Bool.eq_iff_iff, decide_eq_true_eq, Ne, ← hrest, ← hfill.eq_false_iff]
      simp
    rw [h.of.fill?_eq, ← hfound]
  · have hnil : b.fill.1.rest = [] := by simp [LineBuffer.rest, lineAt, hheld]
    exact hfill.of.exhausted (exhausted_fill (hfill.eq_false_iff.2 hnil))

theorem Tracks.offset_eq (h : b.Tracks lines c) : b.mark.offset lines = c.mark.offset lines := by
  rw [← Mark.offset_filled (h.of.inLine h.of.mark), h.filled,
    Mark.offset_filled h.inside.inLine_mark]

theorem Tracks.left_eq (h : b.Tracks lines c) : b.left = (Text.bytes c.remaining).length := by
  rw [h.of.left_eq, h.offset_eq, h.inside.bytes_remaining, List.length_drop]

end LineBuffer

/-! ## Lines of bytes -/

namespace Bytes

/-- Puts bytes in front of the first of some lines. -/
def onFirst (bs : List UInt8) : List (List UInt8) → List (List UInt8)
  | [] => [bs]
  | line :: later => (bs ++ line) :: later

/-- Bytes cut behind each newline; only the last line may lack one. -/
def lines : List UInt8 → List (List UInt8)
  | [] => []
  | b :: s => if b = asciiByte '\n' then [b] :: lines s else onFirst [b] (lines s)

theorem lines_append {bs : List UInt8} (hne : bs ≠ []) (hbs : ∀ b ∈ bs, b ≠ asciiByte '\n')
    (s : List UInt8) : lines (bs ++ s) = onFirst bs (lines s) := by
  induction bs with
  | nil => contradiction
  | cons b bs ih =>
    obtain ⟨hb, hbs⟩ := List.forall_mem_cons.1 hbs
    rw [List.cons_append, lines, if_neg hb]
    cases bs with
    | nil => rfl
    | cons b' bs =>
      rw [ih (List.cons_ne_nil _ _) hbs]
      cases lines s <;> rfl

theorem lines_bytes {t : Text} (h : t.IsJoined) :
    lines (Text.bytes t) = t.lines.map Text.bytes := by
  induction t with
  | nil => rfl
  | cons g t ih =>
    by_cases hg : g = .char '\n'
    · subst hg
      rw [Text.lines_newline, List.map_cons, ← ih h.tail]
      rfl
    · have hbytes (b : UInt8) (hb : b ∈ g.bytes) : b ≠ asciiByte '\n' :=
        mt (h.eq_asciiByte_iff hb (by decide)).1 hg
      rw [Text.bytes_cons, lines_append g.bytes_ne_nil hbytes, ih h.tail, Text.lines_cons_of_ne hg]
      cases Text.lines t with
      | nil => simp [onFirst, Text.onFirst, Text.bytes]
      | cons line later => simp [onFirst, Text.onFirst]

/-- Lines are the same whether bytes are decoded before or after they are cut. -/
theorem map_ofBytes_lines (bytes : List UInt8) :
    (lines bytes).map Text.ofBytes = (Text.ofBytes bytes).lines := by
  have hjoined := Text.isJoined_ofBytes bytes
  have hlines := lines_bytes hjoined
  rw [Text.bytes_ofBytes] at hlines
  rw [hlines, List.map_map]
  conv => rhs; rw [← List.map_id (Text.ofBytes bytes).lines]
  refine List.map_congr_left fun line hline => ?_
  have hinfix : line <:+: Text.ofBytes bytes := by
    obtain ⟨before, behind, hsplit⟩ := List.append_of_mem hline
    rw [← Text.flatten_lines (Text.ofBytes bytes), hsplit]
    exact ⟨before.flatten, behind.flatten, by simp⟩
  exact hjoined.of_isInfix hinfix

theorem isJoined_lines (bytes : List UInt8) :
    Text.IsJoined ((lines bytes).map Text.ofBytes).flatten := by
  rw [map_ofBytes_lines, Text.flatten_lines]
  exact Text.isJoined_ofBytes bytes

theorem tracks_lines (bytes : List UInt8) :
    (LineBuffer.ofLines (lines bytes)).Tracks (lines bytes) (.ofText (.ofBytes bytes)) := by
  rw [Cursor.ofText, ← map_ofBytes_lines]
  exact LineBuffer.tracks_ofLines (lines bytes)

end Bytes

end PrologText
