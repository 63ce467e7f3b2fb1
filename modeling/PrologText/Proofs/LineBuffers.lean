import PrologText.Proofs.Bytes

/-!
# Lines that are read when they are needed

Lines of bytes can be asked for one by one, kept as long as one may want to go back, and given up
(`LineBuffer`). A point in them is the number of a line and a number of bytes (`Mark`), and several
points are the same place in the whole text: the end of a line, empty lines behind it, and the start
of the next one. Main statement: whatever is done with it, a buffer stands for a place in the whole
text (`LineBuffer.Reached.refinesOffset`).
-/

namespace PrologText

/-- A point in lines: the number of lines before it and, in the next line, the number of bytes. -/
structure Mark where
  line : Nat
  column : Nat
deriving DecidableEq

/-! ## Points in lines -/

namespace Mark

/-- The line a point stands in. -/
def whole (lines : List (List UInt8)) (m : Mark) : List UInt8 :=
  lines.getD m.line []

/-- What its line has from a point on. -/
def rest (lines : List (List UInt8)) (m : Mark) : List UInt8 :=
  (m.whole lines).drop m.column

/-- The number of bytes before a point in the whole text. -/
def offset (lines : List (List UInt8)) (m : Mark) : Nat :=
  (lines.take m.line).flatten.length + m.column

def InLine (lines : List (List UInt8)) (m : Mark) : Prop :=
  m.column ≤ (m.whole lines).length

/-- The start of the next line. -/
def newLine (m : Mark) : Mark :=
  ⟨m.line + 1, 0⟩

/-- Moves on to the first of the lines `later` that has something to read, or to the last one. -/
def skipEmpty (m : Mark) : List (List UInt8) → Mark
  | [] => m
  | line :: later => if line.isEmpty then skipEmpty m.newLine later else m.newLine

/-- Moves on to the next line that has something to read, if the rest of this one is empty. -/
def filled (lines : List (List UInt8)) (m : Mark) : Mark :=
  if (m.rest lines).isEmpty then m.skipEmpty (lines.drop (m.line + 1)) else m

variable {lines later : List (List UInt8)} {line : List UInt8} {m stop : Mark}

theorem flatten_take_append_drop (lines : List (List UInt8)) (n : Nat) :
    (lines.take n).flatten ++ (lines.drop n).flatten = lines.flatten := by
  rw [← List.flatten_append, List.take_append_drop]

theorem flatten_drop (lines : List (List UInt8)) (n : Nat) :
    (lines.drop n).flatten = lines.getD n [] ++ (lines.drop (n + 1)).flatten := by
  induction n generalizing lines with
  | zero => cases lines <;> simp
  | succ n ih =>
    cases lines with
    | nil => simp
    | cons line lines => simpa using ih lines

/-- What the whole text has from a point on. -/
theorem drop_offset (h : m.InLine lines) :
    lines.flatten.drop (m.offset lines) = m.rest lines ++ (lines.drop (m.line + 1)).flatten := by
  rw [← flatten_take_append_drop lines m.line, offset, ← List.drop_drop, List.drop_left,
    flatten_drop]
  exact List.drop_append_of_le_length h

theorem offset_le (h : m.InLine lines) : m.offset lines ≤ lines.flatten.length := by
  have hcolumn : m.column ≤ (lines.getD m.line []).length := h
  rw [← flatten_take_append_drop lines m.line, flatten_drop, offset]
  simp only [List.length_append]
  omega

theorem offset_newLine (h : m.InLine lines) :
    m.newLine.offset lines = m.offset lines + (m.rest lines).length := by
  have hcolumn : m.column ≤ (lines.getD m.line []).length := h
  have hhere := congrArg List.length (flatten_take_append_drop lines m.line)
  have hnext := congrArg List.length (flatten_take_append_drop lines (m.line + 1))
  rw [flatten_drop] at hhere
  simp only [List.length_append] at hhere hnext
  simp only [offset, newLine, rest, whole, List.length_drop]
  omega

theorem offset_newLine_le (lines : List (List UInt8)) (h : m.line + 1 ≤ stop.line) :
    m.newLine.offset lines ≤ stop.offset lines := by
  have hsplit := flatten_take_append_drop (lines.take stop.line) (m.line + 1)
  rw [List.take_take, Nat.min_eq_left h] at hsplit
  have hlength := congrArg List.length hsplit
  rw [List.length_append] at hlength
  simp only [offset, newLine]
  omega

theorem inLine_newLine (lines : List (List UInt8)) (m : Mark) : m.newLine.InLine lines :=
  Nat.zero_le _

theorem drop_offset_newLine (lines : List (List UInt8)) (m : Mark) :
    lines.flatten.drop (m.newLine.offset lines) = (lines.drop (m.line + 1)).flatten := by
  rw [drop_offset (inLine_newLine lines m), flatten_drop lines (m.line + 1)]
  rfl

theorem whole_newLine (h : lines.drop (m.line + 1) = line :: later) :
    m.newLine.whole lines = line := by
  have hhead : lines[m.line + 1]? = some line := by rw [← List.head?_drop, h]; rfl
  rw [whole, newLine, List.getD_eq_getElem?_getD, hhead]
  rfl

theorem drop_newLine (h : lines.drop (m.line + 1) = line :: later) :
    lines.drop (m.newLine.line + 1) = later := by
  rw [newLine, ← List.drop_drop, h]
  rfl

theorem skipEmpty_spec (hm : m.InLine lines) (hr : m.rest lines = [])
    (h : lines.drop (m.line + 1) = later) :
    (m.skipEmpty later).InLine lines ∧ (m.skipEmpty later).offset lines = m.offset lines ∧
      ((m.skipEmpty later).rest lines = [] →
        lines.drop ((m.skipEmpty later).line + 1) = []) := by
  induction later generalizing m with
  | nil => exact ⟨hm, rfl, fun _ => h⟩
  | cons line later ih =>
    have hoffset : m.newLine.offset lines = m.offset lines := by
      rw [offset_newLine hm, hr]
      rfl
    have hrest : m.newLine.rest lines = line := whole_newLine h
    simp only [skipEmpty]
    split
    · next hline =>
      rw [← hoffset]
      exact ih (inLine_newLine lines m) (hrest.trans (by simpa using hline)) (drop_newLine h)
    · next hline =>
      refine ⟨inLine_newLine lines m, hoffset, fun hnil => absurd ?_ hline⟩
      rw [← hrest, hnil]
      rfl

theorem filled_of_rest_ne_nil (h : m.rest lines ≠ []) : m.filled lines = m :=
  if_neg (by simpa using h)

theorem filled_of_rest_nil (h : m.rest lines = []) :
    m.filled lines = m.skipEmpty (lines.drop (m.line + 1)) :=
  if_pos (by simp [h])

theorem filled_newLine (hr : m.rest lines = []) (h : lines.drop (m.line + 1) = line :: later) :
    m.newLine.filled lines = m.filled lines := by
  have hrest : m.newLine.rest lines = line := whole_newLine h
  rw [filled_of_rest_nil hr, h, filled, hrest, drop_newLine h]
  rfl

theorem filled_newLine_of_lt (hr : m.rest lines = []) (h : m.line + 1 < lines.length) :
    m.newLine.filled lines = m.filled lines :=
  filled_newLine hr (List.drop_eq_getElem_cons h)

theorem filled_last (hr : m.rest lines = []) (h : lines.length ≤ m.line + 1) :
    m.filled lines = m := by
  rw [filled_of_rest_nil hr, List.drop_eq_nil_of_le h]
  rfl

theorem inLine_filled (h : m.InLine lines) : (m.filled lines).InLine lines := by
  by_cases hr : m.rest lines = []
  · rw [filled_of_rest_nil hr]
    exact (skipEmpty_spec h hr rfl).1
  · rwa [filled_of_rest_ne_nil hr]

theorem offset_filled (h : m.InLine lines) : (m.filled lines).offset lines = m.offset lines := by
  by_cases hr : m.rest lines = []
  · rw [filled_of_rest_nil hr]
    exact (skipEmpty_spec h hr rfl).2.1
  · rw [filled_of_rest_ne_nil hr]

theorem drop_of_rest_filled (h : m.InLine lines) (hnil : (m.filled lines).rest lines = []) :
    lines.drop ((m.filled lines).line + 1) = [] := by
  by_cases hr : m.rest lines = []
  · rw [filled_of_rest_nil hr] at hnil ⊢
    exact (skipEmpty_spec h hr rfl).2.2 hnil
  · rw [filled_of_rest_ne_nil hr] at hnil
    exact absurd hnil hr

theorem rest_filled_eq_nil_iff (h : m.InLine lines) :
    (m.filled lines).rest lines = [] ↔ m.offset lines = lines.flatten.length := by
  have hdrop := drop_offset (inLine_filled h)
  rw [offset_filled h] at hdrop
  constructor
  · intro hnil
    rw [hnil, drop_of_rest_filled h hnil] at hdrop
    exact Nat.le_antisymm (offset_le h) (List.drop_eq_nil_iff.1 hdrop)
  · intro hend
    rw [hend, List.drop_length] at hdrop
    exact (List.append_eq_nil_iff.1 hdrop.symm).1

theorem eq_of_rest_nil (hline : m.line = stop.line) (hm : m.InLine lines)
    (hr : m.rest lines = []) (hs : stop.InLine lines) (hr' : stop.rest lines = []) : m = stop := by
  obtain ⟨n, column⟩ := m
  obtain ⟨n', column'⟩ := stop
  obtain rfl : n = n' := hline
  simp only [rest, InLine, whole, List.drop_eq_nil_iff] at hm hr hs hr'
  rw [Nat.le_antisymm hm hr, Nat.le_antisymm hs hr']

/-! ## The bytes between two points -/

/-- What the line with number `n` has from a column on, up to `stop` if that stands in it. -/
def slice (lineAt : Nat → List UInt8) (stop : Mark) (n column : Nat) : List UInt8 :=
  ((lineAt n).take (if n = stop.line then stop.column else (lineAt n).length)).drop column

/-- What lines from number `n` on have up to `stop`, the first of them from a column on. -/
def slices (lineAt : Nat → List UInt8) (stop : Mark) : Nat → Nat → Nat → List UInt8
  | 0, _, _ => []
  | count + 1, n, column => slice lineAt stop n column ++ slices lineAt stop count (n + 1) 0

/-- What lines have between two points. -/
def between (lineAt : Nat → List UInt8) (m stop : Mark) : List UInt8 :=
  slices lineAt stop (stop.line + 1 - m.line) m.line m.column

theorem slices_congr {lineAt lineAt' : Nat → List UInt8} {count n column : Nat}
    (h : ∀ k column, n ≤ k → k < n + count →
      slice lineAt stop k column = slice lineAt' stop k column) :
    slices lineAt stop count n column = slices lineAt' stop count n column := by
  induction count generalizing n column with
  | zero => rfl
  | succ count ih =>
    rw [slices, slices, h n column (Nat.le_refl n) (by omega),
      ih fun k column hle hlt => h k column (by omega) (by omega)]

/-- The bytes between two points are those from the one place in the whole text to the other. -/
theorem between_eq (hm : m.InLine lines) (hs : stop.InLine lines) :
    between (lines.getD · []) m stop =
      (lines.flatten.drop (m.offset lines)).take (stop.offset lines - m.offset lines) := by
  unfold between
  generalize hcount : stop.line + 1 - m.line = count
  induction count generalizing m with
  | zero =>
    have hle := offset_newLine_le lines (show stop.line + 1 ≤ m.line by omega)
    rw [offset_newLine hs] at hle
    rw [slices, Nat.sub_eq_zero_of_le (by omega), List.take_zero]
  | succ count ih =>
    rw [drop_offset hm]
    by_cases hline : m.line = stop.line
    · obtain rfl : count = 0 := by omega
      have hcolumn : stop.column ≤ (m.whole lines).length := by rw [whole, hline]; exact hs
      have hoffset : stop.offset lines - m.offset lines = stop.column - m.column := by
        simp only [offset, hline]
        omega
      have hlength : stop.column - m.column ≤ (m.rest lines).length := by
        rw [rest, List.length_drop]
        omega
      rw [hoffset, List.take_append_of_le_length hlength, slices, slices, List.append_nil, slice,
        if_pos hline, List.drop_take]
      rfl
    · have hslice : slice (lines.getD · []) stop m.line m.column = m.rest lines := by
        rw [slice, if_neg hline, List.take_length]
        rfl
      have hnext := ih (inLine_newLine lines m) (show stop.line + 1 - (m.line + 1) = count by omega)
      have hle := offset_newLine_le lines (show m.line + 1 ≤ stop.line by omega)
      have hoffset : stop.offset lines - m.offset lines =
          (m.rest lines).length + (stop.offset lines - m.newLine.offset lines) := by
        rw [offset_newLine hm] at hle ⊢
        omega
      rw [drop_offset_newLine] at hnext
      rw [slices, hslice, hoffset, List.take_length_add_append, ← hnext]
      rfl

end Mark

theorem Text.ofBytes_eq_nil_iff {bytes : List UInt8} : ofBytes bytes = [] ↔ bytes = [] := by
  constructor
  · intro h
    exact Decidable.byContradiction fun hne => ofBytes_ne_nil hne h
  · rintro rfl
    exact ofBytes_nil

/-! ## Buffers -/

/-- Lines of which some are held, and a point in them. -/
structure LineBuffer where
  /-- The lines that have not been asked for. -/
  pending : List (List UInt8)
  held : List (List UInt8)
  /-- The number of lines before those that are held. -/
  base : Nat
  mark : Mark
  /-- Whether a line was asked for in vain. -/
  exhausted : Bool

namespace LineBuffer

/-- A buffer at the start of some lines, none of which has been asked for. -/
def ofLines (lines : List (List UInt8)) : LineBuffer :=
  ⟨lines, [], 0, ⟨0, 0⟩, false⟩

/-- The line with number `n`, if it is held. -/
def lineAt (b : LineBuffer) (n : Nat) : List UInt8 :=
  b.held.getD (n - b.base) []

/-- What the line has from the point on. -/
def rest (b : LineBuffer) : List UInt8 :=
  (b.lineAt b.mark.line).drop b.mark.column

def moved (b : LineBuffer) (m : Mark) : LineBuffer :=
  { b with mark := m }

/-- Asks for a line, and tells whether there was one. -/
def pull (b : LineBuffer) : LineBuffer × Bool :=
  if b.exhausted then (b, false)
  else
    match b.pending with
    | [] => ({ b with exhausted := true }, false)
    | line :: pending => ({ b with pending := pending, held := b.held ++ [line] }, true)

/-- A bound on how far the point can be moved on without a look at the lines. -/
def lag (b : LineBuffer) : Nat :=
  2 * b.pending.length + (b.base + b.held.length - b.mark.line)

theorem exists_of_pull {b b' : LineBuffer} (h : b.pull = (b', true)) :
    ∃ line pending, b.pending = line :: pending ∧
      b' = { b with pending := pending, held := b.held ++ [line] } := by
  unfold pull at h
  split at h
  · cases h
  · split at h
    · cases h
    · next line pending hpending =>
      cases h
      exact ⟨line, pending, hpending, rfl⟩

theorem eq_of_pull_false {b b' : LineBuffer} (h : b.pull = (b', false)) :
    b' = { b with exhausted := true } ∧ (b.exhausted = true ∨ b.pending = []) := by
  unfold pull at h
  split at h
  · next he =>
    cases h
    exact ⟨by rw [← he], .inl he⟩
  · split at h
    · next hp =>
      cases h
      exact ⟨rfl, .inr hp⟩
    · cases h

theorem lag_pull_lt {b b' : LineBuffer} (h : b.pull = (b', true)) : b'.lag < b.lag := by
  obtain ⟨line, pending, hpending, rfl⟩ := exists_of_pull h
  simp only [lag, hpending, List.length_cons, List.length_append, List.length_nil]
  omega

/-- Moves to the start of the next line. -/
def newLine (b : LineBuffer) : LineBuffer :=
  b.moved b.mark.newLine

theorem lag_newLine_le (b : LineBuffer) : b.newLine.lag ≤ b.lag := by
  simp only [lag, newLine, moved, Mark.newLine]
  omega

theorem lag_newLine_lt {b : LineBuffer} (h : b.mark.line - b.base < b.held.length) :
    b.newLine.lag < b.lag := by
  simp only [lag, newLine, moved, Mark.newLine]
  omega

/-- Moves the point on to a line that has something to read, and tells whether there is one. Lines
are asked for where those that are held do not suffice. -/
def fill (b : LineBuffer) : LineBuffer × Bool :=
  if hi : b.mark.line - b.base < b.held.length then
    if b.mark.column < (b.lineAt b.mark.line).length then (b, true)
    else if b.mark.line - b.base + 1 = b.held.length then
      match hp : b.pull with
      | (b', false) => (b', false)
      | (b', true) =>
        have : b'.newLine.lag < b.lag := Nat.lt_of_le_of_lt b'.lag_newLine_le (lag_pull_lt hp)
        fill b'.newLine
    else
      have : b.newLine.lag < b.lag := lag_newLine_lt hi
      fill b.newLine
  else
    match hp : b.pull with
    | (b', false) => (b', false)
    | (b', true) =>
      have : b'.lag < b.lag := lag_pull_lt hp
      fill b'
termination_by b.lag

/-- The number of bytes of the first character, or of a byte that is no part of one. -/
def firstWidth (bytes : List UInt8) : Nat :=
  ((Text.ofBytes bytes).head?.map fun g => g.bytes.length).getD 0

/-- The next character, if there is one. -/
def peek (b : LineBuffer) : LineBuffer × Option Glyph :=
  (b.fill.1, if b.fill.2 then (Text.ofBytes b.fill.1.rest).head? else none)

/-- Moves over `n` bytes of the line. -/
def advance (b : LineBuffer) (n : Nat) : LineBuffer :=
  b.moved ⟨b.mark.line, b.mark.column + n⟩

/-- Moves over one character. -/
def skipGlyph (b : LineBuffer) : LineBuffer :=
  if b.fill.2 then b.fill.1.advance (firstWidth b.fill.1.rest) else b.fill.1

theorem lag_fill_le (b : LineBuffer) : b.fill.1.lag ≤ b.lag := by
  fun_induction fill b with
  | case1 => exact Nat.le_refl _
  | case2 _ _ _ _ _ hp | case5 _ _ _ hp =>
    rw [(eq_of_pull_false hp).1]
    exact Nat.le_refl _
  | case3 _ _ _ _ _ _ hlag ih | case4 _ _ _ _ hlag ih | case6 _ _ _ _ hlag ih =>
    exact Nat.le_trans ih (Nat.le_of_lt hlag)

theorem lag_fill_lt {b : LineBuffer} (hr : b.rest = []) (h : b.fill.2 = true) :
    b.fill.1.lag < b.lag := by
  fun_induction fill b with
  | case1 b _ hc => exact absurd hr (by simpa [rest] using hc)
  | case2 | case5 => cases h
  | case3 _ _ _ _ b' _ hlag => exact Nat.lt_of_le_of_lt b'.newLine.lag_fill_le hlag
  | case4 b _ _ _ hlag => exact Nat.lt_of_le_of_lt b.newLine.lag_fill_le hlag
  | case6 _ _ b' _ hlag => exact Nat.lt_of_le_of_lt b'.lag_fill_le hlag

/-- A bound on the lines that are left to be passed over. -/
def skipBound (b : LineBuffer) : Nat :=
  2 * b.lag + min b.rest.length 1

theorem rest_advance_rest (b : LineBuffer) : (b.advance b.rest.length).rest = [] := by
  simp only [rest, advance, moved, List.length_drop, List.drop_eq_nil_iff, lineAt]
  omega

theorem skipBound_lt {b : LineBuffer} (h : b.fill.2 = true) :
    (b.fill.1.advance b.fill.1.rest.length).skipBound < b.skipBound := by
  rw [skipBound, rest_advance_rest]
  by_cases hr : b.rest = []
  · have hlt : (b.fill.1.advance b.fill.1.rest.length).lag < b.lag := lag_fill_lt hr h
    simp only [skipBound, List.length_nil]
    omega
  · have hle : (b.fill.1.advance b.fill.1.rest.length).lag ≤ b.lag := b.lag_fill_le
    have hpos := List.length_pos_iff.2 hr
    simp only [skipBound, List.length_nil]
    omega

/-- Moves over all that is left. -/
def skipAll (b : LineBuffer) : LineBuffer :=
  if h : b.fill.2 then
    have : (b.fill.1.advance b.fill.1.rest.length).skipBound < b.skipBound := skipBound_lt h
    skipAll (b.fill.1.advance b.fill.1.rest.length)
  else b.fill.1
termination_by b.skipBound

/-- Goes back to a point, unless its line has been given up. -/
def seek (b : LineBuffer) (m : Mark) : Option LineBuffer :=
  if m.line < b.base then none else some (b.moved m)

/-- What the lines have from an earlier point on. -/
def text (b : LineBuffer) (m : Mark) : List UInt8 :=
  Mark.between b.lineAt m b.mark

/-- The line of a point, empty if it is not held. -/
def lineText (b : LineBuffer) (m : Mark) : List UInt8 :=
  if b.base ≤ m.line ∧ m.line < b.base + b.held.length then b.lineAt m.line else []

/-- The line and the column of a point, counted from one. The column counts characters; it is the
first one if the line is not held or not that long. -/
def position (b : LineBuffer) (m : Mark) : Nat × Nat :=
  (m.line + 1,
    if m.column ≤ (b.lineText m).length then
      (Text.ofBytes ((b.lineText m).take m.column)).length + 1
    else 1)

/-- Gives up the lines before the point. -/
def release (b : LineBuffer) : LineBuffer :=
  if 0 < b.mark.line - b.base ∧ b.mark.line - b.base ≤ b.held.length then
    { b with held := b.held.drop (b.mark.line - b.base), base := b.mark.line }
  else b

/-! ## What a buffer holds -/

/-- A buffer can go back to a point: its line is held, or no line has been asked for. -/
def Has (b : LineBuffer) (m : Mark) : Prop :=
  b.base ≤ m.line ∧ (m.line < b.base + b.held.length ∧ m.column ≤ (b.lineAt m.line).length ∨
    b.held = [] ∧ m = ⟨b.base, 0⟩)

/-- What is held and what is pending are the lines from one of them on, with the point in them. -/
structure Of (lines : List (List UInt8)) (b : LineBuffer) : Prop where
  held : b.held ++ b.pending = lines.drop b.base
  base_le : b.base ≤ lines.length
  base_eq : b.held = [] → b.base = 0
  exhausted : b.exhausted = true → b.pending = []
  mark : b.Has b.mark

/-- Lines are added to those that are held, and none is given up. -/
def Grows (b b' : LineBuffer) : Prop :=
  b'.base = b.base ∧ b.held <+: b'.held

section

variable {lines : List (List UInt8)} {b b' b'' : LineBuffer} {m : Mark} {n : Nat}

theorem Grows.refl (b : LineBuffer) : b.Grows b :=
  ⟨rfl, List.prefix_rfl⟩

theorem Grows.trans (h : b.Grows b') (h' : b'.Grows b'') : b.Grows b'' :=
  ⟨h'.1.trans h.1, h.2.trans h'.2⟩

theorem Has.grows (hm : b.Has m) (h : b.Grows b') : b'.Has m := by
  obtain ⟨hbase, held, hheld⟩ := h
  rcases hm with ⟨hle, ⟨hlt, hcolumn⟩ | ⟨hnil, rfl⟩⟩
  · have hlt' : m.line - b.base < b.held.length := by omega
    have hline : b'.lineAt m.line = b.lineAt m.line := by
      simp only [lineAt, hbase, ← hheld, List.getD_eq_getElem?_getD,
        List.getElem?_append_left hlt']
    refine ⟨hbase ▸ hle, .inl ⟨?_, hline ▸ hcolumn⟩⟩
    rw [hbase, ← hheld, List.length_append]
    omega
  · rw [← hbase]
    refine ⟨Nat.le_refl _, ?_⟩
    cases hheld' : b'.held with
    | nil => exact .inr ⟨rfl, rfl⟩
    | cons => exact .inl ⟨by simp, Nat.zero_le _⟩

theorem Of.length_eq (h : b.Of lines) :
    lines.length = b.base + b.held.length + b.pending.length := by
  have hlength := congrArg List.length h.held
  have hbase := h.base_le
  simp only [List.length_append, List.length_drop] at hlength
  omega

theorem Of.lineAt_eq (h : b.Of lines) (hle : b.base ≤ n) (hlt : n < b.base + b.held.length) :
    b.lineAt n = lines.getD n [] := by
  have hget : (b.held ++ b.pending)[n - b.base]? = b.held[n - b.base]? :=
    List.getElem?_append_left (by omega)
  rw [h.held, List.getElem?_drop, Nat.add_sub_cancel' hle] at hget
  rw [lineAt, List.getD_eq_getElem?_getD, List.getD_eq_getElem?_getD, hget]

theorem Of.inLine (h : b.Of lines) (hm : b.Has m) : m.InLine lines := by
  rcases hm with ⟨hle, ⟨hlt, hcolumn⟩ | ⟨-, rfl⟩⟩
  · rwa [Mark.InLine, Mark.whole, ← h.lineAt_eq hle hlt]
  · exact Nat.zero_le _

theorem Of.moved (h : b.Of lines) (hm : b.Has m) : (b.moved m).Of lines :=
  ⟨h.held, h.base_le, h.base_eq, h.exhausted, hm⟩

theorem Of.pull_false (h : b.Of lines) (hp : b.pull = (b', false)) :
    b.pending = [] ∧ b'.Of lines ∧ b.Grows b' ∧ b'.mark = b.mark ∧ b'.rest = b.rest := by
  obtain ⟨rfl, hends⟩ := eq_of_pull_false hp
  have hnil : b.pending = [] := hends.elim h.exhausted id
  exact ⟨hnil, ⟨h.held, h.base_le, h.base_eq, fun _ => hnil, h.mark⟩, .refl b, rfl, rfl⟩

theorem Of.pull_true (h : b.Of lines) (hp : b.pull = (b', true)) :
    b'.Of lines ∧ b.Grows b' ∧ b'.mark = b.mark ∧ b'.held.length = b.held.length + 1 := by
  obtain ⟨line, pending, hpending, rfl⟩ := exists_of_pull hp
  have hgrows : b.Grows { b with pending := pending, held := b.held ++ [line] } :=
    ⟨rfl, List.prefix_append _ _⟩
  refine ⟨⟨?_, h.base_le, by simp, fun he => ?_, h.mark.grows hgrows⟩, hgrows, rfl, by simp⟩
  · rw [← h.held, hpending]
    simp
  · have := h.exhausted he
    simp [hpending] at this

theorem Of.newLine (h : b.Of lines) (hlt : b.mark.line + 1 < b.base + b.held.length) :
    b.newLine.Of lines :=
  h.moved ⟨Nat.le_succ_of_le h.mark.1, .inl ⟨hlt, Nat.zero_le _⟩⟩

/-! ## Moves -/

/-- What is true after a buffer was filled: the point is where it was in the whole text, at
something to read unless there is nothing left. -/
structure Filled (lines : List (List UInt8)) (b : LineBuffer) (r : LineBuffer × Bool) : Prop where
  of : r.1.Of lines
  grows : b.Grows r.1
  mark : r.1.mark = b.mark.filled lines
  rest : r.1.rest = r.1.mark.rest lines
  eq_false_iff : r.2 = false ↔ r.1.rest = []

theorem Of.rest_eq (h : b.Of lines) (hlt : b.mark.line - b.base < b.held.length) :
    b.rest = b.mark.rest lines := by
  have hle := h.mark.1
  rw [LineBuffer.rest, Mark.rest, Mark.whole, h.lineAt_eq hle (by omega)]

theorem Filled.behind {r : LineBuffer × Bool} (h : Filled lines b' r) (hg : b.Grows b')
    (hm : b'.mark.filled lines = b.mark.filled lines) : Filled lines b r :=
  ⟨h.of, hg.trans h.grows, h.mark.trans hm, h.rest, h.eq_false_iff⟩

/-- Nothing is left to be read where there is no further line. -/
theorem Of.filled_pull_false (h : b.Of lines) (hp : b.pull = (b', false))
    (hr : b.rest = b.mark.rest lines) (hnil : b.rest = [])
    (hlast : b.base + b.held.length ≤ b.mark.line + 1) : Filled lines b (b', false) := by
  obtain ⟨hpending, hof, hgrows, hmark, hrest⟩ := h.pull_false hp
  have hlength := h.length_eq
  rw [hpending, List.length_nil, Nat.add_zero] at hlength
  have hfilled : b.mark.filled lines = b.mark :=
    Mark.filled_last (hr ▸ hnil) (hlength ▸ hlast)
  refine ⟨hof, hgrows, hmark.trans hfilled.symm, ?_, by simp [hrest, hnil]⟩
  rw [hrest, hmark, hr]

theorem Of.filled_fill (h : b.Of lines) : Filled lines b b.fill := by
  fun_induction fill b with
  | case1 b hi hc =>
    have hne : b.rest ≠ [] := by simpa [LineBuffer.rest] using hc
    have hrest := h.rest_eq hi
    exact ⟨h, .refl b, (Mark.filled_of_rest_ne_nil (hrest ▸ hne)).symm, hrest, by simp [hne]⟩
  | case2 b hi hc hl b' hp =>
    have hnil : b.rest = [] := by simpa [LineBuffer.rest] using hc
    have hle := h.mark.1
    exact h.filled_pull_false hp (h.rest_eq hi) hnil (by omega)
  | case3 b hi hc hl b' hp _ ih =>
    have hnil : b.rest = [] := by simpa [LineBuffer.rest] using hc
    obtain ⟨hof, hgrows, hmark, hheld⟩ := h.pull_true hp
    have hbase := hgrows.1
    have hlength := hof.length_eq
    have hle := h.mark.1
    refine (ih (hof.newLine (by rw [hmark]; omega))).behind hgrows ?_
    show b'.mark.newLine.filled lines = b.mark.filled lines
    rw [hmark]
    exact Mark.filled_newLine_of_lt ((h.rest_eq hi).symm.trans hnil) (by omega)
  | case4 b hi hc hl _ ih =>
    have hnil : b.rest = [] := by simpa [LineBuffer.rest] using hc
    have hlength := h.length_eq
    have hle := h.mark.1
    refine (ih (h.newLine (by omega))).behind (.refl b) ?_
    exact Mark.filled_newLine_of_lt ((h.rest_eq hi).symm.trans hnil) (by omega)
  | case5 b hi b' hp =>
    -- No line has been asked for before.
    rcases h.mark with ⟨hle, ⟨hlt, -⟩ | ⟨hheld, hmark⟩⟩
    · omega
    · have hnil : b.rest = [] := by simp [LineBuffer.rest, lineAt, hheld]
      have hlength := h.length_eq
      rw [(h.pull_false hp).1, hheld] at hlength
      have hend : b.mark.rest lines = [] := by
        simp [Mark.rest, Mark.whole, hmark, hlength]
      exact h.filled_pull_false hp (hnil.trans hend.symm) hnil (by simp [hheld, hmark])
  | case6 b hi b' hp _ ih =>
    obtain ⟨hof, hgrows, hmark, -⟩ := h.pull_true hp
    exact (ih hof).behind hgrows (by rw [hmark])

theorem Of.has_advance (h : b.Of lines) (hn : n ≤ b.rest.length) :
    b.Has ⟨b.mark.line, b.mark.column + n⟩ := by
  rcases h.mark with ⟨hle, ⟨hlt, hcolumn⟩ | ⟨hheld, hmark⟩⟩
  · rw [rest, List.length_drop] at hn
    exact ⟨hle, .inl ⟨hlt, by simp only; omega⟩⟩
  · obtain rfl : n = 0 := by simpa [rest, lineAt, hheld] using hn
    exact h.mark

theorem Of.column_le (h : b.Of lines) : b.mark.column ≤ (b.lineAt b.mark.line).length := by
  rcases h.mark.2 with ⟨-, hcolumn⟩ | ⟨-, hmark⟩
  · exact hcolumn
  · rw [hmark]
    exact Nat.zero_le _

theorem firstWidth_le (bytes : List UInt8) : firstWidth bytes ≤ bytes.length := by
  unfold firstWidth
  cases ht : Text.ofBytes bytes with
  | nil => exact Nat.zero_le _
  | cons g t =>
    have hbytes := Text.bytes_ofBytes bytes
    rw [ht, Text.bytes_cons] at hbytes
    simp [← hbytes]

theorem Of.skipGlyph (h : b.Of lines) : b.skipGlyph.Of lines ∧ b.Grows b.skipGlyph ∧
    b.skipGlyph.mark =
      ⟨b.fill.1.mark.line, b.fill.1.mark.column + firstWidth b.fill.1.rest⟩ := by
  have hfill := h.filled_fill
  unfold LineBuffer.skipGlyph
  split
  · exact ⟨hfill.of.moved (hfill.of.has_advance (firstWidth_le _)), hfill.grows, rfl⟩
  · next hf =>
    have hnil : b.fill.1.rest = [] := hfill.eq_false_iff.1 (by simpa using hf)
    refine ⟨hfill.of, hfill.grows, ?_⟩
    rw [hnil, firstWidth, Text.ofBytes_nil]
    rfl

/-- All that is left has been passed over. -/
structure Ended (lines : List (List UInt8)) (b b' : LineBuffer) : Prop where
  of : b'.Of lines
  grows : b.Grows b'
  rest : b'.mark.rest lines = []
  later : lines.drop (b'.mark.line + 1) = []

theorem Of.ended_skipAll (h : b.Of lines) : Ended lines b b.skipAll := by
  fun_induction skipAll b with
  | case1 b _ _ ih =>
    have hfill := h.filled_fill
    have hended := ih (hfill.of.moved (hfill.of.has_advance (Nat.le_refl _)))
    exact ⟨hended.of, hfill.grows.trans hended.grows, hended.rest, hended.later⟩
  | case2 b hf =>
    have hfill := h.filled_fill
    have hnil : b.fill.1.mark.rest lines = [] :=
      hfill.rest.symm.trans (hfill.eq_false_iff.1 (by simpa using hf))
    refine ⟨hfill.of, hfill.grows, hnil, ?_⟩
    rw [hfill.mark] at hnil ⊢
    exact Mark.drop_of_rest_filled (h.inLine h.mark) hnil

theorem Ended.offset_eq (h : Ended lines b b') :
    b'.mark.offset lines = lines.flatten.length := by
  have hinLine := h.of.inLine h.of.mark
  have hdrop := Mark.drop_offset hinLine
  rw [h.rest, h.later] at hdrop
  exact Nat.le_antisymm (Mark.offset_le hinLine) (List.drop_eq_nil_iff.1 hdrop)

theorem Of.release (h : b.Of lines) : b.release.Of lines ∧ b.release.mark = b.mark := by
  unfold LineBuffer.release
  split
  · next hn =>
    have hle := h.mark.1
    have hlength := h.length_eq
    rcases h.mark.2 with ⟨hlt, hcolumn⟩ | ⟨hheld, -⟩
    · have hline : (b.held.drop (b.mark.line - b.base)).getD (b.mark.line - b.mark.line) [] =
          b.lineAt b.mark.line := by
        simp [lineAt, List.getD_eq_getElem?_getD]
      have hlength' : (b.held.drop (b.mark.line - b.base)).length =
          b.held.length - (b.mark.line - b.base) := List.length_drop
      refine ⟨⟨?_, by simp only; omega, fun hnil => ?_, h.exhausted, Nat.le_refl _,
        .inl ⟨by simp only; omega, Nat.le_trans hcolumn (Nat.le_of_eq (congrArg _ hline.symm))⟩⟩,
        rfl⟩
      · show b.held.drop (b.mark.line - b.base) ++ b.pending = lines.drop b.mark.line
        rw [← List.drop_append_of_le_length hn.2, h.held, List.drop_drop, Nat.add_sub_cancel' hle]
      · rw [show b.held.drop (b.mark.line - b.base) = [] from hnil, List.length_nil] at hlength'
        omega
    · simp only [hheld, List.length_nil] at hn
      omega
  · exact ⟨h, rfl⟩

theorem Of.text_eq (h : b.Of lines) (hm : b.Has m) :
    b.text m = Mark.between (lines.getD · []) m b.mark := by
  refine Mark.slices_congr fun k column hle hlt => ?_
  rcases h.mark with ⟨-, ⟨hheld, -⟩ | ⟨hheld, hmark⟩⟩
  · have hbase := hm.1
    simp only [Mark.slice, h.lineAt_eq (show b.base ≤ k by omega) (by omega)]
  · -- Before the first line is asked for there is nothing between two points.
    have hbase := hm.1
    have hk : k = b.mark.line := by
      rw [hmark] at hlt ⊢
      simp only at hlt ⊢
      omega
    simp [Mark.slice, hk, hmark]

end

/-! ## Runs -/

/-- A buffer that is come to, and the points noted since lines were last given up. -/
inductive Reached (lines : List (List UInt8)) : LineBuffer → List Mark → Prop where
  | start : Reached lines (.ofLines lines) []
  | fill {b marks} (h : Reached lines b marks) : Reached lines b.fill.1 marks
  | peek {b marks} (h : Reached lines b marks) : Reached lines b.peek.1 marks
  | mark {b marks} (h : Reached lines b marks) : Reached lines b (b.mark :: marks)
  | seek {b b' marks m} (h : Reached lines b marks) (hm : m ∈ marks) (hs : b.seek m = some b') :
      Reached lines b' marks
  | advance {b marks n} (h : Reached lines b marks) (hn : n ≤ b.rest.length) :
      Reached lines (b.advance n) marks
  | skipGlyph {b marks} (h : Reached lines b marks) : Reached lines b.skipGlyph marks
  | skipAll {b marks} (h : Reached lines b marks) : Reached lines b.skipAll marks
  | release {b marks} (h : Reached lines b marks) : Reached lines b.release []

section

variable {lines : List (List UInt8)} {b b' : LineBuffer} {marks : List Mark} {m : Mark}

theorem of_ofLines (lines : List (List UInt8)) : (ofLines lines).Of lines :=
  ⟨rfl, Nat.zero_le _, fun _ => rfl, Bool.noConfusion, Nat.le_refl _, .inr ⟨rfl, rfl⟩⟩

theorem seek_of_has (h : b.Has m) : b.seek m = some (b.moved m) :=
  if_neg (Nat.not_lt.2 h.1)

/-- A buffer holds its own point and all points that were noted. -/
theorem Reached.of (h : Reached lines b marks) : b.Of lines ∧ ∀ m ∈ marks, b.Has m := by
  induction h with
  | start => exact ⟨of_ofLines lines, by simp⟩
  | fill _ ih | peek _ ih =>
    exact ⟨ih.1.filled_fill.of, fun m hm => (ih.2 m hm).grows ih.1.filled_fill.grows⟩
  | mark _ ih => exact ⟨ih.1, List.forall_mem_cons.2 ⟨ih.1.mark, ih.2⟩⟩
  | seek _ hm hs ih =>
    rw [seek_of_has (ih.2 _ hm)] at hs
    cases hs
    exact ⟨ih.1.moved (ih.2 _ hm), ih.2⟩
  | advance _ hn ih => exact ⟨ih.1.moved (ih.1.has_advance hn), ih.2⟩
  | skipGlyph _ ih =>
    exact ⟨ih.1.skipGlyph.1, fun m hm => (ih.2 m hm).grows ih.1.skipGlyph.2.1⟩
  | skipAll _ ih =>
    exact ⟨ih.1.ended_skipAll.of, fun m hm => (ih.2 m hm).grows ih.1.ended_skipAll.grows⟩
  | release _ ih => exact ⟨ih.1.release.1, by simp⟩

end

/-- A buffer stands for the place `b.mark.offset lines` in the whole text of its lines. -/
structure RefinesOffset (lines : List (List UInt8)) (b : LineBuffer) (marks : List Mark) :
    Prop where
  /-- The place is in the text, and the point in its line. -/
  offset_le : b.mark.offset lines ≤ lines.flatten.length
  column_le : b.mark.column ≤ (b.lineAt b.mark.line).length
  /-- Filling keeps the place. It fails just at the end of the text, and elsewhere leaves the line
  with the next bytes of the text, at least one. -/
  fill_offset : b.fill.1.mark.offset lines = b.mark.offset lines
  fill_eq_false_iff : b.fill.2 = false ↔ b.mark.offset lines = lines.flatten.length
  fill_rest : b.fill.2 = true → b.fill.1.rest ≠ [] ∧
    b.fill.1.rest <+: lines.flatten.drop (b.mark.offset lines)
  /-- The next character is the first one in the rest of the line. -/
  peek : b.peek = (b.fill.1, (Text.ofBytes b.fill.1.rest).head?)
  peek_eq_none_iff : b.peek.2 = none ↔ b.mark.offset lines = lines.flatten.length
  advance : ∀ n ≤ b.rest.length, (b.advance n).mark.offset lines = b.mark.offset lines + n
  skipGlyph :
    b.skipGlyph.mark.offset lines = b.mark.offset lines + firstWidth b.fill.1.rest
  skipAll : b.skipAll.mark.offset lines = lines.flatten.length
  /-- Giving up lines keeps the place. -/
  release : b.release.mark.offset lines = b.mark.offset lines
  /-- Every point that was noted can be gone back to, and has the text up to here behind it. -/
  seek : ∀ m ∈ marks, ∃ b', b.seek m = some b' ∧ b'.mark.offset lines = m.offset lines
  text : ∀ m ∈ marks, b.text m =
    (lines.flatten.drop (m.offset lines)).take (b.mark.offset lines - m.offset lines)

theorem Reached.refinesOffset {lines : List (List UInt8)} {b : LineBuffer} {marks : List Mark}
    (h : Reached lines b marks) : b.RefinesOffset lines marks := by
  obtain ⟨hof, hmarks⟩ := h.of
  have hinLine := hof.inLine hof.mark
  have hfill := hof.filled_fill
  have hoffset : b.fill.1.mark.offset lines = b.mark.offset lines := by
    rw [hfill.mark, Mark.offset_filled hinLine]
  have hends : b.fill.2 = false ↔ b.mark.offset lines = lines.flatten.length := by
    rw [hfill.eq_false_iff, hfill.rest, hfill.mark, Mark.rest_filled_eq_nil_iff hinLine]
  have hpeek : b.peek = (b.fill.1, (Text.ofBytes b.fill.1.rest).head?) := by
    unfold LineBuffer.peek
    split
    · rfl
    · next hf => rw [hfill.eq_false_iff.1 (by simpa using hf), Text.ofBytes_nil]; rfl
  exact {
    offset_le := Mark.offset_le hinLine
    column_le := hof.column_le
    fill_offset := hoffset
    fill_eq_false_iff := hends
    fill_rest := fun hf => by
      refine ⟨fun hnil => by simp [hfill.eq_false_iff.2 hnil] at hf, ?_⟩
      rw [← hoffset, Mark.drop_offset (hfill.of.inLine hfill.of.mark), ← hfill.rest]
      exact List.prefix_append _ _
    peek := hpeek
    peek_eq_none_iff := by
      rw [hpeek, ← hends, hfill.eq_false_iff, List.head?_eq_none_iff, Text.ofBytes_eq_nil_iff]
    advance := fun n _ => (Nat.add_assoc ..).symm
    skipGlyph := by
      rw [hof.skipGlyph.2.2, ← hoffset]
      exact (Nat.add_assoc ..).symm
    skipAll := hof.ended_skipAll.offset_eq
    release := by rw [hof.release.2]
    seek := fun m hm => ⟨b.moved m, seek_of_has (hmarks m hm), rfl⟩
    text := fun m hm => by
      rw [hof.text_eq (hmarks m hm), Mark.between_eq (hof.inLine (hmarks m hm)) hinLine] }

end LineBuffer

end PrologText
