import PrologText.Text.Basic

/-!
# Cursors

A cursor is a point in a sequence of lines: the line it stands in, how much of it is behind, and
the lines that follow. Lines are units of their own: a token that is no quoted text or comment lies
within one.

`Cursor.fill` moves a cursor from the end of a line to the next character, and `Cursor.upTo` is the
text between two cursors. `Cursor.unread` bounds what a cursor can still move over.
-/

namespace PrologText

/-- What comes after the last line. -/
inductive Ending where
  | endOfInput
  /-- Further lines could not be had, for a reason. -/
  | failure (reason : Text)
deriving DecidableEq, Inhabited

/-- A place in a text: its line and column, counted from one, and the text of the line. -/
structure Place where
  line : Nat
  column : Nat
  text : Text
deriving DecidableEq, Inhabited

structure Cursor where
  /-- The number of lines before this one. -/
  number : Nat
  /-- The line the cursor stands in. -/
  whole : Text
  /-- The number of glyphs of the line that are behind the cursor. -/
  column : Nat
  /-- The glyphs of the line that are before the cursor. -/
  rest : Text
  /-- The lines after this one. -/
  later : List Text
  ending : Ending
  rest_eq : rest = whole.drop column

namespace Cursor

/-- A cursor at the start of a line. -/
def atLine (number : Nat) (line : Text) (later : List Text) (ending : Ending) : Cursor :=
  ⟨number, line, 0, line, later, ending, rfl⟩

/-- A cursor at the start of some lines. -/
def ofLines (lines : List Text) (ending : Ending) : Cursor :=
  match lines with
  | [] => atLine 0 [] [] ending
  | line :: later => atLine 0 line later ending

/-- A cursor at the start of a text. -/
def ofText (t : Text) : Cursor :=
  ofLines t.lines .endOfInput

/-- Moves over `n` glyphs of the line. -/
def advance (c : Cursor) (n : Nat) : Cursor :=
  { c with
    column := c.column + n
    rest := c.rest.drop n
    rest_eq := by rw [c.rest_eq, List.drop_drop] }

/-- Moves to the end of the line. -/
def toLineEnd (c : Cursor) : Cursor :=
  c.advance c.rest.length

/-- Moves on to the first of the lines `later` that has something to read, or to the last one. -/
def skipEmpty (c : Cursor) : List Text → Cursor
  | [] => c
  | line :: later =>
    let next := atLine (c.number + 1) line later c.ending
    if line.isEmpty then skipEmpty next later else next

/-- Moves on to the next line that has something to read, if the rest of this one is empty. -/
def fill (c : Cursor) : Cursor :=
  if c.rest.isEmpty then c.skipEmpty c.later else c

/-- The number of glyphs and line breaks in some lines. -/
def extent : List Text → Nat
  | [] => 0
  | line :: later => line.length + 1 + extent later

/-- A bound on the moves left: the glyphs before the cursor and the lines after it. -/
def unread (c : Cursor) : Nat :=
  c.rest.length + extent c.later

/-- Moves to the end of the last of the lines `later`, or of this line if there are none. -/
def toEndOf (c : Cursor) : List Text → Cursor
  | [] => c.toLineEnd
  | line :: later => toEndOf (atLine (c.number + 1) line later c.ending) later

/-- Moves to the end of the last line. -/
def toEnd (c : Cursor) : Cursor :=
  c.toEndOf c.later

/-- The text from one cursor to a later one. -/
def upTo (c d : Cursor) : Text :=
  if c.number = d.number then c.rest.take (d.column - c.column)
  else c.rest ++ (c.later.take (d.number - c.number - 1)).flatten ++ d.whole.take d.column

def place (c : Cursor) : Place :=
  ⟨c.number + 1, c.column + 1, c.whole⟩

/-! ## What moving leaves unread -/

@[simp] theorem unread_atLine (number : Nat) (line : Text) (later : List Text) (ending : Ending) :
    (atLine number line later ending).unread =
      line.length + extent later := rfl

theorem unread_advance_le (c : Cursor) (n : Nat) : (c.advance n).unread ≤ c.unread := by
  simp [unread, advance]

theorem unread_advance_lt {c : Cursor} {n : Nat} (hn : 0 < n) (hc : c.rest ≠ []) :
    (c.advance n).unread < c.unread := by
  have : 0 < c.rest.length := List.length_pos_iff.2 hc
  simp [unread, advance]
  omega

theorem unread_skipEmpty_le {c : Cursor} {later : List Text} (h : c.later = later) :
    (c.skipEmpty later).unread ≤ c.unread := by
  induction later generalizing c with
  | nil => simp [skipEmpty]
  | cons line later ih =>
    have hle : (atLine (c.number + 1) line later c.ending).unread ≤ c.unread := by
      rw [unread_atLine]
      simp only [unread, h, extent]
      omega
    simp only [skipEmpty]
    split
    · exact Nat.le_trans (ih rfl) hle
    · exact hle

theorem unread_fill_le (c : Cursor) : c.fill.unread ≤ c.unread := by
  unfold fill
  split
  · exact unread_skipEmpty_le rfl
  · exact Nat.le_refl _

theorem unread_toLineEnd_lt {c : Cursor} (hc : c.rest ≠ []) : c.toLineEnd.unread < c.unread :=
  unread_advance_lt (List.length_pos_iff.2 hc) hc

theorem unread_toEndOf {c : Cursor} {later : List Text} (h : c.later = later) :
    (c.toEndOf later).unread = 0 := by
  induction later generalizing c with
  | nil => simp [toEndOf, toLineEnd, advance, unread, extent, h]
  | cons line later ih => exact ih rfl

@[simp] theorem unread_toEnd (c : Cursor) : c.toEnd.unread = 0 :=
  unread_toEndOf rfl

end Cursor

end PrologText
