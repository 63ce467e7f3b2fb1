/-!
# Text

A text is a list of glyphs. A glyph is a character, or a byte that is part of no UTF-8 sequence and
is kept as it is. `Text.ofBytes` splits bytes into glyphs, `Text.bytes` writes them back.
-/

namespace PrologText

/-- One character of a text, or one byte that belongs to no UTF-8 sequence. -/
inductive Glyph where
  | char (c : Char)
  | stray (byte : UInt8)
deriving DecidableEq, Inhabited

abbrev Text := List Glyph

namespace Glyph

/-- The character that stands for a stray byte wherever one character is asked for. -/
def replacement : Char := '\uFFFD'

/-- The character a glyph is classified as. -/
def code : Glyph → Char
  | char c => c
  | stray _ => replacement

def char? : Glyph → Option Char
  | char c => some c
  | stray _ => none

end Glyph

/-! ## UTF-8 -/

namespace Utf8

/-- The bytes of one character. -/
def encode (c : Char) : List UInt8 :=
  let n := c.toNat
  if n < 0x80 then [.ofNat n]
  else if n < 0x800 then [.ofNat (0xC0 + n / 64), .ofNat (0x80 + n % 64)]
  else if n < 0x10000 then
    [.ofNat (0xE0 + n / 4096), .ofNat (0x80 + n / 64 % 64), .ofNat (0x80 + n % 64)]
  else
    [.ofNat (0xF0 + n / 262144), .ofNat (0x80 + n / 4096 % 64), .ofNat (0x80 + n / 64 % 64),
      .ofNat (0x80 + n % 64)]

/-- What a first byte announces: the number of bytes after it, its share of the value, and the
least value that needs that many bytes. -/
def lead (byte : UInt8) : Option (Nat × Nat × Nat) :=
  let b := byte.toNat
  if b < 0x80 then some (0, b, 0)
  else if b < 0xC0 then none
  else if b < 0xE0 then some (1, b - 0xC0, 0x80)
  else if b < 0xF0 then some (2, b - 0xE0, 0x800)
  else if b < 0xF8 then some (3, b - 0xF0, 0x10000)
  else none

/-- Reads `count` continuation bytes onto `value`. -/
def continuation : Nat → Nat → List UInt8 → Option (Nat × List UInt8)
  | 0, value, bytes => some (value, bytes)
  | _ + 1, _, [] => none
  | count + 1, value, b :: bytes =>
    if 0x80 ≤ b.toNat ∧ b.toNat < 0xC0 then
      continuation count (value * 64 + (b.toNat - 0x80)) bytes
    else none

/-- The first character of some bytes and the bytes after it; `none` if they start with no
shortest-form sequence of a character. -/
def decode? : List UInt8 → Option (Char × List UInt8)
  | [] => none
  | b :: bytes =>
    match lead b with
    | none => none
    | some (count, value, least) =>
      match continuation count value bytes with
      | none => none
      | some (n, rest) =>
        if least ≤ n ∧ n.isValidChar then some (Char.ofNat n, rest) else none

theorem continuation_length_le {count value n : Nat} {bytes rest : List UInt8}
    (h : continuation count value bytes = some (n, rest)) : rest.length ≤ bytes.length := by
  induction count generalizing value bytes with
  | zero => simp_all [continuation]
  | succ count ih =>
    cases bytes with
    | nil => simp [continuation] at h
    | cons b bytes =>
      simp only [continuation] at h
      split at h
      · exact Nat.le_succ_of_le (ih h)
      · simp at h

theorem decode?_length_lt {bytes rest : List UInt8} {c : Char}
    (h : decode? bytes = some (c, rest)) : rest.length < bytes.length := by
  cases bytes with
  | nil => simp [decode?] at h
  | cons b bytes =>
    simp only [decode?] at h
    split at h
    · simp at h
    · split at h
      · simp at h
      · rename_i hc
        split at h
        · cases h
          exact Nat.lt_succ_of_le (continuation_length_le hc)
        · simp at h

end Utf8

/-- The bytes of a glyph. -/
def Glyph.bytes : Glyph → List UInt8
  | .char c => Utf8.encode c
  | .stray b => [b]

namespace Text

/-- The text of a string: characters only. -/
def ofString (s : String) : Text :=
  s.toList.map Glyph.char

instance : Coe String Text := ⟨ofString⟩

/-- Splits bytes into glyphs after `seen`, the glyphs before them in reverse. -/
def ofBytesAfter (seen : Text) (bytes : List UInt8) : Text :=
  match h : Utf8.decode? bytes with
  | some (c, rest) =>
    have : rest.length < bytes.length := Utf8.decode?_length_lt h
    ofBytesAfter (.char c :: seen) rest
  | none =>
    match bytes with
    | [] => seen.reverse
    | b :: rest => ofBytesAfter (.stray b :: seen) rest
termination_by bytes.length

/-- The glyphs of some bytes: a character per UTF-8 sequence, every other byte by itself. -/
def ofBytes (bytes : List UInt8) : Text :=
  ofBytesAfter [] bytes

def bytes (t : Text) : List UInt8 :=
  t.flatMap Glyph.bytes

def byteCount (t : Text) : Nat :=
  t.foldl (fun n g => n + g.bytes.length) 0

/-- Glyphs put side by side, with stray bytes that now form a character read as that character. -/
def rejoin (t : Text) : Text :=
  ofBytes t.bytes

/-- The string of a text that has no stray bytes. -/
def toString? (t : Text) : Option String :=
  (t.mapM Glyph.char?).map String.ofList

def startsWith (t : Text) (start : String) : Bool :=
  (ofString start).isPrefixOf t

/-- Texts with a separator between them. -/
def joined (separator : String) (ts : List Text) : Text :=
  (ofString separator).intercalate ts

/-- Texts in the order of their bytes. -/
def sorted (ts : List Text) : List Text :=
  ts.mergeSort fun a b => a.bytes ≤ b.bytes

/-! ## Lines -/

/-- Splits `t` after each newline; `line` is the line so far and `done` the lines before it, both
in reverse. -/
def splitLines (done : List Text) (line : Text) : Text → List Text
  | [] => if line.isEmpty then done.reverse else (line.reverse :: done).reverse
  | g :: t =>
    if g = .char '\n' then splitLines ((g :: line).reverse :: done) [] t
    else splitLines done (g :: line) t

/-- The lines of a text, each with its newline; only the last may lack one. -/
def lines (t : Text) : List Text :=
  splitLines [] [] t

/-- Splits a text at each newline, which is dropped. -/
def splitAtNewlines (t : Text) : List Text :=
  t.splitOn (.char '\n')

def isLineEnd (g : Glyph) : Bool :=
  g = .char '\r' || g = .char '\n'

/-- Drops the glyphs at the end that satisfy `p`. -/
def dropEndWhile (p : Glyph → Bool) (t : Text) : Text :=
  (t.reverse.dropWhile p).reverse

/-- The text of a line without the carriage returns and newlines at its end. -/
def trimLineEnd (t : Text) : Text :=
  t.dropEndWhile isLineEnd

end Text

end PrologText
