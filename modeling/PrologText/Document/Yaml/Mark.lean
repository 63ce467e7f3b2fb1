import PrologText.Document.Yaml.Quoted
import PrologText.Document.Yaml.Scalar

/-!
# Marks

Cutting a YAML text into marks: scalars and the signs between them, each with its column. A scalar
without quotes goes on over several lines as long as these stand to the right of the key or dash
before it. Block literals, anchors and explicit keys are not understood.
-/

namespace PrologText

/-- A scalar, or a sign between scalars. -/
inductive YamlMark where
  /-- A scalar without quotes; `broken` tells whether there is a line break inside. -/
  | plain (text : Text) (broken : Bool)
  | quoted (text : Text)
  /-- The dash before an item of a list. -/
  | entry
  | colon
  | openMap
  | closeMap
  | openList
  | closeList
  | comma
  /-- The key whose value is merged into its mapping. -/
  | mergeKey
  /-- The name of another value follows. -/
  | reference
  /-- The type of the next value. -/
  | tag
  | directive
  | documentStart
  | documentEnd
  | comment
deriving DecidableEq

namespace YamlMark

/-- A mark in its place. -/
structure Placed where
  mark : YamlMark
  column : Int
  /-- Whether the next mark is a colon, comments counted. -/
  beforeColon : Bool
deriving DecidableEq

/-- How a line stands to what was before it. -/
inductive Turn where
  | level
  | inwards
  | outwards
  /-- The glyph is not the first of its line. -/
  | none
deriving DecidableEq

/-- Where a scanner stands, and what it holds of a scalar. -/
structure Scanner where
  column : Int
  /-- The number of spaces that the line starts with. -/
  indent : Nat
  /-- That of the line before. -/
  lastIndent : Nat
  /-- The column of the last key or dash; zero if a line started after it. -/
  keyColumn : Int
  /-- Whether only spaces are before the next glyph in its line. -/
  lineStart : Bool
  turn : Turn
  openMaps : Int
  openLists : Int
  /-- The column of a scalar that goes on over lines. -/
  saved : Option Int
  /-- The scalar in reverse, with spaces and tabs that may not belong to it. -/
  buffer : Text
  /-- Whether there is more in the scalar than spaces and tabs. -/
  written : Bool
  /-- All glyphs since the last mark in reverse, without the spaces before line breaks. -/
  origin : Text
  /-- Whether a line of the scalar starts with a dash: then signs mean nothing up to its end. -/
  folded : Bool

namespace Scanner

def start : Scanner where
  column := 1
  indent := 0
  lastIndent := 0
  keyColumn := 0
  lineStart := true
  turn := .level
  openMaps := 0
  openLists := 0
  saved := none
  buffer := []
  written := false
  origin := []
  folded := false

def isBlank (g : Glyph) : Bool :=
  g = .char ' ' || g = .char '\t'

def inFlow (s : Scanner) : Bool :=
  0 < s.openLists || 0 < s.openMaps

/-- Moves over `n` glyphs of the line. -/
def past (s : Scanner) (n : Nat) : Scanner :=
  { s with column := s.column + n }

/-- Moves to the start of the next line. -/
def nextLine (s : Scanner) : Scanner :=
  { s with column := 1, indent := 0, lineStart := true }

/-- Forgets the scalar. -/
def fresh (s : Scanner) : Scanner :=
  { s with buffer := [], written := false, origin := [], folded := false }

/-- Adds a glyph to the scalar, which starts with no space. -/
def hold (s : Scanner) (g : Glyph) : Scanner :=
  if s.buffer.isEmpty && g = .char ' ' then s
  else { s with buffer := g :: s.buffer, written := s.written || !isBlank g }

/-- Notes down a glyph. -/
def note (s : Scanner) (g : Glyph) : Scanner :=
  { s with origin := g :: s.origin }

/-- Moves over a glyph of the scalar. -/
def keep (s : Scanner) (g : Glyph) : Scanner :=
  ((s.hold g).note g).past 1

/-- The scalar without the spaces and tabs after it, in reverse. -/
def scalar (s : Scanner) : Text :=
  s.buffer.dropWhile isBlank

/-- Whether there is a line break inside the scalar. -/
def isBroken (s : Scanner) : Bool :=
  (s.origin.reverse.dropWhile YamlQuoted.isLineBreak).any YamlQuoted.isLineBreak

/-- Cuts off the scalar, if there is one. -/
def cut (s : Scanner) : List Placed × Scanner :=
  if s.written then
    let text := s.scalar
    let column := s.saved.getD (s.column - text.length)
    ([⟨.plain text.reverse s.isBroken, column, false⟩],
      { s with saved := none, buffer := [], written := false, origin := [] })
  else ([], { s with saved := none })

/-! ## Lines -/

/-- How the line with the next glyph stands to what was before it: to the last key or dash, or, if
there is none, to the line before. -/
def lineTurn (s : Scanner) : Turn :=
  let byIndent : Turn :=
    if s.lastIndent < s.indent then .inwards
    else if s.lastIndent = s.indent then .level
    else .outwards
  if s.keyColumn ≤ 0 then byIndent
  else if s.keyColumn < s.column then .inwards
  else if s.keyColumn = s.column ∧ byIndent = .level then .level
  else .outwards

/-- Takes notice of the next glyph as the first of its line, or as one that is not. -/
def look (s : Scanner) (g : Glyph) : Scanner :=
  if !s.lineStart then { s with turn := .none }
  else if YamlQuoted.isLineBreak g && s.folded then s
  else if g = .char ' ' then { s with indent := s.indent + 1 }
  else
    let turn := s.lineTurn
    let s := { s with turn := turn, lineStart := false }
    if turn = .inwards && (s.folded || g = .char '-' && s.written) then s
    else { s with lastIndent := s.indent, keyColumn := 0 }

/-- Cuts off the scalar if the line of the next glyph does not belong to it. -/
def cutByTurn (s : Scanner) : List Placed × Scanner :=
  match s.turn with
  | .outwards => s.cut
  | .level =>
    let startsInLine : Bool := s.origin.getLast?.any fun g => !YamlQuoted.isLineBreak g
    if startsInLine then s.cut else ([], s)
  | .inwards | .none => ([], s)

/-- Moves over a line break that is `length` glyphs long; `last` tells that nothing comes after
it. -/
def breakLine (s : Scanner) (length : Nat) (last : Bool) : List Placed × Scanner :=
  let saved :=
    if s.buffer.isEmpty || s.saved.isSome then s.saved
    else some (s.column - s.scalar.length)
  let removed := (s.origin.takeWhile isBlank).length
  let s :=
    if removed = 0 then { s with saved := saved }
    else
      { s with
        saved := saved.map (· - removed)
        column := s.column - removed
        origin := s.origin.drop removed
        buffer := s.scalar }
  let s := if length = 2 then s.note (.char '\r') else s
  let (marks, s) := if last then s.cut else ([], s)
  (marks, ((s.hold (.char ' ')).note (.char '\n')).nextLine)

/-! ## Signs -/

/-- What the next glyph makes of a text. -/
structure Advance where
  marks : List Placed
  /-- How many glyphs are passed over. -/
  length : Nat
  after : Scanner

/-- Adds the marks before it to an advance. -/
def Advance.behind (marks : List Placed) (a : Advance) : Advance :=
  { a with marks := marks ++ a.marks }

/-- Whether a text starts with a line break or a space. -/
def beforeGap : Text → Bool
  | [] => false
  | g :: _ => g = .char ' ' || YamlQuoted.isLineBreak g

/-- Whether a colon before a text divides a key from its value. -/
def isDivider (s : Scanner) (t : Text) : Bool :=
  0 < s.openMaps || beforeGap t || t.length ≤ 1

/-- Whether a text starts with exactly `n` of a glyph. -/
def startsWithRun (g : Glyph) (n : Nat) (t : Text) : Bool :=
  (t.take (n + 1)).takeWhile (· = g) = List.replicate n g

/-- Whether a text after two less-than signs makes them the key of a merge. -/
def isMerge (t : Text) : Bool :=
  match t.dropWhile (· = .char ' ') with
  | .char ':' :: t => beforeGap t
  | _ => false

/-- Whether the text after the sign of a block literal is that of one. -/
def isLiteralHeader (t : Text) : Bool :=
  let header := t.takeWhile fun g => !YamlQuoted.isLineBreak g
  let option := Text.dropEndWhile (· = .char ' ') (header.takeWhile (· ≠ .char '#'))
  header.length < t.length
    && (option.isEmpty
      || option.length = 1 && option.all fun g => "+-0123456789".toList.contains g.code)

/-- A sign of its own, of one glyph, after which the scanner is in a state. -/
def sign (m : YamlMark) (before : List Placed) (s after : Scanner) : Option Advance :=
  some ⟨before ++ [⟨m, s.column, false⟩], 1, (after.past 1).fresh⟩

/-- The end of a document or the start of one at the start of a line. -/
def documentSign (m : YamlMark) (before : List Placed) (s : Scanner) : Option Advance :=
  some ⟨before ++ [⟨m, s.column, false⟩], 3, (s.past 3).fresh⟩

/-- A quoted scalar; one without an end takes up the text and leaves no mark. -/
def quotedScalar (s : Scanner) (content : Option YamlQuoted.Content) (t : Text) : Advance :=
  match content with
  | none => ⟨[], t.length + 1, s.fresh⟩
  | some c =>
    let lines := (t.take c.length).reverse
    let lastLine := lines.takeWhile fun g => !YamlQuoted.isLineBreak g
    let after :=
      if lastLine.length = c.length then s.past (c.length + 1)
      else s.nextLine.past lastLine.length
    ⟨[⟨.quoted c.text, s.column, false⟩], c.length + 1, after.fresh⟩

/-- A comment up to the end of its line. -/
def comment (s : Scanner) (t : Text) : Advance :=
  let (marks, s') := s.cut
  let n := (t.takeWhile fun g => !YamlQuoted.isLineBreak g).length
  ⟨marks ++ [⟨.comment, s.column, false⟩], n + 2, s'.nextLine.fresh⟩

/-- A tag up to a space or line break, which is passed over too. Tags of the language itself are not
understood. -/
def tagSign (s : Scanner) (t : Text) : Option Advance :=
  let name := t.takeWhile fun g => g ≠ .char ' ' && !YamlQuoted.isLineBreak g
  let n := name.length + 1
  if name.head? = some (.char '!') then none
  else
    match t.drop name.length with
    | [] => some ⟨[], n, s.fresh⟩
    | g :: _ =>
      let after := if YamlQuoted.isLineBreak g then s.nextLine else s.past n
      some ⟨[⟨.tag, s.column, false⟩], n + 1, after.fresh⟩

/-- Passes over a glyph in a scalar with a dash at the start of a line. -/
def fold (s : Scanner) (g : Glyph) (t : Text) : Advance :=
  let s := s.note g
  if t.isEmpty then
    ⟨if s.written then [⟨.plain s.scalar.reverse s.isBroken, s.column, false⟩] else [], 1, s.fresh⟩
  else if YamlQuoted.isLineBreak g then ⟨[], 1, (s.hold (.char ' ')).nextLine⟩
  else if s.lineStart && g = .char ' ' then ⟨[], 1, s.past 1⟩
  else ⟨[], 1, (s.hold g).past 1⟩

/-- The sign that a glyph is where no scalar has started, if it is one; `none` in the inner option
if it is not understood. -/
def freshSign? (s : Scanner) (g : Glyph) (t : Text) : Option (Option Advance) :=
  match g with
  | .char '\x7b' => some (s.sign .openMap [] { s with openMaps := s.openMaps + 1 })
  | .char '[' => some (s.sign .openList [] { s with openLists := s.openLists + 1 })
  | .char '-' =>
    if beforeGap t then some (s.sign .entry [] { s with keyColumn := s.column }) else none
  | .char '|' | .char '>' => some (if isLiteralHeader t then none else some ⟨[], 1, s.fresh⟩)
  | .char '!' => some (s.tagSign t)
  | .char '%' => if s.indent = 0 then some (s.sign .directive [] s) else none
  | .char '?' => if t.head? = some (.char ' ') then some none else none
  | .char '&' => some none
  | .char '*' => some (s.sign .reference [] s)
  | .char '\'' => some (some (s.quotedScalar (YamlQuoted.single? .start t) t))
  | .char '"' => some (some (s.quotedScalar (YamlQuoted.double? .start 0 t) t))
  | _ => none

/-- The sign that a glyph is anywhere, if it is one. -/
def commonSign? (s : Scanner) (g : Glyph) (t : Text) : Option (Option Advance) :=
  let atMargin : Bool := s.indent = 0 && s.column = 1
  match g with
  | .char '\x7d' =>
    if !s.written || 0 < s.openMaps then
      let (marks, s') := s.cut
      some (s.sign .closeMap marks { s' with openMaps := s.openMaps - 1 })
    else none
  | .char ']' =>
    if !s.written || 0 < s.openLists then
      let (marks, s') := s.cut
      some (s.sign .closeList marks { s' with openLists := s.openLists - 1 })
    else none
  | .char ',' =>
    if s.inFlow then
      let (marks, s') := s.cut
      some (s.sign .comma marks s')
    else none
  | .char ':' =>
    if s.isDivider t then
      let (marks, s') := s.cut
      let key := (marks.head?.map (·.column)).getD s.keyColumn
      some (s.sign .colon marks { s' with keyColumn := key })
    else none
  | .char '.' =>
    if atMargin && startsWithRun g 3 (g :: t) then some (s.documentSign .documentEnd []) else none
  | .char '-' =>
    if atMargin && startsWithRun g 3 (g :: t) then
      let (marks, s') := s.cut
      some (s'.documentSign .documentStart marks)
    else none
  | .char '<' =>
    if startsWithRun g 2 (g :: t) && isMerge (t.drop 1) then
      some (some
        ⟨[⟨.mergeKey, s.column, false⟩], 2, ({ s with keyColumn := s.column }.past 1).fresh⟩)
    else none
  | .char '#' =>
    if !s.written || s.origin.head? = some (.char ' ') then some (some (s.comment t)) else none
  | _ => none

/-- Passes over the next glyph, if it is understood. -/
def read? (s : Scanner) (g : Glyph) (t : Text) : Option Advance :=
  match s.commonSign? g t with
  | some a => a
  | none =>
    match if s.written then none else s.freshSign? g t with
    | some a => a
    | none =>
      match g with
      | .char '\n' => let (marks, s) := s.breakLine 1 t.isEmpty; some ⟨marks, 1, s⟩
      | .char '\r' =>
        let length := if t.head? = some (.char '\n') then 2 else 1
        let (marks, s) := s.breakLine length (t.length < length)
        some ⟨marks, length, s⟩
      | .char ' ' => some ⟨[], 1, if s.lineStart then (s.note g).past 1 else s.keep g⟩
      | _ =>
        let folded : Bool := g = .char '-' && s.turn = .inwards && s.written
        some ⟨[], 1, { s.keep g with folded := folded }⟩

/-- Takes the next glyph. -/
def step? (s : Scanner) (g : Glyph) (t : Text) : Option Advance :=
  let s := s.look g
  if s.folded then
    if s.turn = .level || s.turn = .outwards then
      let (marks, s) := s.cut
      (read? { s with folded := false } g t).map (.behind marks)
    else some (s.fold g t)
  else
    let (marks, s) := s.cutByTurn
    (s.read? g t).map (.behind marks)

/-- The marks of a text, `seen` being those before it in reverse. A step passes over at least one
glyph, so that as many steps as there are glyphs are enough. -/
def marksFrom (s : Scanner) (seen : List Placed) : Nat → Text → Option (List Placed)
  | _, [] => some (s.cut.1.reverse ++ seen).reverse
  | 0, _ => none
  | steps + 1, g :: t =>
    match s.step? g t with
    | none => none
    | some a => marksFrom a.after (a.marks.reverse ++ seen) steps ((g :: t).drop a.length)

end Scanner

/-- Tells every mark whether the next one is a colon. -/
def linked : List Placed → List Placed
  | m :: next :: ms => { m with beforeColon := next.mark = .colon } :: linked (next :: ms)
  | ms => ms

/-- The marks of a text without the comments; `none` if it has something that is not understood.
Bytes that are no characters count as the replacement character. -/
def ofText? (t : Text) : Option (List Placed) :=
  let t : Text := t.map fun g => .char g.code
  (Scanner.start.marksFrom [] t.length t).map fun ms =>
    (linked ms).filter fun m => m.mark ≠ .comment

end YamlMark

end PrologText
