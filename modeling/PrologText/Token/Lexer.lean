import PrologText.Flags
import PrologText.Token.Escape
import PrologText.Token.Lexeme

/-!
# Scanning

`scan` reads the next token at a cursor. A token that cannot be read moves nothing: the error comes
with the cursor at the start of the token. Main statements: a token other than the end of file
leaves less unread than there was, and there is something to read where an error stands.
-/

namespace PrologText

/-- The outcome of reading one token. -/
inductive Scan where
  | token (t : Token) (after : Cursor)
  /-- The text at `start` is no token. If `exhausted`, a quoted text or comment that starts there
  goes on to the end of the input. -/
  | fault (e : SyntaxError) (start : Cursor) (exhausted : Bool)
  /-- The lines gave out before the token was complete. -/
  | failure (reason : Text) (stopped : Cursor)

/-- The next glyph at a cursor, if there is one, or why the lines gave out. -/
def Cursor.peek (c : Cursor) : Except Text (Option Glyph) :=
  let d := c.fill
  match d.rest, d.ending with
  | g :: _, _ => .ok (some g)
  | [], .endOfInput => .ok none
  | [], .failure reason => .error reason

/-! ## Quoted text -/

/-- A form of quoted text. -/
structure QuotedForm where
  quote : Char
  /-- Whether it is a single character. -/
  single : Bool
  escapes : Bool

/-- How quoted text ends. -/
inductive QuotedEnd where
  | closed (text : Text) (after : Cursor)
  /-- At the end of the lines. -/
  | unclosed (stopped : Cursor)
  /-- At a faulty escape sequence. -/
  | faulty (cause : SyntaxCause) (stopped : Cursor)

/-- Reads quoted text from a cursor inside it; `seen` is the text before the cursor in reverse. -/
def scanQuoted (f : QuotedForm) (seen : Text) (c : Cursor) : QuotedEnd :=
  let d := c.fill
  match h : d.rest with
  | [] => .unclosed d
  | g :: t =>
    have shorter (n : Nat) : (d.advance (n + 1)).unread < c.unread :=
      Nat.lt_of_lt_of_le (Cursor.unread_advance_lt (Nat.succ_pos n) (by simp [h]))
        c.unread_fill_le
    if g = .char f.quote then
      if t.head? = some g then
        if f.single then .closed (g :: seen).reverse (d.advance 2)
        else scanQuoted f (g :: seen) (d.advance 2)
      else .closed (if f.single then g :: seen else seen).reverse (d.advance 1)
    else if g = .char '\\' ∧ f.escapes then
      match Escape.ofText t with
      | .faulty cause => .faulty cause d
      | .lineBreak n => scanQuoted f seen (d.advance (n + 1))
      | .character ch n =>
        if f.single then .closed (.char ch :: seen).reverse (d.advance (n + 1))
        else scanQuoted f (.char ch :: seen) (d.advance (n + 1))
    else if f.single then .closed (.char g.code :: seen).reverse (d.advance 1)
    else scanQuoted f (g :: seen) (d.advance 1)
termination_by c.unread
decreasing_by all_goals exact shorter _

/-! ## Comments -/

/-- `n` more than the length of a text up to and including the end of a block comment. -/
def commentLengthFrom (n : Nat) : Text → Option Nat
  | [] => none
  | .char '*' :: .char '/' :: _ => some (n + 2)
  | _ :: t => commentLengthFrom (n + 1) t

/-- The cursor after the end of a block comment, for a cursor inside it; `none` if the comment goes
on to the end of the lines. -/
def afterComment? (c : Cursor) : List Text → Option Cursor
  | [] => (commentLengthFrom 0 c.rest).map c.advance
  | line :: later =>
    match commentLengthFrom 0 c.rest with
    | some n => some (c.advance n)
    | none => afterComment? (.atLine (c.number + 1) line later c.ending) later

/-! ## Tokens -/

namespace Scan

/-- The token of a name, with what follows it looked at. -/
def name (kind : TokenKind) (text : Text) (layout : Bool) (start after : Cursor) : Scan :=
  match after.peek with
  | .error reason => .failure reason after
  | .ok next => .token ⟨kind, text, layout, next = some (.char '('), start.place⟩ after

/-- The token of a single full stop. -/
def dot (layout : Bool) (start after : Cursor) : Scan :=
  match after.peek with
  | .error reason => .failure reason after
  | .ok next =>
    if Lexeme.endsSentence next.toList then .token ⟨.stop, ".", layout, false, start.place⟩ after
    else .token ⟨.atom, ".", layout, next = some (.char '('), start.place⟩ after

/-- A fault at `start` found with the cursor at `stopped`. -/
def faultAt (cause : SyntaxCause) (start stopped : Cursor) (exhausted : Bool) : Scan :=
  .fault ⟨cause, start.place, some (start.upTo stopped)⟩ start exhausted

/-- The lines end inside the token at `start`. -/
def unended (cause : SyntaxCause) (start stopped : Cursor) : Scan :=
  match stopped.ending with
  | .failure reason => .failure reason stopped
  | .endOfInput => faultAt cause start stopped true

/-- The kind of token that a form of quoted text is. -/
def quotedKind (f : QuotedForm) : TokenKind :=
  if f.single then .charCode
  else if f.quote = '"' then .doubleQuoted
  else if f.quote = '\x60' then .backQuoted
  else .quotedAtom

/-- The token of quoted text that starts at `start` and has its content at `inside`. -/
def quoted (f : QuotedForm) (layout : Bool) (start inside : Cursor) : Scan :=
  match scanQuoted f [] inside with
  | .unclosed stopped =>
    unended (if f.single then .unterminatedCharCode else .unterminatedQuotedText) start stopped
  | .faulty cause stopped => faultAt cause start stopped false
  | .closed text after =>
    let kind := quotedKind f
    if kind = .quotedAtom then name kind text.rejoin layout start after
    else .token ⟨kind, text.rejoin, layout, false, start.place⟩ after

/-- The token that starts at a cursor, `c` being the character there. -/
def lexeme (flags : Flags) (layout : Bool) (c : Char) (start : Cursor) : Scan :=
  match Lexeme.ofText c start.rest with
  | .plain kind lead length =>
    .token ⟨kind, (start.rest.take length).drop lead, layout, false, start.place⟩
      (start.advance length)
  | .name length => name .atom (start.rest.take length) layout start (start.advance length)
  | .dot => dot layout start (start.advance 1)
  | .quotedText q => quoted ⟨q, false, flags.charEscapes⟩ layout start (start.advance 1)
  | .charCode => quoted ⟨'\'', true, flags.charEscapes⟩ layout start (start.advance 2)
  | .unknown c => faultAt (.illegalCharacter c) start start false

end Scan

theorem afterComment?_unread_le {c d : Cursor} {later : List Text} (hl : c.later = later)
    (h : afterComment? c later = some d) : d.unread ≤ c.unread := by
  induction later generalizing c with
  | nil =>
    obtain ⟨n, _, rfl⟩ := Option.map_eq_some_iff.1 h
    exact c.unread_advance_le n
  | cons line later ih =>
    simp only [afterComment?] at h
    split at h
    · cases h
      exact c.unread_advance_le _
    · refine Nat.le_trans (ih rfl h) ?_
      rw [Cursor.unread_atLine]
      simp only [Cursor.unread, hl, Cursor.extent]
      omega

/-- Reads the next token at a cursor. `layout` tells that white space or a comment has been passed
over already. -/
def scanFrom (flags : Flags) (layout : Bool) (c : Cursor) : Scan :=
  let d := c.fill
  match h : d.rest with
  | [] =>
    match d.ending with
    | .failure reason => .failure reason d
    | .endOfInput => .token ⟨.endOfFile, [], layout, false, d.place⟩ d
  | g :: t =>
    have hd : d.rest ≠ [] := by simp [h]
    have hdc : d.unread ≤ c.unread := c.unread_fill_le
    if CharClass.isBlank g.code then
      have shorter : (d.advance 1).unread < c.unread :=
        Nat.lt_of_lt_of_le (Cursor.unread_advance_lt Nat.one_pos hd) hdc
      scanFrom flags true (d.advance 1)
    else if g = .char '%' then
      let after := d.toLineEnd
      if flags.keepComments then
        .token ⟨.comment, d.rest.trimLineEnd, layout, false, d.place⟩ after
      else
        have shorter : after.unread < c.unread :=
          Nat.lt_of_lt_of_le (Cursor.unread_toLineEnd_lt hd) hdc
        scanFrom flags true after
    else if Lexeme.opensComment (g :: t) then
      match ha : afterComment? (d.advance 2) d.later with
      | none => .unended .unterminatedComment d d.toEnd
      | some after =>
        if flags.keepComments then
          .token ⟨.comment, d.upTo after, layout, false, d.place⟩ after
        else
          have shorter : after.unread < c.unread :=
            Nat.lt_of_le_of_lt (afterComment?_unread_le (c := d.advance 2) rfl ha)
              (Nat.lt_of_lt_of_le (Cursor.unread_advance_lt Nat.two_pos hd) hdc)
          scanFrom flags true after
    else .lexeme flags layout g.code d
termination_by c.unread
decreasing_by all_goals exact shorter

/-- Reads the next token at a cursor. -/
def scan (flags : Flags) (c : Cursor) : Scan :=
  scanFrom flags false c

end PrologText
