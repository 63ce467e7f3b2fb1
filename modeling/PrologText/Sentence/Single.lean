import PrologText.Sentence.Reader

/-!
# Texts of one sentence

Reading a text that must hold exactly one sentence, and a log of how it was read.
-/

namespace PrologText

/-- Reads the next token at a cursor that is no comment. -/
def scanUncommented (flags : Flags) (c : Cursor) : Scan :=
  match hs : scan flags c with
  | .token t after =>
    if hc : t.kind = .comment then
      have : after.unread < c.unread := scan_token_unread_lt hs (by simp [hc])
      scanUncommented flags after
    else .token t after
  | other => other
termination_by c.unread

/-- The course of reading a text of one sentence. -/
structure SingleRead where
  result : Except ReadError Term
  /-- The tokens that were taken, comments left aside where they follow the sentence. -/
  tokens : List Token
  /-- The number of the last variable. -/
  issued : Nat

namespace SingleRead

/-- Reads a text that holds one sentence and nothing after it. -/
def ofText (d : Dialect) (issued : Nat) (t : Text) : SingleRead :=
  let run := Run.at d issued (.ofText t)
  match run.outcome with
  | .error e => ⟨.error e, run.tokens, run.issued⟩
  | .endOfInput => ⟨.error (.malformed ⟨.noSentence, ⟨1, 1, []⟩, none⟩), run.tokens, run.issued⟩
  | .sentence s =>
    match scanUncommented d.flags run.cursor with
    | .failure reason _ => ⟨.error (.failure reason), run.tokens, run.issued⟩
    | .fault e _ _ => ⟨.error (.malformed e), run.tokens, run.issued⟩
    | .token t _ =>
      let result : Except ReadError Term :=
        if t.kind = .endOfFile then .ok s.term
        else .error (.malformed ⟨.afterSentence t.describe, t.place, none⟩)
      ⟨result, run.tokens ++ [t], run.issued⟩

end SingleRead

/-! ## Logs -/

namespace Reading

/-- The entry of a token in the log. -/
def tokenEntry (t : Token) : Text :=
  "token:  " ++ t.describe

/-- The entry of the expression that a token ends, if it ends one. -/
def expressionEntry (d : Dialect) (r : Reading) (t : Token) : List Text :=
  if r.endsWith d.flags t then
    match r.expression t with
    | .ok term => ["read:  " ++ term.canonical]
    | .error _ => []
  else []

/-- Whether the next token was looked at only to decide what came before it. -/
def looksAhead (r : Reading) : Bool :=
  match r.expects with
  | .operand | .operator _ => false
  | _ => true

/-- The log of a reading: every token, a second time if it was looked at ahead, and every expression
once it is complete. -/
def log (d : Dialect) : Reading → List Token → List Text
  | _, [] => []
  | r, t :: ts =>
    if t.kind = .comment then log d r ts
    else
      let (entries, step) : List Text × Step :=
        match r.settle d t with
        | .taken s => ([tokenEntry t], s)
        | .ready next =>
          let tokens := if r.looksAhead then [tokenEntry t, tokenEntry t] else [tokenEntry t]
          (tokens ++ next.expressionEntry d t, next.take d t)
      match step with
      | .more next => entries ++ log d next ts
      | _ => entries ++ (ts.filter (·.kind ≠ .comment)).map tokenEntry

end Reading

/-- The lines of the log of reading a text of one sentence. -/
def SingleRead.logLines (s : SingleRead) (d : Dialect) (issued : Nat) : List Text :=
  ((Reading.start issued).log d s.tokens).flatMap Text.splitAtNewlines

end PrologText
