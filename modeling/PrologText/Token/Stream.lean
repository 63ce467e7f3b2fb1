import PrologText.Token.Progress

/-!
# Token streams

All tokens of a text up to its end or to the first text that is no token.
-/

namespace PrologText

/-- How a stream of tokens ends. -/
inductive StreamEnd where
  | endOfFile
  | fault (e : SyntaxError)
  | failure (reason : Text)

/-- The tokens at a cursor up to the end of the file, and how they end; `seen` are the tokens before
the cursor in reverse. -/
def tokensFrom (flags : Flags) (seen : List Token) (c : Cursor) : List Token × StreamEnd :=
  match hs : scan flags c with
  | .failure reason _ => (seen.reverse, .failure reason)
  | .fault e _ _ => (seen.reverse, .fault e)
  | .token t after =>
    if he : t.kind = .endOfFile then (seen.reverse, .endOfFile)
    else
      have : after.unread < c.unread := scan_token_unread_lt hs he
      tokensFrom flags (t :: seen) after
termination_by c.unread

end PrologText
