import PrologText.Diagnostic
import PrologText.Term.Canonical
import PrologText.Token.Basic

/-!
# Syntax errors

Why a text cannot be read, and where. Every cause belongs to a class and has a message.
-/

namespace PrologText

inductive SyntaxCause where
  | illegalCharacter (c : Char)
  | unterminatedComment
  | unterminatedQuotedText
  | unterminatedCharCode
  /-- A backslash at the end of a line that has no newline. -/
  | danglingEscape
  | undefinedEscape (c : Char)
  | malformedEscape (sequence : Text)
  | invalidEscape (sequence : Text)
  | badNumber (error : NumberError)
  | noArgument (got : Text)
  | noArgumentAfter (operator : Atom) (got : Text)
  | prefixOperatorAlone (operator : Atom) (got : Text)
  | noTerm (got : Text)
  | noOperator (got : Text)
  | unmatchedBracket (b : Bracket)
  | unexpectedEnd (got expected : TokenKind)
  | nonAssociative (left right : Atom) (priority : Nat)
  | priorityClash (operator : Atom)
  /-- A list with a comma after its bar. -/
  | manyTails
  /-- A list with a second bar. -/
  | misplacedBar
  | noSentence
  | afterSentence (got : Text)

namespace SyntaxCause

/-- The class of a cause. -/
def className : SyntaxCause → String
  | illegalCharacter _ | unterminatedCharCode | badNumber _ => "token_error"
  | unterminatedQuotedText | danglingEscape | undefinedEscape _ | malformedEscape _
  | invalidEscape _ => "string_error"
  | unterminatedComment => "comment_error"
  | unexpectedEnd _ _ => "end_of_file_error"
  | nonAssociative _ _ _ | priorityClash _ | manyTails | misplacedBar =>
    "functor_or_operator_error"
  | noOperator _ | unmatchedBracket _ => "expected_operator_error"
  | noArgument _ | noArgumentAfter _ _ => "expected_argument_error"
  | prefixOperatorAlone _ _ | noTerm _ | noSentence | afterSentence _ =>
    "expected_sentence_error"

def message : SyntaxCause → Text
  | illegalCharacter c => "illegal character " ++ CharClass.shown c
  | unterminatedComment => "unterminated block comment"
  | unterminatedQuotedText => "unterminated quoted literal"
  | unterminatedCharCode => "unexpected end of file in character code"
  | danglingEscape => "undefined escape sequence"
  | undefinedEscape c => "undefined escape sequence \\" ++ ([.char c] : Text)
  | malformedEscape sequence => "malformed numeric escape sequence " ++ sequence.shown
  | invalidEscape sequence => "invalid character code in escape sequence " ++ sequence.shown
  | badNumber error => error.message
  | noArgument got => "argument expected, got " ++ got
  | noArgumentAfter operator got => "argument expected after " ++ operator.text ++ ", got " ++ got
  | prefixOperatorAlone operator got =>
    "unexpected " ++ got ++ " after prefix operator " ++ operator.text
  | noTerm got => "unexpected " ++ got ++ ", expected a term"
  | noOperator got => "operator expected, got " ++ got
  | unmatchedBracket b =>
    "unexpected " ++ (TokenKind.closing b).name ++ " without matching " ++
      (TokenKind.opening b).name
  | unexpectedEnd got expected => "unexpected " ++ got.name ++ ", expected " ++ expected.name
  | nonAssociative left right priority =>
    "operator priority clash: " ++ left.text ++ " and " ++ right.text
      ++ " are both xfx at priority " ++ Positional.decimal priority
  | priorityClash operator => "operator priority clash at " ++ operator.text
  | manyTails => "malformed list: more than one term after \x60|\x60"
  | misplacedBar => "malformed list: misplaced \x60|\x60"
  | noSentence => "no sentence in input"
  | afterSentence got => "unexpected " ++ got ++ " after the sentence"

end SyntaxCause

structure SyntaxError where
  cause : SyntaxCause
  place : Place
  /-- For a token that cannot be read: the text from its start to where reading failed. -/
  consumed : Option Text

def SyntaxError.diagnostic (e : SyntaxError) : Diagnostic :=
  let details : Details :=
    [("line", .text e.place.text.trimLineEnd), ("line_number", .integer e.place.line),
      ("column", .integer e.place.column)]
  let consumed : Details :=
    match e.consumed with
    | none => []
    | some t => [("consumed", .text t)]
  .tagged Diagnostic.syntaxTag (details ++ consumed)
    (some (.tagged e.cause.className [] (some (.plain e.cause.message))))

end PrologText
