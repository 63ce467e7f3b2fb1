import PrologText.CommandLine.Address
import PrologText.CommandLine.Files
import PrologText.CommandLine.Options
import PrologText.CommandLine.Prompt
import PrologText.CommandLine.Run
import PrologText.CommandLine.Template
import PrologText.Config
import PrologText.Cursor
import PrologText.Diagnostic
import PrologText.Dialect
import PrologText.Document.Basic
import PrologText.Document.Json
import PrologText.Document.Yaml
import PrologText.Document.Yaml.Mark
import PrologText.Document.Yaml.Node
import PrologText.Document.Yaml.Quoted
import PrologText.Document.Yaml.Scalar
import PrologText.Document.Yaml.Value
import PrologText.Flags
import PrologText.Json.Basic
import PrologText.Json.Writer
import PrologText.Main
import PrologText.Number.Binary64
import PrologText.Number.FloatText
import PrologText.Number.Positional
import PrologText.Number.Shortest
import PrologText.Operator.Basic
import PrologText.Operator.Standard
import PrologText.Operator.Store
import PrologText.Operator.Table
import PrologText.Program.Consult
import PrologText.Program.Directive
import PrologText.Proofs.AtomTexts
import PrologText.Proofs.BareTerms
import PrologText.Proofs.Bisimulation
import PrologText.Proofs.Bytes
import PrologText.Proofs.Classes
import PrologText.Proofs.ClauseLines
import PrologText.Proofs.Comments
import PrologText.Proofs.Completeness
import PrologText.Proofs.Completion
import PrologText.Proofs.Concatenation
import PrologText.Proofs.Conjunctions
import PrologText.Proofs.Course
import PrologText.Proofs.Coverage
import PrologText.Proofs.Definitions
import PrologText.Proofs.Endings
import PrologText.Proofs.ErrorChains
import PrologText.Proofs.ErrorPlaces
import PrologText.Proofs.Faults
import PrologText.Proofs.FloatLiterals
import PrologText.Proofs.Functors
import PrologText.Proofs.Grammar
import PrologText.Proofs.HeldTokens
import PrologText.Proofs.IntegerLiterals
import PrologText.Proofs.Layout
import PrologText.Proofs.Literals
import PrologText.Proofs.Lookahead
import PrologText.Proofs.Motion
import PrologText.Proofs.Nearest
import PrologText.Proofs.Numbering
import PrologText.Proofs.Occurrences
import PrologText.Proofs.Operands
import PrologText.Proofs.OptionalStops
import PrologText.Proofs.Phrases
import PrologText.Proofs.Positions
import PrologText.Proofs.Prolongation
import PrologText.Proofs.QuotedText
import PrologText.Proofs.ReadTerms
import PrologText.Proofs.Renaming
import PrologText.Proofs.Replay
import PrologText.Proofs.Rereading
import PrologText.Proofs.RoundTrip
import PrologText.Proofs.Safety
import PrologText.Proofs.Segments
import PrologText.Proofs.Separators
import PrologText.Proofs.Sessions
import PrologText.Proofs.Sharing
import PrologText.Proofs.Simulation
import PrologText.Proofs.Soundness
import PrologText.Proofs.Spans
import PrologText.Proofs.Spelling
import PrologText.Proofs.Stacks
import PrologText.Proofs.Tables
import PrologText.Proofs.TextPlaces
import PrologText.Proofs.Transparency
import PrologText.Proofs.Truncation
import PrologText.Proofs.Unterminated
import PrologText.Sentence.Basic
import PrologText.Sentence.Reader
import PrologText.Sentence.Reading
import PrologText.Sentence.Single
import PrologText.Sentence.Variables
import PrologText.Service.Basic
import PrologText.Service.Target
import PrologText.SyntaxError
import PrologText.Term.Basic
import PrologText.Term.Canonical
import PrologText.Term.NumberLiteral
import PrologText.Term.Projection
import PrologText.Text.Basic
import PrologText.Text.Category
import PrologText.Text.CategoryTable
import PrologText.Text.CharClass
import PrologText.Text.Quoted
import PrologText.Token.Basic
import PrologText.Token.Escape
import PrologText.Token.Lexeme
import PrologText.Token.Lexer
import PrologText.Token.Progress
import PrologText.Token.Stream
import PrologText.Proofs.Listings
import PrologText.Proofs.Projections
import PrologText.Proofs.LineBuffers
import PrologText.Proofs.PassedComments
import PrologText.Proofs.LineCursors
