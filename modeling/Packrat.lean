import Packrat.Binary64
import Packrat.CharClass.Blank
import Packrat.CharClass.Digit
import Packrat.CharClass.Folding
import Packrat.CharClass.Hidden
import Packrat.CharClass.Lowercase
import Packrat.CharClass.Ranges
import Packrat.CharClass.Word
import Packrat.Error
import Packrat.Grammar.Basic
import Packrat.Grammar.Environment
import Packrat.Json.CommandLine
import Packrat.Json.Decode
import Packrat.Json.Grammar
import Packrat.Json.NumberText
import Packrat.Json.Printer
import Packrat.Json.StringText
import Packrat.Json.TreeDump
import Packrat.Json.Value
import Packrat.Lexicon.Cursor
import Packrat.Lexicon.Rule
import Packrat.Lexicon.Scan
import Packrat.Lexicon.Standard
import Packrat.Lexicon.Token
import Packrat.Main
import Packrat.Notation.Abnf
import Packrat.Notation.Basic
import Packrat.Notation.Bnf
import Packrat.Notation.Ebnf
import Packrat.Notation.Escape
import Packrat.Notation.Peg
import Packrat.Notation.Shape
import Packrat.Notation.Wsn
import Packrat.Parser
import Packrat.Pattern.Basic
import Packrat.Pattern.Bracket
import Packrat.Pattern.ByteForm
import Packrat.Pattern.CharSet
import Packrat.Pattern.Escape
import Packrat.Pattern.Flags
import Packrat.Pattern.Match
import Packrat.Pattern.Memory
import Packrat.Pattern.Place
import Packrat.Pattern.Program
import Packrat.Pattern.Reader
import Packrat.Pattern.Regex
import Packrat.Pattern.Symbol
import Packrat.Proofs.Abnf.AnyTree
import Packrat.Proofs.Abnf.CoreRules
import Packrat.Proofs.Abnf.Merging
import Packrat.Proofs.Abnf.NumericValues
import Packrat.Proofs.Abnf.Patterns
import Packrat.Proofs.Abnf.Recognition
import Packrat.Proofs.Abnf.References
import Packrat.Proofs.Abnf.RoundTrip
import Packrat.Proofs.Abnf.Slices
import Packrat.Proofs.Abnf.Tokens
import Packrat.Proofs.Abnf.Values
import Packrat.Proofs.Abnf.Written
import Packrat.Proofs.Alternatives
import Packrat.Proofs.Ambiguity
import Packrat.Proofs.AmbiguityReports
import Packrat.Proofs.Bnf.Recognition
import Packrat.Proofs.Bnf.RoundTrip
import Packrat.Proofs.Bnf.Tokens
import Packrat.Proofs.Bnf.Written
import Packrat.Proofs.Building
import Packrat.Proofs.Bytes.Cuts
import Packrat.Proofs.Bytes.Machine
import Packrat.Proofs.Bytes.Safety
import Packrat.Proofs.Bytes.Simulation
import Packrat.Proofs.Caseless
import Packrat.Proofs.Consumption
import Packrat.Proofs.Continuation
import Packrat.Proofs.Counts
import Packrat.Proofs.Coverage
import Packrat.Proofs.Cursor
import Packrat.Proofs.Declarations
import Packrat.Proofs.Depth
import Packrat.Proofs.Ebnf.Recognition
import Packrat.Proofs.Ebnf.RoundTrip
import Packrat.Proofs.Ebnf.Tokens
import Packrat.Proofs.Ebnf.Written
import Packrat.Proofs.Evaluation
import Packrat.Proofs.Formal.Derivation
import Packrat.Proofs.Formal.Refinement
import Packrat.Proofs.Gaps
import Packrat.Proofs.Ignoring
import Packrat.Proofs.Json.ClosingQuote
import Packrat.Proofs.Json.Conformance
import Packrat.Proofs.Json.Decoding
import Packrat.Proofs.Json.Derivation
import Packrat.Proofs.Json.Document
import Packrat.Proofs.Json.Failures
import Packrat.Proofs.Json.NormalForm
import Packrat.Proofs.Json.Printing
import Packrat.Proofs.Json.Reading
import Packrat.Proofs.Json.Recognition
import Packrat.Proofs.Json.Standard
import Packrat.Proofs.Json.Strings
import Packrat.Proofs.Json.TreeDump
import Packrat.Proofs.LaterAlternatives
import Packrat.Proofs.LeftRecursion
import Packrat.Proofs.Locality
import Packrat.Proofs.Memoization
import Packrat.Proofs.Notation.Abnf
import Packrat.Proofs.Notation.Agreement
import Packrat.Proofs.Notation.AnyTree
import Packrat.Proofs.Notation.Bnf
import Packrat.Proofs.Notation.Ebnf
import Packrat.Proofs.Notation.Folding
import Packrat.Proofs.Notation.Fragments
import Packrat.Proofs.Notation.Literals
import Packrat.Proofs.Notation.OrderedOnly
import Packrat.Proofs.Notation.Peg
import Packrat.Proofs.Notation.Placeless
import Packrat.Proofs.Notation.Reading
import Packrat.Proofs.Notation.RuleOrder
import Packrat.Proofs.Notation.Totality
import Packrat.Proofs.Notation.Written
import Packrat.Proofs.Notation.Wsn
import Packrat.Proofs.Parsing
import Packrat.Proofs.Pattern.Appended
import Packrat.Proofs.Pattern.Backtrack
import Packrat.Proofs.Pattern.Begins
import Packrat.Proofs.Pattern.CodePoints
import Packrat.Proofs.Pattern.Enclosed
import Packrat.Proofs.Pattern.Ends
import Packrat.Proofs.Pattern.Escaped
import Packrat.Proofs.Pattern.Frontier
import Packrat.Proofs.Pattern.Interval
import Packrat.Proofs.Pattern.Matches
import Packrat.Proofs.Pattern.Remainders
import Packrat.Proofs.Pattern.Soundness
import Packrat.Proofs.Pattern.Spelling
import Packrat.Proofs.Pattern.Steady
import Packrat.Proofs.Pattern.Wrapping
import Packrat.Proofs.Peg.Literal
import Packrat.Proofs.Peg.Recognition
import Packrat.Proofs.Peg.RoundTrip
import Packrat.Proofs.Peg.Tokens
import Packrat.Proofs.Peg.Written
import Packrat.Proofs.Remainders
import Packrat.Proofs.Repetition
import Packrat.Proofs.Rereading
import Packrat.Proofs.Seeking
import Packrat.Proofs.Skipping
import Packrat.Proofs.Spacing
import Packrat.Proofs.Terminal
import Packrat.Proofs.Termination
import Packrat.Proofs.Text.Encoding
import Packrat.Proofs.Text.Position
import Packrat.Proofs.Trace
import Packrat.Proofs.Unfolding
import Packrat.Proofs.Wsn.Recognition
import Packrat.Proofs.Wsn.RoundTrip
import Packrat.Proofs.Wsn.Tokens
import Packrat.Proofs.Wsn.Written
import Packrat.Proofs.Yield
import Packrat.Rule.Basic
import Packrat.Rule.Build
import Packrat.Rule.Eval
import Packrat.Rule.Outcome
import Packrat.Specification
import Packrat.Table
import Packrat.Text.Basic
import Packrat.Text.Numeral
import Packrat.Text.Position
import Packrat.Text.Quoted
import Packrat.Text.Slice
import Packrat.Tree
