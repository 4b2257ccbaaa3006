import Packrat.Text.Position
import Packrat.Text.Quoted
import Packrat.Text.Numeral

/-! # Errors

An `Error` is raised when a failure can no longer be recovered from: a grammar that cannot be
built, an input that the asked production does not accept, a tree that a compiler cannot read.
Each constructor is a cause with its data, and `Error.message` is the only place of the wording.
-/

namespace Packrat

/-- Why a rule or a grammar cannot be built. -/
inductive BuildFault where
  | emptyTokenName
  | emptyLiteral
  | emptyProductionName
  | tooFewRules (kind : String) (count : Nat)
  | invertedBounds (min max : Nat)
  | notScalar (code : Nat)
  | emptyRange (low high : Nat)
  | invalidPattern (source : String)
  | duplicateProduction (name : String)
  | unknownEscape (language : String) (escape : Char) (body : Text)
  | danglingEscape (language : String) (body : Text)
  | badCodePoint (language : String) (digits body : Text)
  | duplicateRule (name : String)
  | missingRule (name : String)
  | badCount (digits : Text) (fault : NumeralFault)
  | badNumericValue (value : Text)
  | badNumeral (numeral value : Text) (fault : NumeralFault)
  | stated (text : String)
  deriving DecidableEq, Repr

namespace BuildFault

/-- The wording of a cause. -/
def message : BuildFault → String
  | .emptyTokenName => "token type name must not be empty"
  | .emptyLiteral => "literal must not be empty"
  | .emptyProductionName => "production name must not be empty"
  | .tooFewRules kind count => s!"{kind} needs at least two rules, got {count}"
  | .invertedBounds min max => s!"repetition bounds are inverted: min {min} > max {max}"
  | .notScalar code => s!"0x{Numeral.hex code} is not a Unicode scalar value"
  | .emptyRange low high =>
      s!"empty code point range {Numeral.codePointName low}..{Numeral.codePointName high}"
  | .invalidPattern source => s!"invalid lexical pattern /{source}/"
  | .duplicateProduction name => s!"production `{name}` is defined more than once"
  | .unknownEscape language escape body =>
      s!"{language}: unknown escape `\\{escape}` in literal {body.quoted}"
  | .danglingEscape language body => s!"{language}: dangling `\\` in literal {body.quoted}"
  | .badCodePoint language digits body =>
      s!"{language}: bad `\\u{String.ofList digits}` escape in literal {body.quoted}"
  | .duplicateRule name =>
      s!"ABNF: rule `{name}` is defined more than once; use `=/` to add alternatives"
  | .missingRule name => s!"ABNF: `{name} =/` adds alternatives to a rule that is not defined"
  | .badCount digits fault => s!"ABNF: bad repeat count {digits.quoted}: {fault.message}"
  | .badNumericValue value => s!"ABNF: bad numeric value {value.quoted}"
  | .badNumeral numeral value fault =>
      s!"ABNF: bad numeral {numeral.quoted} in {String.ofList value}: {fault.message}"
  | .stated text => text

end BuildFault

/-- What ends an operation for good. -/
inductive Error where
  /-- A rule or a grammar was put together from parts that do not fit. -/
  | construction (fault : BuildFault)
  /-- The production does not match the input. -/
  | rejected (production : String) (position : Position) (message : String)
  /-- An unordered choice matched in more than one way. -/
  | ambiguous (production : String) (position : Position) (message : String)
  /-- No production of this name was declared. -/
  | unknownProduction (name : String)
  /-- A tree has a shape that the compiler of a language does not read. -/
  | structural (language production found : String)
  /-- A token has a text that the compiler of a language does not read. -/
  | illegible (language production : String)
  /-- A construct of a language that cannot be run. -/
  | unsupported (language construct : String)
  /-- A text was to be cut at a place that is no character boundary. -/
  | misplacedCut (text : Text)
  /-- The application of a production never ends, because it leads back to itself. -/
  | endless (production : String)
  deriving DecidableEq, Repr

namespace Error

/-- The wording of an error. -/
def message : Error → String
  | .construction fault => s!"invalid grammar construction: {fault.message}"
  | .rejected production position message =>
      s!"`{production}` rejected input at {position.display}: {message}"
  | .ambiguous production position message =>
      s!"`{production}` is ambiguous at {position.display}: {message}"
  | .unknownProduction name => s!"no production rule named `{name}`"
  | .structural language production found =>
      s!"{language} compiler: unexpected parse tree for `{production}`: {found}"
  | .illegible language production =>
      s!"{language} compiler: unexpected parse tree for `{production}`"
  | .unsupported language construct => s!"{language}: {construct} is not supported"
  | .misplacedCut text => s!"{text.quoted} is cut inside a character"
  | .endless production => s!"`{production}` leads back to itself"

/-- Whether the error shows a defect of a compiler and not of what it was given. -/
def isInternal : Error → Bool
  | .structural .. | .illegible .. => true
  | _ => false

/-- What is done in two steps succeeds where both succeed. -/
theorem bind_eq_ok {α β : Type} {result : Except Error α} {next : α → Except Error β} {value : β} :
    result >>= next = .ok value ↔ ∃ a, result = .ok a ∧ next a = .ok value := by
  cases result with
  | ok a => exact ⟨fun done => ⟨a, rfl, done⟩, fun ⟨_, same, done⟩ => Except.ok.inj same ▸ done⟩
  | error fault =>
    constructor
    · intro done
      cases done
    · rintro ⟨_, same, -⟩
      cases same

end Error

end Packrat
