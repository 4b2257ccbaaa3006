import Packrat.Rule.Basic

/-! # Checked rules

The constructors of this module refuse arguments that no rule can have, such as an empty literal
or a choice of a single rule. An operand is given as the result of building it, so that each
constructor decides which of several faults it reports.
-/

namespace Packrat

namespace Error

/-- The error of a fault in building a rule. -/
def build {α : Type} (fault : BuildFault) : Except Error α := .error (.construction fault)

end Error

namespace Rule

/-- The rule for the tokens of a lexical rule of the grammar. -/
def token? (name : String) : Except Error Rule :=
  if name = "" then Error.build .emptyTokenName else .ok (.token name)

/-- The rule for a literal, which gives its tokens its own text as their name. -/
def literal? (text : Text) (caseless : Bool) : Except Error Rule :=
  if text.isEmpty then Error.build .emptyLiteral
  else .ok (.terminal (.inline (String.ofList text) (.literal text) caseless))

/-- The rule for what the pattern of the given source matches. -/
def pattern? (name source : String) : Except Error Rule := do
  if name = "" then Error.build .emptyTokenName
  else return .terminal (.inline name (← LexRule.ofPattern source) false)

/-- The character of a code point, or the fault that there is none. -/
def scalarOf (code : Nat) : Except Error Char :=
  match scalar? code with
  | some c => .ok c
  | none => Error.build (.notScalar code)

/-- The rule for the character of a code point. -/
def codePoint? (code : Nat) : Except Error Rule := do
  let c ← scalarOf code
  return .terminal (.inline (Numeral.codePointName code) (.literal [c]) false)

/-- The rule for one character between two code points, both included. -/
def codeRange? (low high : Nat) : Except Error Rule := do
  let _ ← scalarOf low
  let _ ← scalarOf high
  if low > high then Error.build (.emptyRange low high)
  else
    pattern? (Numeral.codePointName low ++ ".." ++ Numeral.codePointName high)
      ("[\\x\x7b" ++ Numeral.hex low ++ "\x7d-\\x\x7b" ++ Numeral.hex high ++ "\x7d]")

/-- The operands, of which there must be two at least. -/
def operands (kind : String) (rules : List (Except Error Rule)) : Except Error (List Rule) := do
  let rules ← rules.mapM id
  if rules.length < 2 then Error.build (.tooFewRules kind rules.length) else return rules

/-- The rules one after the other. -/
def sequence? (rules : List (Except Error Rule)) : Except Error Rule :=
  .sequence <$> operands "sequence" rules

/-- Exactly one of the rules. -/
def choice? (rules : List (Except Error Rule)) : Except Error Rule :=
  .choice <$> operands "choice" rules

/-- The first of the rules that matches. -/
def ordered? (rules : List (Except Error Rule)) : Except Error Rule :=
  .ordered <$> operands "ordered choice" rules

/-- The rule as often as it matches within bounds, which are looked at before the rule. -/
def repetition? (rule : Except Error Rule) (min : Nat) (max : Option Nat) : Except Error Rule :=
  match max.filter (· < min) with
  | some max => Error.build (.invertedBounds min max)
  | none => rule.map (.repetition · min max)

/-- A reference to the production of a name. -/
def reference? (name : String) : Except Error Rule :=
  if name = "" then Error.build .emptyProductionName else .ok (.reference name)

end Rule

end Packrat
