import Packrat.Grammar.Basic
import Packrat.Lexicon.Standard
import Packrat.Rule.Build

/-! # Specifications

A specification collects the lexical rules, the productions and the ignored text of a parser.
Productions may refer to others that are declared later or never; names are looked up when the
parser runs. No production is declared twice.
-/

namespace Packrat

/-- The parts of a parser. -/
structure Specification where
  lexicon : Lexicon
  productions : Table Rule
  ignore : List LexRule

namespace Specification

/-- The specification without any parts. -/
def empty : Specification := ⟨.empty, .empty, []⟩

/-- Declares a lexical rule, instead of any rule of the same name. -/
def lexicalRule (spec : Specification) (name : String) (rule : LexRule) : Specification :=
  { spec with lexicon := spec.lexicon.insert name rule }

/-- Declares the lexical rule of a pattern. -/
def lexicalPattern (spec : Specification) (name source : String) : Except Error Specification :=
  (LexRule.ofPattern source).map (spec.lexicalRule name)

/-- Declares a production. The name is looked at before the rule. -/
def production (spec : Specification) (name : String) (rule : Except Error Rule) :
    Except Error Specification :=
  if name = "" then Error.build .emptyProductionName
  else if spec.productions.contains name then Error.build (.duplicateProduction name)
  else rule.map fun rule => { spec with productions := spec.productions.insert name rule }

/-- Declares the productions of a table in the order of their names. -/
def declareAll (spec : Specification) (rules : Table Rule) : Except Error Specification :=
  rules.entries.foldlM (fun spec (name, rule) => spec.production name (.ok rule)) spec

/-- Adds a rule for ignored text after those there are. -/
def ignoring (spec : Specification) (rule : LexRule) : Specification :=
  { spec with ignore := spec.ignore ++ [rule] }

/-- Adds the pattern of ignored text after the rules there are. -/
def ignoringPattern (spec : Specification) (source : String) : Except Error Specification :=
  (LexRule.ofPattern source).map spec.ignoring

/-- Adds several rules for ignored text. -/
def ignoringAll (spec : Specification) (rules : List LexRule) : Specification :=
  { spec with ignore := spec.ignore ++ rules }

/-- The grammar of the specification, which has the standard tokens that it does not replace. -/
def grammar (spec : Specification) : Grammar :=
  ⟨spec.productions, Lexicon.standard.insertAll spec.lexicon.entries, spec.ignore⟩

end Specification

end Packrat
