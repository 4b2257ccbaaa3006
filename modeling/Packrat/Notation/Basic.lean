import Packrat.Parser

/-! # Notations for grammars

A notation is a language to write grammars in. It is described by a specification of its own,
whose parser reads a text, and by two folds, which turn the tree of a whole grammar and that of a
single expression into rules.
-/

namespace Packrat

/-- A language to write grammars in. -/
structure Notation where
  name : String
  /-- The production that reads a whole grammar. -/
  grammarProduction : String
  /-- The production that reads a single expression. -/
  fragmentProduction : String
  specification : Specification
  /-- The productions that the tree of a whole grammar stands for. -/
  foldGrammar : Tree → Except Error Specification
  /-- The rule that the tree of a single expression stands for. -/
  foldFragment : Tree → Except Error Rule

namespace Notation

/-- The parser of the notation itself. -/
def parser (language : Notation) : Parser := language.specification.parser

/-- The specification that a written grammar stands for. -/
def read (language : Notation) (text : Text) : Except Error Specification := do
  language.foldGrammar (← language.parser.parseAll language.grammarProduction text)

/-- The parser of a written grammar, with rules for the text that it ignores. -/
def compile (language : Notation) (text : Text) (ignore : List LexRule) : Except Error Parser :=
  (language.read text).map fun spec => (spec.ignoringAll ignore).parser

/-- The rule of a written expression. -/
def compileFragment (language : Notation) (text : Text) : Except Error Rule := do
  language.foldFragment (← language.parser.parseAll language.fragmentProduction text)

end Notation

end Packrat
