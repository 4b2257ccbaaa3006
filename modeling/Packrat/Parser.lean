import Packrat.Grammar.Environment
import Packrat.Specification

/-! # Parsers

A parser applies the productions of a grammar to whole texts, each with an environment of its
own. A reject that reaches the top becomes an error with the position in the text.
-/

namespace Packrat

/-- A grammar whose productions can be applied to texts. -/
structure Parser where
  grammar : Grammar

/-- The parser of a specification. -/
def Specification.parser (spec : Specification) : Parser := ⟨spec.grammar⟩

namespace Parser

/-- The error of a production that rejects a text. -/
def rejection (production : String) (text : Text) (reject : Reject) : Error :=
  let position := Position.locate text reject.cursor.offset
  match reject.kind with
  | .mismatch => .rejected production position reject.reason.message
  | .ambiguous => .ambiguous production position reject.reason.message

/-- Applies a production at the start of a text. -/
def run (parser : Parser) (production : String) (text : Text) : Except Error Match :=
  match (Environment.start parser.grammar).applyAt? production (.start text) with
  | none => .error (.endless production)
  | some (none, _) => .error (.unknownProduction production)
  | some (some (.ok found), _) => .ok found
  | some (some (.error reject), _) => .error (rejection production text reject)

/-- The tree of a production at the start of a text. What follows it is not looked at. -/
def parse (parser : Parser) (production : String) (text : Text) : Except Error Tree :=
  (parser.run production text).map (·.node)

/-- The tree of a production for a text, all of which it matches but for ignored text. -/
def parseAll (parser : Parser) (production : String) (text : Text) : Except Error Tree := do
  let found ← parser.run production text
  let rest := found.cursor.skip parser.grammar.ignore
  if rest.atEnd then return found.node
  else
    .error (.rejected production (.locate text rest.offset)
      s!"unexpected trailing input at offset {rest.offset}")

/-- The names of the productions in order. -/
def productionNames (parser : Parser) : List String := parser.grammar.productions.names

/-- Whether there is a production of the name. -/
def hasProduction (parser : Parser) (name : String) : Bool :=
  parser.grammar.productions.contains name

end Parser

/-- A parser for one of its productions. -/
structure EntryPoint where
  parser : Parser
  production : String

namespace EntryPoint

/-- The entry point of a production that the parser has. -/
def of (parser : Parser) (production : String) : Except Error EntryPoint :=
  if parser.hasProduction production then .ok ⟨parser, production⟩
  else .error (.unknownProduction production)

/-- The entry points of all productions by name, in order. -/
def all (parser : Parser) : List EntryPoint :=
  parser.productionNames.map fun name => ⟨parser, name⟩

/-- The tree of the production at the start of a text. -/
def parse (entry : EntryPoint) (text : Text) : Except Error Tree :=
  entry.parser.parse entry.production text

/-- The tree of the production for all of a text. -/
def parseAll (entry : EntryPoint) (text : Text) : Except Error Tree :=
  entry.parser.parseAll entry.production text

/-- A short account of the entry point. -/
def describe (entry : EntryPoint) : String :=
  s!"EntryPoint \x7b production: {quotedName entry.production} \x7d"

end EntryPoint

end Packrat
