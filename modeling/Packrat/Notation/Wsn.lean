import Packrat.Notation.Basic
import Packrat.Notation.Escape
import Packrat.Notation.Shape

/-! # Wirth syntax notation

Productions end with `.`, factors stand side by side, and a quote within a literal is written
twice. Alternatives are an unordered choice.
-/

namespace Packrat.Notation.Wsn

/-- The name used in reports. -/
def language : String := "WSN"

theorem wellFormed_identifier : (Pattern.ofSource? "[A-Za-z][A-Za-z0-9_]*").isSome = true := by
  decide +kernel

theorem wellFormed_literal : (Pattern.ofSource? "\"(?:[^\"]|\"\")+\"").isSome = true := by
  decide +kernel

/-- The notation described by a grammar. -/
def specification : Specification where
  lexicon := .ofList
    [("identifier", .pattern (.of "[A-Za-z][A-Za-z0-9_]*" wellFormed_identifier)),
     ("literal", .pattern (.of "\"(?:[^\"]|\"\")+\"" wellFormed_literal))]
  ignore := [.pattern (.of "\\s+" Pattern.wellFormed_blanks)]
  productions := .ofList
    [("syntax", .zeroOrMore (.reference "production")),
     ("production", .sequence
       [.token "identifier", .text "=", .reference "expression", .text "."]),
     ("expression", .sequence
       [.reference "term", .zeroOrMore (.sequence [.text "|", .reference "term"])]),
     ("term", .oneOrMore (.reference "factor")),
     ("factor", .choice
       [.reference "identifier", .reference "literal", .reference "option",
        .reference "group", .reference "repeat"]),
     ("identifier", .token "identifier"),
     ("literal", .token "literal"),
     ("option", .sequence [.text "[", .reference "expression", .text "]"]),
     ("group", .sequence [.text "(", .reference "expression", .text ")"]),
     ("repeat", .sequence [.text "\x7b", .reference "expression", .text "\x7d"])]

/-- The text with every pair of quotes as one quote, pairs being taken from the left. -/
def undouble : Text → Text
  | [] => []
  | '"' :: '"' :: rest => '"' :: undouble rest
  | c :: rest => c :: undouble rest

mutual

/-- The rule of a named expression. -/
def foldNamed : Tree → Except Error Rule
  | node@(.named name body) =>
      if name = "expression" then foldExpression body else node.defect language "expression"
  | node => node.defect language "expression"

/-- The rule of the body of an expression. -/
def foldExpression : Tree → Except Error Rule
  | .array [first, rest] => do
      let head ← foldTerm first
      match rest with
      | .array others => Rule.alternatives false (head :: (← foldBranches others))
      | other => other.defect language "expression"
  | body => body.defect language "expression"

/-- The rules of the alternatives after the first. -/
def foldBranches : List Tree → Except Error (List Rule)
  | [] => .ok []
  | .array [_, term] :: more => do
      let rule ← foldTerm term
      return rule :: (← foldBranches more)
  | node :: _ => node.defect language "expression"

/-- The rule of a named term. -/
def foldTerm : Tree → Except Error Rule
  | node@(.named name body) =>
      if name = "term" then foldSequence body else node.defect language "term"
  | node => node.defect language "term"

/-- The rule of the body of a term. -/
def foldSequence : Tree → Except Error Rule
  | .array factors => do Rule.concatenation (← foldFactors factors)
  | body => body.defect language "term"

/-- The rules of several factors. -/
def foldFactors : List Tree → Except Error (List Rule)
  | [] => .ok []
  | factor :: more => do
      let rule ← foldFactor factor
      return rule :: (← foldFactors more)

/-- The rule of a named factor. -/
def foldFactor : Tree → Except Error Rule
  | node@(.named name factor) =>
      if name = "factor" then foldVariant factor else node.defect language "factor"
  | node => node.defect language "factor"

/-- The rule of a factor of any variant. -/
def foldVariant : Tree → Except Error Rule
  | factor@(.named kind body) =>
      if kind = "identifier" then do Rule.reference? (← body.leafName language "identifier")
      else if kind = "literal" then do
        let text ← body.leafText language "literal"
        Rule.literal? (undouble (Escape.stripQuotes text)) false
      else if kind = "option" then (foldEnclosed "option" body).map .optional
      else if kind = "group" then foldEnclosed "group" body
      else if kind = "repeat" then (foldEnclosed "repeat" body).map .zeroOrMore
      else factor.defect language "factor"
  | factor => factor.defect language "factor"

/-- The rule of an expression between brackets. -/
def foldEnclosed (kind : String) : Tree → Except Error Rule
  | .array [_, expression, _] => foldNamed expression
  | body => body.defect language kind

end

/-- Adds one production. -/
def foldRule (spec : Specification) : Tree → Except Error Specification
  | node@(.named name body) =>
      if name = "production" then
        match body with
        | .array [defined, _, expression, _] => do
            let rule ← foldNamed expression
            spec.production (← defined.leafName language "production") (.ok rule)
        | other => other.defect language "production"
      else node.defect language "production"
  | node => node.defect language "production"

/-- The productions of a grammar. -/
def foldGrammar : Tree → Except Error Specification
  | .array rules => rules.foldlM foldRule .empty
  | node => node.defect language "syntax"

end Packrat.Notation.Wsn

namespace Packrat.Notation

/-- Wirth syntax notation. -/
def wsn : Notation where
  name := Wsn.language
  grammarProduction := "syntax"
  fragmentProduction := "expression"
  specification := Wsn.specification
  foldGrammar := Wsn.foldGrammar
  foldFragment := Wsn.foldExpression

end Packrat.Notation
