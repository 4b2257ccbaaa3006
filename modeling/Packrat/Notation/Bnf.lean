import Packrat.Notation.Basic
import Packrat.Notation.Escape
import Packrat.Notation.Shape

/-! # Backus-Naur form

A rule `<name> ::= expression` ends with its line, though a line that begins with `|` goes on
with the rule before. Alternatives are an unordered choice, and `""` stands for nothing.
-/

namespace Packrat.Notation.Bnf

/-- The name used in reports. -/
def language : String := "BNF"

theorem wellFormed_lineEnd : (Pattern.ofSource? "(?:[ \\t]*\\r?\\n)+").isSome = true := by
  decide +kernel

theorem wellFormed_text : (Pattern.ofSource?
    "\"(?:[^\"\\\\\\n]|\\\\.)*\"|'(?:[^'\\\\\\n]|\\\\.)*'").isSome = true := by
  decide +kernel

theorem wellFormed_spaces : (Pattern.ofSource? "[ \\t]+").isSome = true := by decide +kernel

/-- The notation described by a grammar. -/
def specification : Specification where
  lexicon := .ofList
    [("rule-name", .pattern (.of "[A-Za-z][A-Za-z0-9_\\-]*" Pattern.wellFormed_hyphenated)),
     ("line-end", .pattern (.of "(?:[ \\t]*\\r?\\n)+" wellFormed_lineEnd)),
     ("text", .pattern
       (.of "\"(?:[^\"\\\\\\n]|\\\\.)*\"|'(?:[^'\\\\\\n]|\\\\.)*'" wellFormed_text))]
  ignore := [.pattern (.of "[ \\t]+" wellFormed_spaces)]
  productions := .ofList
    [("syntax", .sequence [.optional (.token "line-end"), .oneOrMore (.reference "rule")]),
     ("rule", .sequence
       [.text "<", .token "rule-name", .text ">", .text "::=", .reference "expression",
        -- or the end of the text, after blanks
        .ordered [.token "line-end", .absent .anyChar]]),
     ("expression", .sequence
       [.reference "list",
        .zeroOrMore (.sequence [.optional (.token "line-end"), .text "|", .reference "list"])]),
     ("list", .oneOrMore (.ordered [.reference "reference", .reference "literal"])),
     ("reference", .sequence [.text "<", .token "rule-name", .text ">"]),
     ("literal", .token "text")]

/-- The rule of a reference or a literal. -/
def foldTerm : Tree → Except Error Rule
  | node@(.named name body) =>
      if name = "reference" then
        match body with
        | .array [_, target, _] => do Rule.reference? (← target.leafName language "reference")
        | other => other.defect language "reference"
      else if name = "literal" then do
        let text ← body.leafText language "literal"
        Rule.textOrEmpty (← Escape.unescape language (Escape.stripQuotes text))
      else node.defect language "list"
  | node => node.defect language "list"

/-- The rule of one alternative. -/
def foldList : Tree → Except Error Rule
  | node@(.named name body) =>
      if name = "list" then
        match body with
        | .array terms => do Rule.concatenation (← terms.mapM foldTerm)
        | other => other.defect language "list"
      else node.defect language "list"
  | node => node.defect language "list"

/-- The rule of an alternative after the first. -/
def foldAlternative : Tree → Except Error Rule
  | .array [_, _, list] => foldList list
  | node => node.defect language "expression"

/-- The rule of the body of an expression. -/
def foldExpression : Tree → Except Error Rule
  | .array [first, rest] => do
      let head ← foldList first
      match rest with
      | .array others => Rule.alternatives false (head :: (← others.mapM foldAlternative))
      | other => other.defect language "expression"
  | body => body.defect language "expression"

/-- Adds the production of a rule. -/
def foldRule (spec : Specification) : Tree → Except Error Specification
  | node@(.named name body) =>
      if name = "rule" then
        match body with
        | .array [_, defined, _, _, expression, _] =>
            match expression with
            | .named kind inner =>
                if kind = "expression" then do
                  let rule ← foldExpression inner
                  spec.production (← defined.leafName language "rule") (.ok rule)
                else expression.defect language "expression"
            | _ => expression.defect language "expression"
        | other => other.defect language "rule"
      else node.defect language "rule"
  | node => node.defect language "rule"

/-- The productions of a grammar. -/
def foldGrammar : Tree → Except Error Specification
  | .array [_, rules] =>
      match rules with
      | .array nodes => nodes.foldlM foldRule .empty
      | other => other.defect language "syntax"
  | node => node.defect language "syntax"

end Packrat.Notation.Bnf

namespace Packrat.Notation

/-- Backus-Naur form. -/
def bnf : Notation where
  name := Bnf.language
  grammarProduction := "syntax"
  fragmentProduction := "expression"
  specification := Bnf.specification
  foldGrammar := Bnf.foldGrammar
  foldFragment := Bnf.foldExpression

end Packrat.Notation
