import Packrat.Notation.Basic
import Packrat.Notation.Escape
import Packrat.Notation.Shape

/-! # Extended Backus-Naur form

A subset of ISO 14977: rules end with `;` or `.`, a comma joins factors and binds tighter than
`|`, and comments between `(*` and `*)` stand anywhere between symbols. Alternatives are an
unordered choice.
-/

namespace Packrat.Notation.Ebnf

/-- The name used in reports. -/
def language : String := "EBNF"

theorem wellFormed_terminal : (Pattern.ofSource? "\"[^\"]+\"|'[^']+'").isSome = true := by
  decide +kernel

theorem wellFormed_comment : (Pattern.ofSource? "(?s)\\(\\*.*?\\*\\)").isSome = true := by
  decide +kernel

/-- The notation described by a grammar. -/
def specification : Specification where
  lexicon := .ofList
    [("meta-identifier", .pattern (.of "[A-Za-z][A-Za-z0-9_\\-]*" Pattern.wellFormed_hyphenated)),
     ("terminal", .pattern (.of "\"[^\"]+\"|'[^']+'" wellFormed_terminal))]
  ignore :=
    [.pattern (.of "\\s+" Pattern.wellFormed_blanks),
     .pattern (.of "(?s)\\(\\*.*?\\*\\)" wellFormed_comment)]
  productions := .ofList
    [("grammar", .zeroOrMore (.reference "rule")),
     ("rule", .sequence
       [.token "meta-identifier", .text "=", .reference "alternation",
        .choice [.text ";", .text "."]]),
     ("alternation", .sequence
       [.reference "concatenation",
        .zeroOrMore (.sequence [.text "|", .reference "concatenation"])]),
     ("concatenation", .sequence
       [.reference "factor", .zeroOrMore (.sequence [.text ",", .reference "factor"])]),
     ("factor", .choice
       [.reference "reference", .reference "terminal", .reference "option",
        .reference "repeat", .reference "group"]),
     ("reference", .token "meta-identifier"),
     ("terminal", .token "terminal"),
     ("option", .sequence [.text "[", .reference "alternation", .text "]"]),
     ("repeat", .sequence [.text "\x7b", .reference "alternation", .text "\x7d"]),
     ("group", .sequence [.text "(", .reference "alternation", .text ")"])]

mutual

/-- The rule of a named alternation. -/
def foldAlternation : Tree → Except Error Rule
  | node@(.named name body) =>
      if name = "alternation" then foldAlternatives body
      else node.defect language "alternation"
  | node => node.defect language "alternation"

/-- The rule of the body of an alternation. -/
def foldAlternatives : Tree → Except Error Rule
  | .array [first, rest] => do
      let head ← foldConcatenation first
      match rest with
      | .array others => Rule.alternatives false (head :: (← foldBranches others))
      | other => other.defect language "alternation"
  | body => body.defect language "alternation"

/-- The rules of the alternatives after the first. -/
def foldBranches : List Tree → Except Error (List Rule)
  | [] => .ok []
  | .array [_, branch] :: more => do
      let rule ← foldConcatenation branch
      return rule :: (← foldBranches more)
  | node :: _ => node.defect language "alternation"

/-- The rule of a named concatenation. -/
def foldConcatenation : Tree → Except Error Rule
  | node@(.named name body) =>
      if name = "concatenation" then foldSequence body
      else node.defect language "concatenation"
  | node => node.defect language "concatenation"

/-- The rule of the body of a concatenation. -/
def foldSequence : Tree → Except Error Rule
  | .array [first, rest] => do
      let head ← foldFactor first
      match rest with
      | .array others => Rule.concatenation (head :: (← foldFactors others))
      | other => other.defect language "concatenation"
  | body => body.defect language "concatenation"

/-- The rules of the factors after the first. -/
def foldFactors : List Tree → Except Error (List Rule)
  | [] => .ok []
  | .array [_, factor] :: more => do
      let rule ← foldFactor factor
      return rule :: (← foldFactors more)
  | node :: _ => node.defect language "concatenation"

/-- The rule of a named factor. -/
def foldFactor : Tree → Except Error Rule
  | node@(.named name factor) =>
      if name = "factor" then foldVariant factor else node.defect language "factor"
  | node => node.defect language "factor"

/-- The rule of a factor of any variant. -/
def foldVariant : Tree → Except Error Rule
  | factor@(.named kind body) =>
      if kind = "reference" then do Rule.reference? (← body.leafName language "reference")
      else if kind = "terminal" then do
        Rule.literal? (Escape.stripQuotes (← body.leafText language "terminal")) false
      else if kind = "option" then (foldEnclosed "option" body).map .optional
      else if kind = "repeat" then (foldEnclosed "repeat" body).map .zeroOrMore
      else if kind = "group" then foldEnclosed "group" body
      else factor.defect language "factor"
  | factor => factor.defect language "factor"

/-- The rule of an alternation between brackets. -/
def foldEnclosed (kind : String) : Tree → Except Error Rule
  | .array [_, alternation, _] => foldAlternation alternation
  | body => body.defect language kind

end

/-- Adds the production of a rule. -/
def foldRule (spec : Specification) : Tree → Except Error Specification
  | node@(.named name body) =>
      if name = "rule" then
        match body with
        | .array [defined, _, alternation, _] => do
            let rule ← foldAlternation alternation
            spec.production (← defined.leafName language "rule") (.ok rule)
        | other => other.defect language "rule"
      else node.defect language "rule"
  | node => node.defect language "rule"

/-- The productions of a grammar. -/
def foldGrammar : Tree → Except Error Specification
  | .array rules => rules.foldlM foldRule .empty
  | node => node.defect language "grammar"

end Packrat.Notation.Ebnf

namespace Packrat.Notation

/-- Extended Backus-Naur form. -/
def ebnf : Notation where
  name := Ebnf.language
  grammarProduction := "grammar"
  fragmentProduction := "alternation"
  specification := Ebnf.specification
  foldGrammar := Ebnf.foldGrammar
  foldFragment := Ebnf.foldAlternatives

end Packrat.Notation
