import Packrat.Notation.Basic
import Packrat.Notation.Escape
import Packrat.Notation.Shape

/-! # Parsing expression grammars

Alternatives are separated by `/` and ordered. `&` and `!` look ahead, `*`, `+` and `?` repeat,
`.` is any character, `<name>` a lexical rule, `<EOF>` the end of the text and `<e>` nothing.
A rule may end with `;`, and a `#` begins a comment.
-/

namespace Packrat.Notation.Peg

/-- The name used in reports. -/
def language : String := "PEG"

theorem wellFormed_literal :
    (Pattern.ofSource? "\"(?:[^\"\\\\]|\\\\.)*\"|'(?:[^'\\\\]|\\\\.)*'").isSome = true := by
  decide +kernel

theorem wellFormed_comment : (Pattern.ofSource? "#[^\\n]*").isSome = true := by decide +kernel

/-- The notation described by a grammar. -/
def specification : Specification where
  lexicon := .ofList
    [("identifier", .pattern (.of "[A-Za-z_][A-Za-z0-9_]*" Pattern.wellFormed_identifier)),
     ("literal", .pattern
       (.of "\"(?:[^\"\\\\]|\\\\.)*\"|'(?:[^'\\\\]|\\\\.)*'" wellFormed_literal))]
  ignore :=
    [.pattern (.of "\\s+" Pattern.wellFormed_blanks),
     .pattern (.of "#[^\\n]*" wellFormed_comment)]
  productions := .ofList
    [("grammar", .oneOrMore (.reference "rule")),
     ("rule", .sequence
       [.token "identifier", .text "<-", .reference "expression", .optional (.text ";")]),
     ("expression", .sequence
       [.reference "sequence", .zeroOrMore (.sequence [.text "/", .reference "sequence"])]),
     ("sequence", .oneOrMore (.reference "prefix")),
     ("prefix", .sequence
       [.optional (.ordered [.text "&", .text "!"]), .reference "suffix"]),
     ("suffix", .sequence
       [.reference "primary", .optional (.ordered [.text "*", .text "+", .text "?"])]),
     ("primary", .ordered
       [.reference "group", .reference "end", .reference "nothing", .reference "lexical",
        .reference "literal", .reference "any", .reference "reference"]),
     ("group", .sequence [.text "(", .reference "expression", .text ")"]),
     ("end", .text "<EOF>"),
     ("nothing", .text "<e>"),
     ("lexical", .sequence [.text "<", .token "identifier", .text ">"]),
     ("literal", .token "literal"),
     ("any", .text "."),
     -- a name before an arrow starts the next rule
     ("reference", .sequence [.token "identifier", .absent (.text "<-")])]

/-- The rule of an item with the operator before it, if there is one. -/
def lookaheadOf (operator : Tree) (rule : Rule) : Except Error Rule :=
  if operator.isAbsent then .ok rule
  else do
    let mark ← operator.leafText language "prefix"
    if mark = ['&'] then .ok (.ahead rule)
    else if mark = ['!'] then .ok (.absent rule)
    else operator.defect language "prefix"

/-- The rule of an item with the operator after it, if there is one. -/
def repetitionOf (operator : Tree) (rule : Rule) : Except Error Rule :=
  if operator.isAbsent then .ok rule
  else do
    let mark ← operator.leafText language "suffix"
    if mark = ['*'] then .ok (.zeroOrMore rule)
    else if mark = ['+'] then .ok (.oneOrMore rule)
    else if mark = ['?'] then .ok (.optional rule)
    else operator.defect language "suffix"

mutual

/-- The rule of a named expression. -/
def foldNamed : Tree → Except Error Rule
  | node@(.named name body) =>
      if name = "expression" then foldExpression body else node.defect language "expression"
  | node => node.defect language "expression"

/-- The rule of the body of an expression. -/
def foldExpression : Tree → Except Error Rule
  | .array [first, rest] => do
      let head ← foldSequence first
      match rest with
      | .array others => Rule.alternatives true (head :: (← foldBranches others))
      | other => other.defect language "expression"
  | body => body.defect language "expression"

/-- The rules of the alternatives after the first. -/
def foldBranches : List Tree → Except Error (List Rule)
  | [] => .ok []
  | .array [_, branch] :: more => do
      let rule ← foldSequence branch
      return rule :: (← foldBranches more)
  | node :: _ => node.defect language "expression"

/-- The rule of a named sequence. -/
def foldSequence : Tree → Except Error Rule
  | node@(.named name body) =>
      if name = "sequence" then foldItems body else node.defect language "sequence"
  | node => node.defect language "sequence"

/-- The rule of the body of a sequence. -/
def foldItems : Tree → Except Error Rule
  | .array items => do Rule.concatenation (← foldAll items)
  | body => body.defect language "sequence"

/-- The rules of several items. -/
def foldAll : List Tree → Except Error (List Rule)
  | [] => .ok []
  | item :: more => do
      let rule ← foldItem item
      return rule :: (← foldAll more)

/-- The rule of a named item. -/
def foldItem : Tree → Except Error Rule
  | node@(.named name body) =>
      if name = "prefix" then foldLookahead body else node.defect language "prefix"
  | node => node.defect language "prefix"

/-- The rule of an item with what may stand before it. -/
def foldLookahead : Tree → Except Error Rule
  | .array [operator, operand] => do lookaheadOf operator (← foldRepeated operand)
  | body => body.defect language "prefix"

/-- The rule of a named repeated item. -/
def foldRepeated : Tree → Except Error Rule
  | node@(.named name body) =>
      if name = "suffix" then foldRepetition body else node.defect language "suffix"
  | node => node.defect language "suffix"

/-- The rule of an item with what may stand after it. -/
def foldRepetition : Tree → Except Error Rule
  | .array [operand, operator] => do repetitionOf operator (← foldPrimary operand)
  | body => body.defect language "suffix"

/-- The rule of a named primary. -/
def foldPrimary : Tree → Except Error Rule
  | node@(.named name body) =>
      if name = "primary" then foldVariant body else node.defect language "primary"
  | node => node.defect language "primary"

/-- The rule of a primary of any variant. -/
def foldVariant : Tree → Except Error Rule
  | primary@(.named kind body) =>
      if kind = "group" then foldGroup body
      else if kind = "end" then .ok .endOfText
      else if kind = "nothing" then .ok .empty
      else if kind = "lexical" then
        match body with
        | .array [_, target, _] => do Rule.token? (← target.leafName language "lexical")
        | other => other.defect language "lexical"
      else if kind = "literal" then do
        let text ← body.leafText language "literal"
        Rule.textOrEmpty (← Escape.unescape language (Escape.stripQuotes text))
      else if kind = "any" then .ok .anyChar
      else if kind = "reference" then
        match body with
        | .array [target, _] => do Rule.reference? (← target.leafName language "reference")
        | other => other.defect language "reference"
      else primary.defect language "primary"
  | primary => primary.defect language "primary"

/-- The rule of an expression between brackets. -/
def foldGroup : Tree → Except Error Rule
  | .array [_, expression, _] => foldNamed expression
  | body => body.defect language "group"

end

/-- Adds the production of a rule. -/
def foldRule (spec : Specification) : Tree → Except Error Specification
  | node@(.named name body) =>
      if name = "rule" then
        match body with
        | .array [defined, _, expression, _] => do
            let rule ← foldNamed expression
            spec.production (← defined.leafName language "rule") (.ok rule)
        | other => other.defect language "rule"
      else node.defect language "rule"
  | node => node.defect language "rule"

/-- The productions of a grammar. -/
def foldGrammar : Tree → Except Error Specification
  | .array rules => rules.foldlM foldRule .empty
  | node => node.defect language "grammar"

end Packrat.Notation.Peg

namespace Packrat.Notation

/-- Parsing expression grammars. -/
def peg : Notation where
  name := Peg.language
  grammarProduction := "grammar"
  fragmentProduction := "expression"
  specification := Peg.specification
  foldGrammar := Peg.foldGrammar
  foldFragment := Peg.foldExpression

end Packrat.Notation
