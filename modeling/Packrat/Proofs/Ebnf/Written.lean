import Packrat.Proofs.Gaps
import Packrat.Proofs.Notation.Written

/-! # Written extended Backus-Naur form

The alternations of the notation apart from any text: what they are made of, the words that they
are written in, and the rules that they denote. A grammar is rendered with white space and
comments between its words.
-/

namespace Packrat.Notation.Ebnf

open Peg (Quote oneOr)

/-- The names of productions. -/
abbrev Name : Type := Notation.Name ['_', '-']

mutual

/-- What is put together. A terminal has characters, and its quotes are not among them. -/
inductive Factor where
  | reference (name : Name)
  | terminal (quote : Quote) (text : Text) (filled : text ≠ []) (plain : quote.mark ∉ text)
  | option (inner : Alternation)
  | repeat (inner : Alternation)
  | group (inner : Alternation)

/-- Factors one after the other, of which there is one at least. -/
inductive Concatenation where
  | last (factor : Factor)
  | more (factor : Factor) (rest : Concatenation)

/-- Alternatives, of which there is one at least. -/
inductive Alternation where
  | last (branch : Concatenation)
  | more (branch : Concatenation) (rest : Alternation)

end

/-- A rule of a grammar, and whether it ends with a semicolon or a period. -/
structure Definition where
  name : Name
  body : Alternation
  semicolon : Bool

section Words

/-- A text between quotes. -/
def enclose (quote : Quote) (text : Text) : Text := quote.mark :: (text ++ [quote.mark])

mutual

/-- The words of a factor. -/
def Factor.words : Factor → List Text
  | .reference name => [name.1]
  | .terminal quote text _ _ => [enclose quote text]
  | .option inner => "[".toList :: (inner.words ++ ["]".toList])
  | .repeat inner => "\x7b".toList :: (inner.words ++ ["\x7d".toList])
  | .group inner => "(".toList :: (inner.words ++ [")".toList])

/-- The words of a concatenation. -/
def Concatenation.words : Concatenation → List Text
  | .last factor => factor.words
  | .more factor rest => factor.words ++ ",".toList :: rest.words

/-- The words of an alternation. -/
def Alternation.words : Alternation → List Text
  | .last branch => branch.words
  | .more branch rest => branch.words ++ "|".toList :: rest.words

end

/-- The mark at the end of a rule. -/
def Definition.closing (definition : Definition) : String :=
  match definition.semicolon with
  | true => ";"
  | false => "."

/-- The words of a rule. -/
def Definition.words (definition : Definition) : List Text :=
  definition.name.1 :: "=".toList :: (definition.body.words ++ [definition.closing.toList])

/-- The text is a comment, which ends where the mark of its end first stands. -/
def IsComment (text : Text) : Prop :=
  ∃ body, text = ['(', '*'] ++ (body ++ ['*', ')']) ∧ ¬ ['*', ')'] <:+: body

/-- The text consists of the words of the rules, with white space and comments between any two. -/
def Renders (definitions : List Definition) (text : Text) : Prop :=
  Written (Gap IsComment) (definitions.flatMap Definition.words) text

/-- The words of the rules with a comment between any two. -/
def print (comment : Text) (definitions : List Definition) : Text :=
  comment.intercalate (definitions.flatMap Definition.words)

/-- Every grammar can be rendered, with any comment between its words. -/
theorem renders_print {comment : Text} (closed : IsComment comment)
    (definitions : List Definition) : Renders definitions (print comment definitions) := by
  have filled : comment ≠ [] := by
    obtain ⟨body, rfl, -⟩ := closed
    exact List.cons_ne_nil _ _
  exact written_intercalate .nil (.ofComment closed) filled _

end Words

section Denotations

mutual

/-- The rule that a factor denotes. -/
def Factor.denote : Factor → Rule
  | .reference name => .reference name.string
  | .terminal _ text _ _ => .text (String.ofList text)
  | .option inner => .optional (oneOr .choice inner.denotes)
  | .repeat inner => .zeroOrMore (oneOr .choice inner.denotes)
  | .group inner => oneOr .choice inner.denotes

/-- The rules of the factors of a concatenation. -/
def Concatenation.denotes : Concatenation → List Rule
  | .last factor => [factor.denote]
  | .more factor rest => factor.denote :: rest.denotes

/-- The rules of the alternatives of an alternation. -/
def Alternation.denotes : Alternation → List Rule
  | .last branch => [oneOr .sequence branch.denotes]
  | .more branch rest => oneOr .sequence branch.denotes :: rest.denotes

end

/-- The rule that an alternation denotes. -/
def Alternation.denote (alternation : Alternation) : Rule := oneOr .choice alternation.denotes

end Denotations

end Packrat.Notation.Ebnf
