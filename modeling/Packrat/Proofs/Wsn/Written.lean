import Packrat.Notation.Wsn
import Packrat.Proofs.Gaps
import Packrat.Proofs.Notation.Written

/-! # Written Wirth syntax notation

The expressions of the notation apart from any text: what they are made of, the words that they
are written in, and the rules that they denote. A literal may stand for any characters, its quotes
being written twice. A grammar is rendered with white space between its words.
-/

namespace Packrat.Notation.Wsn

open Peg (oneOr)

/-- The names of productions. -/
abbrev Name : Type := Notation.Name ['_']

mutual

/-- What stands side by side. A literal has characters, of any kind. -/
inductive Factor where
  | reference (name : Name)
  | literal (text : Text) (filled : text ≠ [])
  | option (inner : Expression)
  | group (inner : Expression)
  | repeat (inner : Expression)

/-- Factors one after the other, of which there is one at least. -/
inductive Term where
  | last (factor : Factor)
  | more (factor : Factor) (rest : Term)

/-- Alternatives, of which there is one at least. -/
inductive Expression where
  | last (branch : Term)
  | more (branch : Term) (rest : Expression)

end

/-- A production of a grammar. -/
structure Definition where
  name : Name
  body : Expression

section Words

/-- A text with every quote written twice. -/
def double : Text → Text
  | [] => []
  | c :: rest => if c = '"' then '"' :: '"' :: double rest else c :: double rest

/-- A literal of a text. -/
def enclose (text : Text) : Text := '"' :: (double text ++ ['"'])

mutual

/-- The words of a factor. -/
def Factor.words : Factor → List Text
  | .reference name => [name.1]
  | .literal text _ => [enclose text]
  | .option inner => "[".toList :: (inner.words ++ ["]".toList])
  | .group inner => "(".toList :: (inner.words ++ [")".toList])
  | .repeat inner => "\x7b".toList :: (inner.words ++ ["\x7d".toList])

/-- The words of a term. -/
def Term.words : Term → List Text
  | .last factor => factor.words
  | .more factor rest => factor.words ++ rest.words

/-- The words of an expression. -/
def Expression.words : Expression → List Text
  | .last branch => branch.words
  | .more branch rest => branch.words ++ "|".toList :: rest.words

end

/-- The words of a production. -/
def Definition.words (definition : Definition) : List Text :=
  definition.name.1 :: "=".toList :: (definition.body.words ++ [".".toList])

/-- A run of white space. -/
abbrev Blank (run : Text) : Prop := ∀ c ∈ run, CharClass.isBlank c = true

/-- The text consists of the words of the productions, with white space between any two. -/
def Renders (definitions : List Definition) (text : Text) : Prop :=
  Written Blank (definitions.flatMap Definition.words) text

/-- The words of the productions with a blank between any two. -/
def print (definitions : List Definition) : Text :=
  [' '].intercalate (definitions.flatMap Definition.words)

/-- Every grammar can be rendered. -/
theorem renders_print (definitions : List Definition) :
    Renders definitions (print definitions) := by
  have blank : Blank [' '] := List.forall_mem_singleton.mpr rfl
  exact written_intercalate nofun blank (List.cons_ne_nil _ _) _

end Words

section Denotations

mutual

/-- The rule that a factor denotes. -/
def Factor.denote : Factor → Rule
  | .reference name => .reference name.string
  | .literal text _ => .text (String.ofList text)
  | .option inner => .optional (oneOr .choice inner.denotes)
  | .group inner => oneOr .choice inner.denotes
  | .repeat inner => .zeroOrMore (oneOr .choice inner.denotes)

/-- The rules of the factors of a term. -/
def Term.denotes : Term → List Rule
  | .last factor => [factor.denote]
  | .more factor rest => factor.denote :: rest.denotes

/-- The rules of the alternatives of an expression. -/
def Expression.denotes : Expression → List Rule
  | .last branch => [oneOr .sequence branch.denotes]
  | .more branch rest => oneOr .sequence branch.denotes :: rest.denotes

end

/-- The rule that an expression denotes. -/
def Expression.denote (expression : Expression) : Rule := oneOr .choice expression.denotes

end Denotations

end Packrat.Notation.Wsn
