import Packrat.Proofs.Abnf.Values
import Packrat.Proofs.Gaps
import Packrat.Proofs.Notation.Written

/-! # Written augmented Backus-Naur form

The alternations of the notation apart from any text: what they are made of, the words that they
are written in, and the rules that they denote. Which numeric values there may be is a parameter,
since a pattern cannot hold any number of characters. A list of rules is rendered with white space
and comments between its words.
-/

namespace Packrat.Notation.Abnf

open Peg (oneOr)

/-- The names of productions. -/
abbrev Name : Type := Notation.Name ['-']

mutual

/-- What is put together, with numeric values that satisfy a predicate. -/
inductive Element (allowed : Number → Prop) where
  | reference (name : Name)
  | group (inner : Alternation allowed)
  | option (inner : Alternation allowed)
  | quoted (string : Quoted)
  | number (value : Number) (here : allowed value)

/-- An element, and how often it is repeated. -/
inductive Repetition (allowed : Number → Prop) where
  | of (times : Option Repeat) (element : Element allowed)

/-- Repetitions one after the other, of which there is one at least. -/
inductive Concatenation (allowed : Number → Prop) where
  | last (item : Repetition allowed)
  | more (item : Repetition allowed) (rest : Concatenation allowed)

/-- Alternatives in order, of which there is one at least. -/
inductive Alternation (allowed : Number → Prop) where
  | last (branch : Concatenation allowed)
  | more (branch : Concatenation allowed) (rest : Alternation allowed)

end

/-- A rule of a grammar. -/
structure Definition (allowed : Number → Prop) where
  name : Name
  body : Alternation allowed

section Words

variable {allowed : Number → Prop}

mutual

/-- The words of an element. -/
def Element.words : Element allowed → List Text
  | .reference name => [name.1]
  | .group inner => "(".toList :: (inner.words ++ [")".toList])
  | .option inner => "[".toList :: (inner.words ++ ["]".toList])
  | .quoted string => [string.word]
  | .number value _ => [value.word]

/-- The words of a repetition. -/
def Repetition.words : Repetition allowed → List Text
  | .of times element => (times.map Repeat.word).toList ++ element.words

/-- The words of a concatenation. -/
def Concatenation.words : Concatenation allowed → List Text
  | .last item => item.words
  | .more item rest => item.words ++ rest.words

/-- The words of an alternation. -/
def Alternation.words : Alternation allowed → List Text
  | .last branch => branch.words
  | .more branch rest => branch.words ++ "/".toList :: rest.words

end

/-- The words of a rule. -/
def Definition.words (definition : Definition allowed) : List Text :=
  definition.name.1 :: "=".toList :: definition.body.words

/-- The text is a comment, which ends with its line. -/
def IsComment (text : Text) : Prop :=
  ∃ body, text = ';' :: (body ++ ['\n']) ∧ '\n' ∉ body

/-- The text consists of the words of the rules, with white space and comments between any two. -/
def Renders (definitions : List (Definition allowed)) (text : Text) : Prop :=
  Written (Gap IsComment) (definitions.flatMap Definition.words) text

/-- The words of the rules with the same text between any two. -/
def print (between : Text) (definitions : List (Definition allowed)) : Text :=
  between.intercalate (definitions.flatMap Definition.words)

/-- Every grammar can be rendered, with any gap between its words. -/
theorem renders_print {between : Text} (gap : Gap IsComment between) (filled : between ≠ [])
    (definitions : List (Definition allowed)) : Renders definitions (print between definitions) :=
  written_intercalate .nil gap filled _

end Words

section Denotations

/-- A rule with the repeat before it, if there is one. -/
def repeated : Option Repeat → Rule → Rule
  | none, rule => rule
  | some times, rule => .repetition rule times.bounds.1 times.bounds.2

mutual

/-- The rule that an element denotes. -/
def Element.denote : Element Number.Short → Rule
  | .reference name => .reference name.string
  | .group inner => oneOr .ordered inner.denotes
  | .option inner => .optional (oneOr .ordered inner.denotes)
  | .quoted string => string.rule
  | .number value short => value.rule short

/-- The rule that a repetition denotes. -/
def Repetition.denote : Repetition Number.Short → Rule
  | .of times element => repeated times element.denote

/-- The rules of the repetitions of a concatenation. -/
def Concatenation.denotes : Concatenation Number.Short → List Rule
  | .last item => [item.denote]
  | .more item rest => item.denote :: rest.denotes

/-- The rules of the alternatives of an alternation. -/
def Alternation.denotes : Alternation Number.Short → List Rule
  | .last branch => [oneOr .sequence branch.denotes]
  | .more branch rest => oneOr .sequence branch.denotes :: rest.denotes

end

theorem Concatenation.denotes_ne_nil (items : Concatenation Number.Short) : items.denotes ≠ [] := by
  cases items <;> exact List.cons_ne_nil _ _

theorem Alternation.denotes_ne_nil (branches : Alternation Number.Short) :
    branches.denotes ≠ [] := by
  cases branches <;> exact List.cons_ne_nil _ _

/-- The rule that an alternation denotes. -/
def Alternation.denote (alternation : Alternation Number.Short) : Rule :=
  oneOr .ordered alternation.denotes

end Denotations

end Packrat.Notation.Abnf
