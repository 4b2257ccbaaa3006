import Packrat.Lexicon.Rule

/-! # Parsing rules

A rule says how a piece of text is put together from tokens and from the productions of a
grammar. `Rule.describe` writes a rule in a short form for messages.
-/

namespace Packrat

/-- A rule for one token: one of the grammar's lexical rules, or a lexical rule of its own. -/
inductive Terminal where
  | listed (name : String)
  | inline (name : String) (rule : LexRule) (caseless : Bool)

/-- How a piece of text is put together. -/
inductive Rule where
  /-- The end of the text. -/
  | endOfText
  /-- Nothing, anywhere. -/
  | empty
  | terminal (terminal : Terminal)
  /-- The rules one after the other. -/
  | sequence (rules : List Rule)
  /-- Exactly one of the rules. -/
  | choice (rules : List Rule)
  /-- The first of the rules that matches. -/
  | ordered (rules : List Rule)
  /-- The rule, or nothing where it does not match. -/
  | optional (rule : Rule)
  /-- The rule as often as it matches, within bounds. -/
  | repetition (rule : Rule) (min : Nat) (max : Option Nat)
  /-- Nothing, where the rule does not match. -/
  | absent (rule : Rule)
  /-- What the rule matches, without moving on. -/
  | ahead (rule : Rule)
  /-- The production of the given name. -/
  | reference (name : String)
  /-- The rule, with no description of its own. -/
  | veiled (rule : Rule)

namespace Terminal

/-- The short form of a terminal. -/
def describe : Terminal → String
  | .listed name => s!"token {name}"
  | .inline name (.literal _) _ => quotedName name
  | .inline name (.pattern written) _ => s!"{name} /{written.source}/"

end Terminal

namespace Rule

mutual

/-- The short form of a rule. -/
def describe : Rule → String
  | .endOfText => "<EOF>"
  | .empty => "<empty>"
  | .terminal leaf => leaf.describe
  | .sequence rules => " ".intercalate (describeAll rules)
  | .choice rules => "(" ++ " | ".intercalate (describeAll rules) ++ ")"
  | .ordered rules => "(" ++ " / ".intercalate (describeAll rules) ++ ")"
  | .optional rule => s!"[{rule.describe}]"
  | .repetition rule 0 none => "\x7b" ++ rule.describe ++ "\x7d"
  | .repetition rule 1 none => rule.describe ++ "+"
  | .repetition rule min none => s!"{min}*{rule.describe}"
  | .repetition rule min (some max) => s!"{min}*{max}{rule.describe}"
  | .absent rule => "!" ++ rule.describe
  | .ahead rule => "&" ++ rule.describe
  | .reference name => s!"<{name}>"
  | .veiled _ => "<rule>"

/-- The short forms of several rules. -/
def describeAll : List Rule → List String
  | [] => []
  | rule :: more => rule.describe :: describeAll more

end

mutual

/-- The names of the productions that a rule refers to, in order. -/
def references : Rule → List String
  | .sequence rules | .choice rules | .ordered rules => referencesAll rules
  | .optional rule | .repetition rule _ _ | .absent rule | .ahead rule | .veiled rule =>
      rule.references
  | .reference name => [name]
  | .endOfText | .empty | .terminal _ => []

/-- The names of the productions that several rules refer to, in order. -/
def referencesAll : List Rule → List String
  | [] => []
  | rule :: more => rule.references ++ referencesAll more

end

/-- The rule for a text as it stands. -/
def text (text : String) : Rule :=
  .terminal (.inline text (.literal text.toList) false)

/-- The rule for a token of the grammar's lexicon. -/
def token (name : String) : Rule := .terminal (.listed name)

/-- The rule for what a pattern matches. -/
def pattern (name : String) (pattern : Pattern) : Rule :=
  .terminal (.inline name (.pattern pattern) false)

/-- The rule any number of times. -/
def zeroOrMore (rule : Rule) : Rule := .repetition rule 0 none

/-- The rule once or more. -/
def oneOrMore (rule : Rule) : Rule := .repetition rule 1 none

end Rule

end Packrat
