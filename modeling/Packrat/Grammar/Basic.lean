import Packrat.Rule.Eval

/-! # Grammars

A grammar is a table of productions with the lexical rules and the ignored text that they are
applied with. `Grammar.applyAt?` applies a production directly, by applying the productions that it
refers to again each time. It fails only when a production leads back to itself at the same place.
-/

namespace Packrat

/-- Everything that a parse needs besides the text. -/
structure Grammar where
  productions : Table Rule
  lexicon : Lexicon
  ignore : List LexRule

namespace Grammar

/-- How deep applications of productions can be nested in a text of `length` characters unless
one leads back to itself: there are that many pairs of a production and a place, and one more for
an application that evaluates no body. -/
def depthLimit (grammar : Grammar) (length : Nat) : Nat :=
  grammar.productions.entries.length * (length + 1) + 1

/-- Applies a production with applications nested at most `depth` deep. The inner result is
absent if the grammar has no such production. -/
def applyWithin? (grammar : Grammar) : Nat → String → Cursor → Option (Option Outcome)
  | 0, _, _ => none
  | depth + 1, name, cursor =>
      match grammar.productions.find? name with
      | none => some none
      | some rule =>
          (rule.eval ⟨grammar.lexicon, grammar.ignore, grammar.applyWithin? depth⟩ cursor).map some

/-- Applies a production at a cursor. -/
def applyAt? (grammar : Grammar) (name : String) (cursor : Cursor) : Option (Option Outcome) :=
  grammar.applyWithin? (grammar.depthLimit cursor.text.length) name cursor

/-- Applies a rule at a cursor. -/
def evalAt? (grammar : Grammar) (rule : Rule) (cursor : Cursor) : Option Outcome :=
  rule.eval ⟨grammar.lexicon, grammar.ignore,
    grammar.applyWithin? (grammar.depthLimit cursor.text.length)⟩ cursor

end Grammar

end Packrat
