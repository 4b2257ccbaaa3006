import Packrat.CharClass.Lowercase
import Packrat.Error
import Packrat.Pattern.Basic
import Packrat.Table

/-! # Lexical rules

A lexical rule says which characters a token takes from the front of a text. It is a literal,
which may be compared without regard to case, or a pattern.
-/

namespace Packrat

/-- A rule for the characters of a token. -/
inductive LexRule where
  | literal (text : Text)
  | pattern (pattern : Pattern)

/-- Lexical rules by the name of the tokens they make. -/
abbrev Lexicon := Table LexRule

namespace LexRule

/-- The rule of a pattern with the given source. -/
def ofPattern (source : String) : Except Error LexRule :=
  match Pattern.ofSource? source with
  | some found => .ok (.pattern found)
  | none => .error (.construction (.invalidPattern source))

/-- Whether two characters are equal or have the same lower-case expansion. -/
def alike (first second : Char) : Bool :=
  first = second || CharClass.lowercase first = CharClass.lowercase second

/-- Whether a text begins with the characters of a literal, alike one by one. -/
def beginsAlike : Text → Text → Bool
  | [], _ => true
  | _ :: _, [] => false
  | expected :: others, actual :: text => alike expected actual && beginsAlike others text

/-- The number of characters that the rule takes from the front of a text. Only literals can be
compared without regard to case. -/
def matchCount? (rule : LexRule) (caseless : Bool) (text : Text) : Option Nat :=
  match rule with
  | .literal expected =>
      if if caseless then beginsAlike expected text else expected.isPrefixOf text then
        some expected.length
      else none
  | .pattern tried => tried.matchCount? text

/-- The number of bytes that the rule takes from the front of a text. -/
def matchLength? (rule : LexRule) (caseless : Bool) (text : Text) : Option Nat :=
  (rule.matchCount? caseless text).map fun count => Text.byteLength (text.take count)

/-- The source of a pattern. -/
def source? : LexRule → Option String
  | .literal _ => none
  | .pattern written => some written.source

/-- The written form: a quoted literal, or the source of a pattern between slashes. -/
def display : LexRule → String
  | .literal text => text.quoted
  | .pattern written => s!"/{written.source}/"

theorem alike_refl (c : Char) : alike c c = true := by simp [alike]

/-- Comparing without regard to case accepts every text that comparing with it accepts. -/
theorem beginsAlike_of_prefix {expected text : Text} (begins : expected <+: text) :
    beginsAlike expected text = true := by
  induction expected generalizing text with
  | nil => rfl
  | cons c rest ih =>
    obtain ⟨suffix, rfl⟩ := begins
    simp [beginsAlike, alike_refl, ih (List.prefix_append rest suffix)]

end LexRule

end Packrat
