import Packrat.Lexicon.Standard
import Packrat.Rule.Build
import Packrat.Tree

/-! # Shapes of trees

The trees that a notation's parser builds have fixed shapes, and a fold that meets any other
reports a defect of the compiler. This module holds the report, the reading of leaves, and the
two ways in which folds put the rules of a list together.
-/

namespace Packrat

namespace Tree

/-- The report of a tree that a fold does not read where it expects the given production. -/
def defect {α : Type} (language production : String) (found : Tree) : Except Error α :=
  .error (.structural language production found.shape)

/-- The text of a token that is no sentinel. -/
def leafText (language production : String) (tree : Tree) : Except Error Text :=
  match tree with
  | .token leaf => if leaf.isSentinel then tree.defect language production else .ok leaf.text
  | _ => tree.defect language production

/-- The text of a token that is no sentinel, as a name. -/
def leafName (language production : String) (tree : Tree) : Except Error String :=
  (tree.leafText language production).map String.ofList

/-- Whether the tree is what an optional rule leaves where it does not match. -/
def isAbsent : Tree → Bool
  | .token leaf => leaf.kind = .empty
  | _ => false

end Tree

namespace Rule

/-- A single alternative as it is, several as a choice. -/
def alternatives (ordered : Bool) : List Rule → Except Error Rule
  | [rule] => .ok rule
  | rules => if ordered then ordered? (rules.map .ok) else choice? (rules.map .ok)

/-- A single rule as it is, several as a sequence. -/
def concatenation : List Rule → Except Error Rule
  | [rule] => .ok rule
  | rules => sequence? (rules.map .ok)

/-- The rule for a quoted text, which matches nothing if the text is empty. -/
def textOrEmpty (text : Text) : Except Error Rule :=
  if text.isEmpty then .ok .empty else literal? text false

/-- The rule for a single character of any kind. -/
def anyChar : Rule := .pattern "any" (.of "(?s).")

end Rule

end Packrat
