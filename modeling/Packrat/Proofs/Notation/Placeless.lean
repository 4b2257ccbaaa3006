import Packrat.Notation.Bnf
import Packrat.Notation.Ebnf
import Packrat.Notation.Peg
import Packrat.Notation.Wsn
import Packrat.Proofs.Continuation

/-! # Folds look at no offsets

The rule that a fold reads from a tree, or the error that it reports, depends on the names, the
kinds and the texts in the tree, and not on where its tokens start.
-/

namespace Packrat

namespace Tree

@[simp] theorem shape_placeless (tree : Tree) : tree.placeless.shape = tree.shape := by
  cases tree with
  | token leaf => rfl
  | named name node => rfl
  | array nodes => simp [placeless, shape, placelessAll_eq_map]

theorem defect_placeless {α : Type} (language production : String) (tree : Tree) :
    (tree.placeless.defect language production : Except Error α) =
      tree.defect language production := by
  rw [defect, shape_placeless, defect]

theorem leafText_placeless (language production : String) (tree : Tree) :
    tree.placeless.leafText language production = tree.leafText language production := by
  cases tree with
  | token leaf => rfl
  | named name node => rfl
  | array nodes => exact defect_placeless language production (.array nodes)

theorem leafName_placeless (language production : String) (tree : Tree) :
    tree.placeless.leafName language production = tree.leafName language production := by
  rw [leafName, leafText_placeless, leafName]

theorem isAbsent_placeless (tree : Tree) : tree.placeless.isAbsent = tree.isAbsent := by
  cases tree <;> rfl

private theorem mapM_placelessAll {fold : Tree → Except Error Rule}
    (each : ∀ tree, fold tree.placeless = fold tree) (nodes : List Tree) :
    (placelessAll nodes).mapM fold = nodes.mapM fold := by
  induction nodes with
  | nil => rfl
  | cons node nodes ih => rw [placelessAll, List.mapM_cons, List.mapM_cons, each, ih]

end Tree

namespace Notation

open Packrat.Tree

namespace Bnf

private theorem foldTerm_placeless : ∀ tree : Tree, foldTerm tree.placeless = foldTerm tree
  | .named _ (.array [_, target, _]) => by
      simp only [placeless, placelessAll, foldTerm, leafName_placeless]
      rfl
  | .named _ (.token _) | .named _ (.named _ _) | .named _ (.array []) | .named _ (.array [_])
  | .named _ (.array [_, _]) | .token _ => rfl
  | .named name (.array (first :: second :: third :: fourth :: more)) => by
      let body := Tree.array (first :: second :: third :: fourth :: more)
      have named := @defect_placeless Rule language "reference" body
      have leaf := leafText_placeless language "literal" body
      simp only [body, placeless, placelessAll] at named leaf
      simp only [placeless, placelessAll, foldTerm, named, leaf]
      rfl
  | .array nodes => defect_placeless language "list" (.array nodes)

private theorem foldList_placeless : ∀ tree : Tree, foldList tree.placeless = foldList tree
  | .named _ (.array nodes) => by
      simp only [placeless, foldList, mapM_placelessAll foldTerm_placeless]
      rfl
  | .named _ (.token _) | .named _ (.named _ _) | .token _ => rfl
  | .array nodes => defect_placeless language "list" (.array nodes)

private theorem foldAlternative_placeless : ∀ tree : Tree,
    foldAlternative tree.placeless = foldAlternative tree
  | .token _ | .named _ _ | .array [] | .array [_] | .array [_, _] => rfl
  | .array [_, _, list] => foldList_placeless list
  | .array (first :: second :: third :: fourth :: more) =>
      defect_placeless language "expression" (.array (first :: second :: third :: fourth :: more))

theorem foldExpression_placeless : ∀ tree : Tree,
    foldExpression tree.placeless = foldExpression tree
  | .token _ | .named _ _ | .array [] | .array [_] => rfl
  | .array [first, .array others] => by
      simp only [placeless, placelessAll, foldExpression, foldList_placeless first,
        mapM_placelessAll foldAlternative_placeless]
  | .array [first, .token _] | .array [first, .named _ _] => by
      simp only [placeless, placelessAll, foldExpression, foldList_placeless first]
      rfl
  | .array (first :: second :: third :: more) =>
      defect_placeless language "expression" (.array (first :: second :: third :: more))

end Bnf

namespace Ebnf

mutual

theorem foldAlternation_placeless : ∀ tree : Tree,
    foldAlternation tree.placeless = foldAlternation tree
  | .named _ body => by
      simp only [placeless, foldAlternation, foldAlternatives_placeless body]
      rfl
  | .token _ => rfl
  | .array nodes => defect_placeless language "alternation" (.array nodes)

theorem foldAlternatives_placeless : ∀ tree : Tree,
    foldAlternatives tree.placeless = foldAlternatives tree
  | .array [first, .array others] => by
      simp only [placeless, placelessAll, foldAlternatives, foldConcatenation_placeless first,
        foldBranches_placeless others]
  | .array [first, .token _] | .array [first, .named _ _] => by
      simp only [placeless, placelessAll, foldAlternatives, foldConcatenation_placeless first]
      rfl
  | .token _ | .named _ _ | .array [] | .array [_] => rfl
  | .array (first :: second :: third :: more) =>
      defect_placeless language "alternation" (.array (first :: second :: third :: more))

private theorem foldBranches_placeless : ∀ nodes : List Tree,
    foldBranches (placelessAll nodes) = foldBranches nodes
  | [] => rfl
  | .array [_, branch] :: more => by
      simp only [placeless, placelessAll, foldBranches, foldConcatenation_placeless branch,
        foldBranches_placeless more]
  | .token _ :: _ | .named _ _ :: _ | .array [] :: _ | .array [_] :: _ => rfl
  | .array (first :: second :: third :: others) :: _ =>
      defect_placeless language "alternation" (.array (first :: second :: third :: others))

private theorem foldConcatenation_placeless : ∀ tree : Tree,
    foldConcatenation tree.placeless = foldConcatenation tree
  | .named _ body => by
      simp only [placeless, foldConcatenation, foldSequence_placeless body]
      rfl
  | .token _ => rfl
  | .array nodes => defect_placeless language "concatenation" (.array nodes)

private theorem foldSequence_placeless : ∀ tree : Tree,
    foldSequence tree.placeless = foldSequence tree
  | .array [first, .array others] => by
      simp only [placeless, placelessAll, foldSequence, foldFactor_placeless first,
        foldFactors_placeless others]
  | .array [first, .token _] | .array [first, .named _ _] => by
      simp only [placeless, placelessAll, foldSequence, foldFactor_placeless first]
      rfl
  | .token _ | .named _ _ | .array [] | .array [_] => rfl
  | .array (first :: second :: third :: more) =>
      defect_placeless language "concatenation" (.array (first :: second :: third :: more))

private theorem foldFactors_placeless : ∀ nodes : List Tree,
    foldFactors (placelessAll nodes) = foldFactors nodes
  | [] => rfl
  | .array [_, factor] :: more => by
      simp only [placeless, placelessAll, foldFactors, foldFactor_placeless factor,
        foldFactors_placeless more]
  | .token _ :: _ | .named _ _ :: _ | .array [] :: _ | .array [_] :: _ => rfl
  | .array (first :: second :: third :: others) :: _ =>
      defect_placeless language "concatenation" (.array (first :: second :: third :: others))

private theorem foldFactor_placeless : ∀ tree : Tree,
    foldFactor tree.placeless = foldFactor tree
  | .named _ factor => by
      simp only [placeless, foldFactor, foldVariant_placeless factor]
      rfl
  | .token _ => rfl
  | .array nodes => defect_placeless language "factor" (.array nodes)

private theorem foldVariant_placeless : ∀ tree : Tree,
    foldVariant tree.placeless = foldVariant tree
  | .named _ body => by
      simp only [placeless, foldVariant, leafName_placeless, leafText_placeless,
        foldEnclosed_placeless _ body]
      rfl
  | .token _ => rfl
  | .array nodes => defect_placeless language "factor" (.array nodes)

private theorem foldEnclosed_placeless : ∀ (kind : String) (tree : Tree),
    foldEnclosed kind tree.placeless = foldEnclosed kind tree
  | _, .array [_, alternation, _] => foldAlternation_placeless alternation
  | _, .token _ | _, .named _ _ | _, .array [] | _, .array [_] | _, .array [_, _] => rfl
  | kind, .array (first :: second :: third :: fourth :: more) =>
      defect_placeless language kind (.array (first :: second :: third :: fourth :: more))

end

end Ebnf

namespace Peg

private theorem lookaheadOf_placeless (operator : Tree) (rule : Rule) :
    lookaheadOf operator.placeless rule = lookaheadOf operator rule := by
  simp only [lookaheadOf, isAbsent_placeless, leafText_placeless, defect_placeless]

private theorem repetitionOf_placeless (operator : Tree) (rule : Rule) :
    repetitionOf operator.placeless rule = repetitionOf operator rule := by
  simp only [repetitionOf, isAbsent_placeless, leafText_placeless, defect_placeless]

private theorem lexical_placeless : ∀ body : Tree,
    foldVariant (.named "lexical" body.placeless) = foldVariant (.named "lexical" body)
  | .token _ | .named _ _ | .array [] | .array [_] | .array [_, _] => rfl
  | .array [_, target, _] =>
      congrArg (· >>= Rule.token?) (leafName_placeless language "lexical" target)
  | .array (first :: second :: third :: fourth :: more) =>
      defect_placeless language "lexical" (.array (first :: second :: third :: fourth :: more))

private theorem reference_placeless : ∀ body : Tree,
    foldVariant (.named "reference" body.placeless) = foldVariant (.named "reference" body)
  | .token _ | .named _ _ | .array [] | .array [_] => rfl
  | .array [target, _] =>
      congrArg (· >>= Rule.reference?) (leafName_placeless language "reference" target)
  | .array (first :: second :: third :: more) =>
      defect_placeless language "reference" (.array (first :: second :: third :: more))

mutual

theorem foldNamed_placeless : ∀ tree : Tree, foldNamed tree.placeless = foldNamed tree
  | .named _ body => by
      simp only [placeless, foldNamed, foldExpression_placeless body]
      rfl
  | .token _ => rfl
  | .array nodes => defect_placeless language "expression" (.array nodes)

theorem foldExpression_placeless : ∀ tree : Tree,
    foldExpression tree.placeless = foldExpression tree
  | .array [first, .array others] => by
      simp only [placeless, placelessAll, foldExpression, foldSequence_placeless first,
        foldBranches_placeless others]
  | .array [first, .token _] | .array [first, .named _ _] => by
      simp only [placeless, placelessAll, foldExpression, foldSequence_placeless first]
      rfl
  | .token _ | .named _ _ | .array [] | .array [_] => rfl
  | .array (first :: second :: third :: more) =>
      defect_placeless language "expression" (.array (first :: second :: third :: more))

private theorem foldBranches_placeless : ∀ nodes : List Tree,
    foldBranches (placelessAll nodes) = foldBranches nodes
  | [] => rfl
  | .array [_, branch] :: more => by
      simp only [placeless, placelessAll, foldBranches, foldSequence_placeless branch,
        foldBranches_placeless more]
  | .token _ :: _ | .named _ _ :: _ | .array [] :: _ | .array [_] :: _ => rfl
  | .array (first :: second :: third :: others) :: _ =>
      defect_placeless language "expression" (.array (first :: second :: third :: others))

private theorem foldSequence_placeless : ∀ tree : Tree,
    foldSequence tree.placeless = foldSequence tree
  | .named _ body => by
      simp only [placeless, foldSequence, foldItems_placeless body]
      rfl
  | .token _ => rfl
  | .array nodes => defect_placeless language "sequence" (.array nodes)

private theorem foldItems_placeless : ∀ tree : Tree, foldItems tree.placeless = foldItems tree
  | .array items => by simp only [placeless, foldItems, foldAll_placeless items]
  | .token _ | .named _ _ => rfl

private theorem foldAll_placeless : ∀ items : List Tree,
    foldAll (placelessAll items) = foldAll items
  | [] => rfl
  | item :: more => by
      simp only [placelessAll, foldAll, foldItem_placeless item, foldAll_placeless more]

private theorem foldItem_placeless : ∀ tree : Tree, foldItem tree.placeless = foldItem tree
  | .named _ body => by
      simp only [placeless, foldItem, foldLookahead_placeless body]
      rfl
  | .token _ => rfl
  | .array nodes => defect_placeless language "prefix" (.array nodes)

private theorem foldLookahead_placeless : ∀ tree : Tree,
    foldLookahead tree.placeless = foldLookahead tree
  | .array [operator, operand] => by
      simp only [placeless, placelessAll, foldLookahead, foldRepeated_placeless operand,
        lookaheadOf_placeless]
  | .token _ | .named _ _ | .array [] | .array [_] => rfl
  | .array (first :: second :: third :: more) =>
      defect_placeless language "prefix" (.array (first :: second :: third :: more))

private theorem foldRepeated_placeless : ∀ tree : Tree,
    foldRepeated tree.placeless = foldRepeated tree
  | .named _ body => by
      simp only [placeless, foldRepeated, foldRepetition_placeless body]
      rfl
  | .token _ => rfl
  | .array nodes => defect_placeless language "suffix" (.array nodes)

private theorem foldRepetition_placeless : ∀ tree : Tree,
    foldRepetition tree.placeless = foldRepetition tree
  | .array [operand, operator] => by
      simp only [placeless, placelessAll, foldRepetition, foldPrimary_placeless operand,
        repetitionOf_placeless]
  | .token _ | .named _ _ | .array [] | .array [_] => rfl
  | .array (first :: second :: third :: more) =>
      defect_placeless language "suffix" (.array (first :: second :: third :: more))

private theorem foldPrimary_placeless : ∀ tree : Tree,
    foldPrimary tree.placeless = foldPrimary tree
  | .named _ body => by
      simp only [placeless, foldPrimary, foldVariant_placeless body]
      rfl
  | .token _ => rfl
  | .array nodes => defect_placeless language "primary" (.array nodes)

private theorem foldVariant_placeless : ∀ tree : Tree,
    foldVariant tree.placeless = foldVariant tree
  | .named kind body => by
      by_cases lexical : kind = "lexical"
      · exact lexical ▸ lexical_placeless body
      by_cases reference : kind = "reference"
      · exact reference ▸ reference_placeless body
      simp only [placeless, foldVariant, foldGroup_placeless body, leafText_placeless, lexical,
        reference, if_false]
      rfl
  | .token _ => rfl
  | .array nodes => defect_placeless language "primary" (.array nodes)

private theorem foldGroup_placeless : ∀ tree : Tree, foldGroup tree.placeless = foldGroup tree
  | .array [_, expression, _] => foldNamed_placeless expression
  | .token _ | .named _ _ | .array [] | .array [_] | .array [_, _] => rfl
  | .array (first :: second :: third :: fourth :: more) =>
      defect_placeless language "group" (.array (first :: second :: third :: fourth :: more))

end

end Peg

namespace Wsn

mutual

theorem foldNamed_placeless : ∀ tree : Tree, foldNamed tree.placeless = foldNamed tree
  | .named _ body => by
      simp only [placeless, foldNamed, foldExpression_placeless body]
      rfl
  | .token _ => rfl
  | .array nodes => defect_placeless language "expression" (.array nodes)

theorem foldExpression_placeless : ∀ tree : Tree,
    foldExpression tree.placeless = foldExpression tree
  | .array [first, .array others] => by
      simp only [placeless, placelessAll, foldExpression, foldTerm_placeless first,
        foldBranches_placeless others]
  | .array [first, .token _] | .array [first, .named _ _] => by
      simp only [placeless, placelessAll, foldExpression, foldTerm_placeless first]
      rfl
  | .token _ | .named _ _ | .array [] | .array [_] => rfl
  | .array (first :: second :: third :: more) =>
      defect_placeless language "expression" (.array (first :: second :: third :: more))

private theorem foldBranches_placeless : ∀ nodes : List Tree,
    foldBranches (placelessAll nodes) = foldBranches nodes
  | [] => rfl
  | .array [_, term] :: more => by
      simp only [placeless, placelessAll, foldBranches, foldTerm_placeless term,
        foldBranches_placeless more]
  | .token _ :: _ | .named _ _ :: _ | .array [] :: _ | .array [_] :: _ => rfl
  | .array (first :: second :: third :: others) :: _ =>
      defect_placeless language "expression" (.array (first :: second :: third :: others))

private theorem foldTerm_placeless : ∀ tree : Tree, foldTerm tree.placeless = foldTerm tree
  | .named _ body => by
      simp only [placeless, foldTerm, foldSequence_placeless body]
      rfl
  | .token _ => rfl
  | .array nodes => defect_placeless language "term" (.array nodes)

private theorem foldSequence_placeless : ∀ tree : Tree,
    foldSequence tree.placeless = foldSequence tree
  | .array factors => by simp only [placeless, foldSequence, foldFactors_placeless factors]
  | .token _ | .named _ _ => rfl

private theorem foldFactors_placeless : ∀ factors : List Tree,
    foldFactors (placelessAll factors) = foldFactors factors
  | [] => rfl
  | factor :: more => by
      simp only [placelessAll, foldFactors, foldFactor_placeless factor,
        foldFactors_placeless more]

private theorem foldFactor_placeless : ∀ tree : Tree, foldFactor tree.placeless = foldFactor tree
  | .named _ factor => by
      simp only [placeless, foldFactor, foldVariant_placeless factor]
      rfl
  | .token _ => rfl
  | .array nodes => defect_placeless language "factor" (.array nodes)

private theorem foldVariant_placeless : ∀ tree : Tree,
    foldVariant tree.placeless = foldVariant tree
  | .named _ body => by
      simp only [placeless, foldVariant, leafName_placeless, leafText_placeless,
        foldEnclosed_placeless _ body]
      rfl
  | .token _ => rfl
  | .array nodes => defect_placeless language "factor" (.array nodes)

private theorem foldEnclosed_placeless : ∀ (kind : String) (tree : Tree),
    foldEnclosed kind tree.placeless = foldEnclosed kind tree
  | _, .array [_, expression, _] => foldNamed_placeless expression
  | _, .token _ | _, .named _ _ | _, .array [] | _, .array [_] | _, .array [_, _] => rfl
  | kind, .array (first :: second :: third :: fourth :: more) =>
      defect_placeless language kind (.array (first :: second :: third :: fourth :: more))

end

end Wsn

end Notation

end Packrat
