import Packrat.Notation.Bnf
import Packrat.Notation.Ebnf
import Packrat.Notation.Peg
import Packrat.Notation.Wsn
import Packrat.Proofs.Notation.Folding

/-! # Folds of any tree

Every fold settles for every tree, also for one that no parser builds: it comes to rules with any
property that the parts of a rule pass on to it, or to an error, and it cuts no text inside a
character.
-/

namespace Packrat.Notation

variable {holds : Rule → Prop} {fails : Error → Prop}

private theorem foldAll_declares {step : Specification → Tree → Except Error Specification}
    (each : ∀ {spec : Specification}, Declares holds spec → ∀ node,
      Settles (Declares holds) fails (step spec node)) (nodes : List Tree) :
    Settles (Declares holds) fails (nodes.foldlM step .empty) :=
  Settles.foldlM (fun node _ _ before => each before node) fun _ member =>
    absurd member List.not_mem_nil

namespace Bnf

private theorem foldTerm_settles (kept : Kept holds fails) (tree : Tree) :
    Settles holds fails (foldTerm tree) := by
  unfold foldTerm
  split
  · split_ifs
    · split
      · exact (kept.leafName _ _ _).bind fun _ _ => kept.reference? _
      · exact kept.defect _ _ _
    · exact (kept.leafText _ _ _).bind fun _ _ => (kept.unescape _ _).bind fun _ _ =>
        kept.textOrEmpty _
    · exact kept.defect _ _ _
  · exact kept.defect _ _ _

private theorem foldList_settles (kept : Kept holds fails) (tree : Tree) :
    Settles holds fails (foldList tree) := by
  unfold foldList
  split
  · split_ifs
    · split
      · exact (Settles.mapM fun node _ => foldTerm_settles kept node).bind fun _ each =>
          kept.concatenation each
      · exact kept.defect _ _ _
    · exact kept.defect _ _ _
  · exact kept.defect _ _ _

private theorem foldAlternative_settles (kept : Kept holds fails) (tree : Tree) :
    Settles holds fails (foldAlternative tree) := by
  unfold foldAlternative
  split
  · exact foldList_settles kept _
  · exact kept.defect _ _ _

private theorem foldExpression_settles (kept : Kept holds fails) (choice : KeepsChoice holds)
    (tree : Tree) : Settles holds fails (foldExpression tree) := by
  unfold foldExpression
  split
  · refine (foldList_settles kept _).bind fun head here => ?_
    split
    · refine (Settles.mapM fun node _ => foldAlternative_settles kept node).bind
        fun others there => ?_
      exact kept.alternatives (.inr choice) (List.forall_mem_cons.mpr ⟨here, there⟩)
    · exact kept.defect _ _ _
  · exact kept.defect _ _ _

private theorem foldRule_settles (kept : Kept holds fails) (choice : KeepsChoice holds)
    {spec : Specification} (before : Declares holds spec) (tree : Tree) :
    Settles (Declares holds) fails (foldRule spec tree) := by
  unfold foldRule
  split
  · split_ifs
    · split
      · split
        · split_ifs
          · exact (foldExpression_settles kept choice _).bind fun _ inner =>
              (kept.leafName _ _ _).bind fun _ _ => kept.production _ before inner
          · exact kept.defect _ _ _
        · exact kept.defect _ _ _
      · exact kept.defect _ _ _
    · exact kept.defect _ _ _
  · exact kept.defect _ _ _

theorem foldFragment_settles (kept : Kept holds fails) (choice : KeepsChoice holds)
    (tree : Tree) : Settles holds fails (bnf.foldFragment tree) :=
  foldExpression_settles kept choice tree

theorem foldGrammar_settles (kept : Kept holds fails) (choice : KeepsChoice holds)
    (tree : Tree) : Settles (Declares holds) fails (bnf.foldGrammar tree) := by
  change Settles (Declares holds) fails (foldGrammar tree)
  unfold foldGrammar
  split
  · split
    · exact foldAll_declares (foldRule_settles kept choice) _
    · exact kept.defect _ _ _
  · exact kept.defect _ _ _

end Bnf

namespace Ebnf

mutual

private theorem foldAlternation_settles (kept : Kept holds fails) (choice : KeepsChoice holds) :
    ∀ tree : Tree, Settles holds fails (foldAlternation tree)
  | .named _ body => by
      rw [foldAlternation]
      split
      · exact foldAlternatives_settles kept choice body
      · exact kept.defect _ _ _
  | .token _ | .array _ => kept.defect _ _ _

private theorem foldAlternatives_settles (kept : Kept holds fails) (choice : KeepsChoice holds) :
    ∀ tree : Tree, Settles holds fails (foldAlternatives tree)
  | .array [first, .array others] =>
      (foldConcatenation_settles kept choice first).bind fun _ here =>
        (foldBranches_settles kept choice others).bind fun _ there =>
          kept.alternatives (.inr choice) (List.forall_mem_cons.mpr ⟨here, there⟩)
  | .array [first, .token _] | .array [first, .named _ _] =>
      (foldConcatenation_settles kept choice first).bind fun _ _ => kept.defect _ _ _
  | .token _ | .named _ _ | .array [] | .array [_] | .array (_ :: _ :: _ :: _) =>
      kept.defect _ _ _

private theorem foldBranches_settles (kept : Kept holds fails) (choice : KeepsChoice holds) :
    ∀ nodes : List Tree,
      Settles (fun rules => ∀ rule ∈ rules, holds rule) fails (foldBranches nodes)
  | [] => fun _ member => absurd member List.not_mem_nil
  | .array [_, branch] :: more =>
      (foldConcatenation_settles kept choice branch).bind fun _ here =>
        (foldBranches_settles kept choice more).bind fun _ there =>
          List.forall_mem_cons.mpr ⟨here, there⟩
  | .token _ :: _ | .named _ _ :: _ | .array [] :: _ | .array [_] :: _
  | .array (_ :: _ :: _ :: _) :: _ => kept.defect _ _ _

private theorem foldConcatenation_settles (kept : Kept holds fails)
    (choice : KeepsChoice holds) : ∀ tree : Tree, Settles holds fails (foldConcatenation tree)
  | .named _ body => by
      rw [foldConcatenation]
      split
      · exact foldSequence_settles kept choice body
      · exact kept.defect _ _ _
  | .token _ | .array _ => kept.defect _ _ _

private theorem foldSequence_settles (kept : Kept holds fails) (choice : KeepsChoice holds) :
    ∀ tree : Tree, Settles holds fails (foldSequence tree)
  | .array [first, .array others] =>
      (foldFactor_settles kept choice first).bind fun _ here =>
        (foldFactors_settles kept choice others).bind fun _ there =>
          kept.concatenation (List.forall_mem_cons.mpr ⟨here, there⟩)
  | .array [first, .token _] | .array [first, .named _ _] =>
      (foldFactor_settles kept choice first).bind fun _ _ => kept.defect _ _ _
  | .token _ | .named _ _ | .array [] | .array [_] | .array (_ :: _ :: _ :: _) =>
      kept.defect _ _ _

private theorem foldFactors_settles (kept : Kept holds fails) (choice : KeepsChoice holds) :
    ∀ nodes : List Tree,
      Settles (fun rules => ∀ rule ∈ rules, holds rule) fails (foldFactors nodes)
  | [] => fun _ member => absurd member List.not_mem_nil
  | .array [_, factor] :: more =>
      (foldFactor_settles kept choice factor).bind fun _ here =>
        (foldFactors_settles kept choice more).bind fun _ there =>
          List.forall_mem_cons.mpr ⟨here, there⟩
  | .token _ :: _ | .named _ _ :: _ | .array [] :: _ | .array [_] :: _
  | .array (_ :: _ :: _ :: _) :: _ => kept.defect _ _ _

private theorem foldFactor_settles (kept : Kept holds fails) (choice : KeepsChoice holds) :
    ∀ tree : Tree, Settles holds fails (foldFactor tree)
  | .named _ factor => by
      rw [foldFactor]
      split
      · exact foldVariant_settles kept choice factor
      · exact kept.defect _ _ _
  | .token _ | .array _ => kept.defect _ _ _

private theorem foldVariant_settles (kept : Kept holds fails) (choice : KeepsChoice holds) :
    ∀ tree : Tree, Settles holds fails (foldVariant tree)
  | .named _ body => by
      have enclosed (kind : String) := foldEnclosed_settles kept choice kind body
      rw [foldVariant]
      split_ifs
      · exact (kept.leafName _ _ _).bind fun _ _ => kept.reference? _
      · exact (kept.leafText _ _ _).bind fun _ _ => kept.literal? _ _
      · exact (enclosed _).map fun _ inner => kept.optional inner
      · exact (enclosed _).map fun _ inner => kept.repetition inner
      · exact enclosed _
      · exact kept.defect _ _ _
  | .token _ | .array _ => kept.defect _ _ _

private theorem foldEnclosed_settles (kept : Kept holds fails) (choice : KeepsChoice holds)
    (kind : String) : ∀ tree : Tree, Settles holds fails (foldEnclosed kind tree)
  | .array [_, alternation, _] => foldAlternation_settles kept choice alternation
  | .token _ | .named _ _ | .array [] | .array [_] | .array [_, _]
  | .array (_ :: _ :: _ :: _ :: _) => kept.defect _ _ _

end

private theorem foldRule_settles (kept : Kept holds fails) (choice : KeepsChoice holds)
    {spec : Specification} (before : Declares holds spec) (tree : Tree) :
    Settles (Declares holds) fails (foldRule spec tree) := by
  unfold foldRule
  split
  · split_ifs
    · split
      · exact (foldAlternation_settles kept choice _).bind fun _ inner =>
          (kept.leafName _ _ _).bind fun _ _ => kept.production _ before inner
      · exact kept.defect _ _ _
    · exact kept.defect _ _ _
  · exact kept.defect _ _ _

theorem foldFragment_settles (kept : Kept holds fails) (choice : KeepsChoice holds)
    (tree : Tree) : Settles holds fails (ebnf.foldFragment tree) :=
  foldAlternatives_settles kept choice tree

theorem foldGrammar_settles (kept : Kept holds fails) (choice : KeepsChoice holds)
    (tree : Tree) : Settles (Declares holds) fails (ebnf.foldGrammar tree) := by
  change Settles (Declares holds) fails (foldGrammar tree)
  unfold foldGrammar
  split
  · exact foldAll_declares (foldRule_settles kept choice) _
  · exact kept.defect _ _ _

end Ebnf

namespace Peg

private theorem lookaheadOf_settles (kept : Kept holds fails) (operator : Tree)
    {rule : Rule} (inner : holds rule) : Settles holds fails (lookaheadOf operator rule) := by
  unfold lookaheadOf
  split
  · exact inner
  · refine (kept.leafText operator _ _).bind fun mark _ => ?_
    split
    · exact kept.ahead inner
    · split
      · exact kept.absent inner
      · exact kept.defect _ _ _

private theorem repetitionOf_settles (kept : Kept holds fails) (operator : Tree)
    {rule : Rule} (inner : holds rule) : Settles holds fails (repetitionOf operator rule) := by
  unfold repetitionOf
  split
  · exact inner
  · refine (kept.leafText operator _ _).bind fun mark _ => ?_
    split
    · exact kept.repetition inner
    · split
      · exact kept.repetition inner
      · split
        · exact kept.optional inner
        · exact kept.defect _ _ _

mutual

private theorem foldNamed_settles (kept : Kept holds fails) :
    ∀ tree : Tree, Settles holds fails (foldNamed tree)
  | .named _ body => by
      rw [foldNamed]
      split
      · exact foldExpression_settles kept body
      · exact kept.defect _ _ _
  | .token _ | .array _ => kept.defect _ _ _

private theorem foldExpression_settles (kept : Kept holds fails) :
    ∀ tree : Tree, Settles holds fails (foldExpression tree)
  | .array [first, .array others] =>
      (foldSequence_settles kept first).bind fun _ here =>
        (foldBranches_settles kept others).bind fun _ there =>
          kept.alternatives (.inl rfl) (List.forall_mem_cons.mpr ⟨here, there⟩)
  | .array [first, .token _] | .array [first, .named _ _] =>
      (foldSequence_settles kept first).bind fun _ _ => kept.defect _ _ _
  | .token _ | .named _ _ | .array [] | .array [_] | .array (_ :: _ :: _ :: _) =>
      kept.defect _ _ _

private theorem foldBranches_settles (kept : Kept holds fails) : ∀ nodes : List Tree,
    Settles (fun rules => ∀ rule ∈ rules, holds rule) fails (foldBranches nodes)
  | [] => fun _ member => absurd member List.not_mem_nil
  | .array [_, branch] :: more =>
      (foldSequence_settles kept branch).bind fun _ here =>
        (foldBranches_settles kept more).bind fun _ there =>
          List.forall_mem_cons.mpr ⟨here, there⟩
  | .token _ :: _ | .named _ _ :: _ | .array [] :: _ | .array [_] :: _
  | .array (_ :: _ :: _ :: _) :: _ => kept.defect _ _ _

private theorem foldSequence_settles (kept : Kept holds fails) :
    ∀ tree : Tree, Settles holds fails (foldSequence tree)
  | .named _ body => by
      rw [foldSequence]
      split
      · exact foldItems_settles kept body
      · exact kept.defect _ _ _
  | .token _ | .array _ => kept.defect _ _ _

private theorem foldItems_settles (kept : Kept holds fails) :
    ∀ tree : Tree, Settles holds fails (foldItems tree)
  | .array items => (foldAll_settles kept items).bind fun _ each => kept.concatenation each
  | .token _ | .named _ _ => kept.defect _ _ _

private theorem foldAll_settles (kept : Kept holds fails) : ∀ nodes : List Tree,
    Settles (fun rules => ∀ rule ∈ rules, holds rule) fails (foldAll nodes)
  | [] => fun _ member => absurd member List.not_mem_nil
  | item :: more =>
      (foldItem_settles kept item).bind fun _ here =>
        (foldAll_settles kept more).bind fun _ there =>
          List.forall_mem_cons.mpr ⟨here, there⟩

private theorem foldItem_settles (kept : Kept holds fails) :
    ∀ tree : Tree, Settles holds fails (foldItem tree)
  | .named _ body => by
      rw [foldItem]
      split
      · exact foldLookahead_settles kept body
      · exact kept.defect _ _ _
  | .token _ | .array _ => kept.defect _ _ _

private theorem foldLookahead_settles (kept : Kept holds fails) :
    ∀ tree : Tree, Settles holds fails (foldLookahead tree)
  | .array [operator, operand] =>
      (foldRepeated_settles kept operand).bind fun _ inner =>
        lookaheadOf_settles kept operator inner
  | .token _ | .named _ _ | .array [] | .array [_] | .array (_ :: _ :: _ :: _) =>
      kept.defect _ _ _

private theorem foldRepeated_settles (kept : Kept holds fails) :
    ∀ tree : Tree, Settles holds fails (foldRepeated tree)
  | .named _ body => by
      rw [foldRepeated]
      split
      · exact foldRepetition_settles kept body
      · exact kept.defect _ _ _
  | .token _ | .array _ => kept.defect _ _ _

private theorem foldRepetition_settles (kept : Kept holds fails) :
    ∀ tree : Tree, Settles holds fails (foldRepetition tree)
  | .array [operand, operator] =>
      (foldPrimary_settles kept operand).bind fun _ inner =>
        repetitionOf_settles kept operator inner
  | .token _ | .named _ _ | .array [] | .array [_] | .array (_ :: _ :: _ :: _) =>
      kept.defect _ _ _

private theorem foldPrimary_settles (kept : Kept holds fails) :
    ∀ tree : Tree, Settles holds fails (foldPrimary tree)
  | .named _ body => by
      rw [foldPrimary]
      split
      · exact foldVariant_settles kept body
      · exact kept.defect _ _ _
  | .token _ | .array _ => kept.defect _ _ _

private theorem foldVariant_settles (kept : Kept holds fails) :
    ∀ tree : Tree, Settles holds fails (foldVariant tree)
  | .named _ body => by
      have group := foldGroup_settles kept body
      unfold foldVariant
      split_ifs
      · exact group
      · exact kept.endOfText
      · exact kept.empty
      · split
        · exact (kept.leafName _ _ _).bind fun _ _ => kept.token? _
        · exact kept.defect _ _ _
      · exact (kept.leafText _ _ _).bind fun _ _ => (kept.unescape _ _).bind fun _ _ =>
          kept.textOrEmpty _
      · exact kept.terminal _
      · split
        · exact (kept.leafName _ _ _).bind fun _ _ => kept.reference? _
        · exact kept.defect _ _ _
      · exact kept.defect _ _ _
  | .token _ | .array _ => kept.defect _ _ _

private theorem foldGroup_settles (kept : Kept holds fails) :
    ∀ tree : Tree, Settles holds fails (foldGroup tree)
  | .array [_, expression, _] => foldNamed_settles kept expression
  | .token _ | .named _ _ | .array [] | .array [_] | .array [_, _]
  | .array (_ :: _ :: _ :: _ :: _) => kept.defect _ _ _

end

private theorem foldRule_settles (kept : Kept holds fails) {spec : Specification}
    (before : Declares holds spec) (tree : Tree) :
    Settles (Declares holds) fails (foldRule spec tree) := by
  unfold foldRule
  split
  · split_ifs
    · split
      · exact (foldNamed_settles kept _).bind fun _ inner => (kept.leafName _ _ _).bind fun _ _ =>
          kept.production _ before inner
      · exact kept.defect _ _ _
    · exact kept.defect _ _ _
  · exact kept.defect _ _ _

theorem foldFragment_settles (kept : Kept holds fails) (tree : Tree) :
    Settles holds fails (peg.foldFragment tree) :=
  foldExpression_settles kept tree

theorem foldGrammar_settles (kept : Kept holds fails) (tree : Tree) :
    Settles (Declares holds) fails (peg.foldGrammar tree) := by
  change Settles (Declares holds) fails (foldGrammar tree)
  unfold foldGrammar
  split
  · exact foldAll_declares (foldRule_settles kept) _
  · exact kept.defect _ _ _

end Peg

namespace Wsn

mutual

private theorem foldNamed_settles (kept : Kept holds fails) (choice : KeepsChoice holds) :
    ∀ tree : Tree, Settles holds fails (foldNamed tree)
  | .named _ body => by
      rw [foldNamed]
      split
      · exact foldExpression_settles kept choice body
      · exact kept.defect _ _ _
  | .token _ | .array _ => kept.defect _ _ _

private theorem foldExpression_settles (kept : Kept holds fails) (choice : KeepsChoice holds) :
    ∀ tree : Tree, Settles holds fails (foldExpression tree)
  | .array [first, .array others] =>
      (foldTerm_settles kept choice first).bind fun _ here =>
        (foldBranches_settles kept choice others).bind fun _ there =>
          kept.alternatives (.inr choice) (List.forall_mem_cons.mpr ⟨here, there⟩)
  | .array [first, .token _] | .array [first, .named _ _] =>
      (foldTerm_settles kept choice first).bind fun _ _ => kept.defect _ _ _
  | .token _ | .named _ _ | .array [] | .array [_] | .array (_ :: _ :: _ :: _) =>
      kept.defect _ _ _

private theorem foldBranches_settles (kept : Kept holds fails) (choice : KeepsChoice holds) :
    ∀ nodes : List Tree,
      Settles (fun rules => ∀ rule ∈ rules, holds rule) fails (foldBranches nodes)
  | [] => fun _ member => absurd member List.not_mem_nil
  | .array [_, term] :: more =>
      (foldTerm_settles kept choice term).bind fun _ here =>
        (foldBranches_settles kept choice more).bind fun _ there =>
          List.forall_mem_cons.mpr ⟨here, there⟩
  | .token _ :: _ | .named _ _ :: _ | .array [] :: _ | .array [_] :: _
  | .array (_ :: _ :: _ :: _) :: _ => kept.defect _ _ _

private theorem foldTerm_settles (kept : Kept holds fails) (choice : KeepsChoice holds) :
    ∀ tree : Tree, Settles holds fails (foldTerm tree)
  | .named _ body => by
      rw [foldTerm]
      split
      · exact foldSequence_settles kept choice body
      · exact kept.defect _ _ _
  | .token _ | .array _ => kept.defect _ _ _

private theorem foldSequence_settles (kept : Kept holds fails) (choice : KeepsChoice holds) :
    ∀ tree : Tree, Settles holds fails (foldSequence tree)
  | .array factors =>
      (foldFactors_settles kept choice factors).bind fun _ each => kept.concatenation each
  | .token _ | .named _ _ => kept.defect _ _ _

private theorem foldFactors_settles (kept : Kept holds fails) (choice : KeepsChoice holds) :
    ∀ nodes : List Tree,
      Settles (fun rules => ∀ rule ∈ rules, holds rule) fails (foldFactors nodes)
  | [] => fun _ member => absurd member List.not_mem_nil
  | factor :: more =>
      (foldFactor_settles kept choice factor).bind fun _ here =>
        (foldFactors_settles kept choice more).bind fun _ there =>
          List.forall_mem_cons.mpr ⟨here, there⟩

private theorem foldFactor_settles (kept : Kept holds fails) (choice : KeepsChoice holds) :
    ∀ tree : Tree, Settles holds fails (foldFactor tree)
  | .named _ factor => by
      rw [foldFactor]
      split
      · exact foldVariant_settles kept choice factor
      · exact kept.defect _ _ _
  | .token _ | .array _ => kept.defect _ _ _

private theorem foldVariant_settles (kept : Kept holds fails) (choice : KeepsChoice holds) :
    ∀ tree : Tree, Settles holds fails (foldVariant tree)
  | .named _ body => by
      have enclosed (kind : String) := foldEnclosed_settles kept choice kind body
      rw [foldVariant]
      split_ifs
      · exact (kept.leafName _ _ _).bind fun _ _ => kept.reference? _
      · exact (kept.leafText _ _ _).bind fun _ _ => kept.literal? _ _
      · exact (enclosed _).map fun _ inner => kept.optional inner
      · exact enclosed _
      · exact (enclosed _).map fun _ inner => kept.repetition inner
      · exact kept.defect _ _ _
  | .token _ | .array _ => kept.defect _ _ _

private theorem foldEnclosed_settles (kept : Kept holds fails) (choice : KeepsChoice holds)
    (kind : String) : ∀ tree : Tree, Settles holds fails (foldEnclosed kind tree)
  | .array [_, expression, _] => foldNamed_settles kept choice expression
  | .token _ | .named _ _ | .array [] | .array [_] | .array [_, _]
  | .array (_ :: _ :: _ :: _ :: _) => kept.defect _ _ _

end

private theorem foldRule_settles (kept : Kept holds fails) (choice : KeepsChoice holds)
    {spec : Specification} (before : Declares holds spec) (tree : Tree) :
    Settles (Declares holds) fails (foldRule spec tree) := by
  unfold foldRule
  split
  · split_ifs
    · split
      · exact (foldNamed_settles kept choice _).bind fun _ inner =>
          (kept.leafName _ _ _).bind fun _ _ => kept.production _ before inner
      · exact kept.defect _ _ _
    · exact kept.defect _ _ _
  · exact kept.defect _ _ _

theorem foldFragment_settles (kept : Kept holds fails) (choice : KeepsChoice holds)
    (tree : Tree) : Settles holds fails (wsn.foldFragment tree) :=
  foldExpression_settles kept choice tree

theorem foldGrammar_settles (kept : Kept holds fails) (choice : KeepsChoice holds)
    (tree : Tree) : Settles (Declares holds) fails (wsn.foldGrammar tree) := by
  change Settles (Declares holds) fails (foldGrammar tree)
  unfold foldGrammar
  split
  · exact foldAll_declares (foldRule_settles kept choice) _
  · exact kept.defect _ _ _

end Wsn

end Packrat.Notation
