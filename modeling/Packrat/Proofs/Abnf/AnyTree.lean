import Packrat.Proofs.Abnf.Slices
import Packrat.Proofs.Depth
import Packrat.Proofs.Notation.Folding

/-! # Folds of any tree in augmented Backus-Naur form

The folds settle for every tree, as those of the other notations do, but for one thing: a text in
the place of a quoted string may be severed, and is then cut inside a character.
-/

namespace Packrat.Notation.Abnf

section Parts

variable {holds : Rule → Prop} {fails : Error → Prop}

private theorem ofPattern_settles (kept : Kept holds fails) (source : String) :
    Settles (fun _ => True) fails (LexRule.ofPattern source) := by
  unfold LexRule.ofPattern
  split
  · exact trivial
  · exact kept.build _

private theorem pattern?_settles (kept : Kept holds fails) (name source : String) :
    Settles holds fails (Rule.pattern? name source) := by
  unfold Rule.pattern?
  split
  · exact kept.build _
  · exact (ofPattern_settles kept source).bind fun _ _ => kept.terminal _

private theorem scalarOf_settles (kept : Kept holds fails) (code : Nat) :
    Settles (fun _ => True) fails (Rule.scalarOf code) := by
  unfold Rule.scalarOf
  split
  · exact trivial
  · exact kept.build _

private theorem codeRange?_settles (kept : Kept holds fails) (low high : Nat) :
    Settles holds fails (Rule.codeRange? low high) := by
  refine (scalarOf_settles kept low).bind fun _ _ => (scalarOf_settles kept high).bind fun _ _ => ?_
  split
  · exact kept.build _
  · exact pattern?_settles kept _ _

private theorem numeral_settles (kept : Kept holds fails) (text : Text) (radix : Nat)
    (digits : Text) : Settles (fun _ => True) fails (numeral text radix digits) := by
  unfold numeral
  split
  · exact trivial
  · exact kept.build _

private theorem numVal_settles (kept : Kept holds fails) (text : Text) :
    Settles holds fails (numVal text) := by
  unfold numVal
  split
  · split
    · exact kept.build _
    · split
      · exact (numeral_settles kept _ _ _).bind fun _ _ => (numeral_settles kept _ _ _).bind
          fun _ _ => codeRange?_settles kept _ _
      · exact (Settles.mapM fun _ _ => numeral_settles kept _ _ _).bind fun _ _ =>
          pattern?_settles kept _ _
  · exact kept.build _

private theorem count_settles (kept : Kept holds fails) (digits : Text) :
    Settles (fun _ => True) fails (count digits) := by
  unfold count
  split
  · exact trivial
  · split
    · exact trivial
    · exact kept.build _

private theorem repeatBounds_settles (kept : Kept holds fails) (text : Text) :
    Settles (fun _ => True) fails (repeatBounds text) := by
  unfold repeatBounds
  split
  · exact (count_settles kept _).bind fun _ _ => (count_settles kept _).bind fun _ _ => trivial
  · exact (count_settles kept _).bind fun _ _ => trivial

private theorem repetitionOf_settles (kept : Kept holds fails) (bounds : Tree) {rule : Rule}
    (inner : holds rule) : Settles holds fails (repetitionOf bounds rule) := by
  unfold repetitionOf
  split
  · exact inner
  · refine (kept.leafText bounds _ _).bind fun text _ =>
      (repeatBounds_settles kept text).bind fun (min, max) _ => ?_
    simp only [Rule.repetition?]
    split
    · exact kept.build _
    · exact kept.repetition inner

private theorem reference_settles (kept : Kept holds fails) (inlineCore : Bool) (name : String) :
    Settles holds fails (reference inlineCore name) := by
  unfold reference
  split
  · exact kept.terminal _
  · exact kept.reference? name

private theorem quotedRule_settles (kept : Kept holds fails) (sensitive : Bool) (text : Text) :
    Settles holds fails (quotedRule sensitive text) := by
  unfold quotedRule
  dsimp only
  split
  · exact kept.empty
  · exact kept.literal? _ _

private theorem charVal_settles (kept : Kept holds fails) {text : Text}
    (allowed : Severed text → fails (.misplacedCut text)) :
    Settles holds fails (charVal text) := by
  by_cases marked : ∃ rest, text = '%' :: rest
  · obtain ⟨rest, rfl⟩ := marked
    rw [charVal_percent]
    split
    · exact quotedRule_settles kept _ _
    · rename_i none
      exact allowed ⟨rest, rfl, none⟩
  · unfold charVal
    split
    · exact absurd ⟨_, rfl⟩ marked
    · exact absurd ⟨_, rfl⟩ marked
    · exact quotedRule_settles kept _ _

end Parts

section Trees

variable {holds : Rule → Prop} {fails : Error → Prop} {inlineCore : Bool}

/-- The text is that of a token in the place of a quoted string, somewhere in the tree. -/
inductive Quotes (text : Text) : Tree → Prop
  | here {leaf : Token} (real : leaf.isSentinel = false) (same : leaf.text = text) :
      Quotes text (.named "char-val" (.token leaf))
  | named {name : String} {body : Tree} (below : Quotes text body) : Quotes text (.named name body)
  | array {nodes : List Tree} {node : Tree} (among : node ∈ nodes) (below : Quotes text node) :
      Quotes text (.array nodes)

/-- The cuts inside characters that the quoted strings of a tree can lead to are allowed. -/
def Allows (fails : Error → Prop) (tree : Tree) : Prop :=
  ∀ text, Quotes text tree → Severed text → fails (.misplacedCut text)

theorem Allows.named {name : String} {body : Tree} (allows : Allows fails (.named name body)) :
    Allows fails body :=
  fun text quotes => allows text (.named quotes)

theorem Allows.node {nodes : List Tree} {node : Tree} (allows : Allows fails (.array nodes))
    (among : node ∈ nodes) : Allows fails node :=
  fun text quotes => allows text (.array among quotes)

theorem Allows.tail {node : Tree} {nodes : List Tree}
    (allows : Allows fails (.array (node :: nodes))) : Allows fails (.array nodes) := by
  rintro text (_ | _ | ⟨among, below⟩)
  exact allows text (.array (List.mem_cons_of_mem _ among) below)

private theorem leafText_charVal_settles (kept : Kept holds fails) {body : Tree}
    (allows : Allows fails (.named "char-val" body)) :
    Settles holds fails (do charVal (← body.leafText language "char-val")) := by
  unfold Tree.leafText
  split
  · split
    · exact kept.defect _ _ _
    · rename_i leaf real
      exact charVal_settles kept (allows leaf.text (.here (by simpa using real) rfl))
  · exact kept.defect _ _ _

mutual

private theorem foldAlternation_settles (kept : Kept holds fails) :
    ∀ tree : Tree, Allows fails tree →
      Settles (fun rules => ∀ rule ∈ rules, holds rule) fails (foldAlternation inlineCore tree)
  | .named _ body, allows => by
      rw [foldAlternation]
      split
      · exact foldAlternatives_settles kept body allows.named
      · exact kept.defect _ _ _
  | .token _, _ | .array _, _ => kept.defect _ _ _

private theorem foldAlternatives_settles (kept : Kept holds fails) :
    ∀ tree : Tree, Allows fails tree →
      Settles (fun rules => ∀ rule ∈ rules, holds rule) fails (foldAlternatives inlineCore tree)
  | .array [first, .array others], allows =>
      (foldConcatenation_settles kept first (allows.node (by simp))).bind fun _ here =>
        (foldBranches_settles kept others (allows.node (by simp))).bind fun _ there =>
          List.forall_mem_cons.mpr ⟨here, there⟩
  | .array [first, .token _], allows | .array [first, .named _ _], allows =>
      (foldConcatenation_settles kept first (allows.node (by simp))).bind fun _ _ =>
        kept.defect _ _ _
  | .token _, _ | .named _ _, _ | .array [], _ | .array [_], _
  | .array (_ :: _ :: _ :: _), _ => kept.defect _ _ _

private theorem foldBranches_settles (kept : Kept holds fails) :
    ∀ nodes : List Tree, Allows fails (.array nodes) →
      Settles (fun rules => ∀ rule ∈ rules, holds rule) fails (foldBranches inlineCore nodes)
  | [], _ => fun _ member => absurd member List.not_mem_nil
  | .array [_, branch] :: more, allows => by
      have here : Allows fails branch := (allows.node (List.mem_cons_self ..)).node (by simp)
      exact (foldConcatenation_settles kept branch here).bind fun _ here =>
        (foldBranches_settles kept more allows.tail).bind fun _ there =>
          List.forall_mem_cons.mpr ⟨here, there⟩
  | .token _ :: _, _ | .named _ _ :: _, _ | .array [] :: _, _ | .array [_] :: _, _
  | .array (_ :: _ :: _ :: _) :: _, _ => kept.defect _ _ _

private theorem foldConcatenation_settles (kept : Kept holds fails) :
    ∀ tree : Tree, Allows fails tree → Settles holds fails (foldConcatenation inlineCore tree)
  | .named _ body, allows => by
      rw [foldConcatenation]
      split
      · exact foldSequence_settles kept body allows.named
      · exact kept.defect _ _ _
  | .token _, _ | .array _, _ => kept.defect _ _ _

private theorem foldSequence_settles (kept : Kept holds fails) :
    ∀ tree : Tree, Allows fails tree → Settles holds fails (foldSequence inlineCore tree)
  | .array items, allows =>
      (foldAll_settles kept items allows).bind fun _ each => kept.concatenation each
  | .token _, _ | .named _ _, _ => kept.defect _ _ _

private theorem foldAll_settles (kept : Kept holds fails) :
    ∀ nodes : List Tree, Allows fails (.array nodes) →
      Settles (fun rules => ∀ rule ∈ rules, holds rule) fails (foldAll inlineCore nodes)
  | [], _ => fun _ member => absurd member List.not_mem_nil
  | item :: more, allows =>
      (foldRepetition_settles kept item (allows.node (List.mem_cons_self ..))).bind fun _ here =>
        (foldAll_settles kept more allows.tail).bind fun _ there =>
          List.forall_mem_cons.mpr ⟨here, there⟩

private theorem foldRepetition_settles (kept : Kept holds fails) :
    ∀ tree : Tree, Allows fails tree → Settles holds fails (foldRepetition inlineCore tree)
  | .named _ body, allows => by
      rw [foldRepetition]
      split
      · exact foldRepeated_settles kept body allows.named
      · exact kept.defect _ _ _
  | .token _, _ | .array _, _ => kept.defect _ _ _

private theorem foldRepeated_settles (kept : Kept holds fails) :
    ∀ tree : Tree, Allows fails tree → Settles holds fails (foldRepeated inlineCore tree)
  | .array [bounds, element], allows =>
      (foldElement_settles kept element (allows.node (by simp))).bind fun _ inner =>
        repetitionOf_settles kept bounds inner
  | .token _, _ | .named _ _, _ | .array [], _ | .array [_], _
  | .array (_ :: _ :: _ :: _), _ => kept.defect _ _ _

private theorem foldElement_settles (kept : Kept holds fails) :
    ∀ tree : Tree, Allows fails tree → Settles holds fails (foldElement inlineCore tree)
  | .named _ body, allows => by
      rw [foldElement]
      split
      · exact foldVariant_settles kept body allows.named
      · exact kept.defect _ _ _
  | .token _, _ | .array _, _ => kept.defect _ _ _

private theorem foldVariant_settles (kept : Kept holds fails) :
    ∀ tree : Tree, Allows fails tree → Settles holds fails (foldVariant inlineCore tree)
  | .named _ body, allows => by
      have enclosed (kind : String) := foldEnclosed_settles kept kind body allows.named
      unfold foldVariant
      split_ifs with reference group option quoted
      · split
        · exact (kept.leafName _ _ _).bind fun _ _ => reference_settles kept _ _
        · exact kept.defect _ _ _
      · exact enclosed _
      · exact (enclosed _).map fun _ inner => kept.optional inner
      · subst quoted
        exact leafText_charVal_settles kept allows
      · exact (kept.leafText _ _ _).bind fun _ _ => numVal_settles kept _
      · exact (kept.leafName _ _ _).bind fun _ _ => kept.fault nofun
      · exact kept.defect _ _ _
  | .token _, _ | .array _, _ => kept.defect _ _ _

private theorem foldEnclosed_settles (kept : Kept holds fails) (kind : String) :
    ∀ tree : Tree, Allows fails tree → Settles holds fails (foldEnclosed inlineCore kind tree)
  | .array [_, alternation, _], allows =>
      (foldAlternation_settles kept alternation (allows.node (by simp))).bind fun _ each =>
        kept.alternatives (.inl rfl) each
  | .token _, _ | .named _ _, _ | .array [], _ | .array [_], _ | .array [_, _], _
  | .array (_ :: _ :: _ :: _ :: _), _ => kept.defect _ _ _

end

theorem foldFragment_settles (kept : Kept holds fails) (tree : Tree)
    (allows : Allows fails tree) : Settles holds fails (abnf.foldFragment tree) :=
  (foldAlternatives_settles kept tree allows).bind fun _ each => kept.alternatives (.inl rfl) each

/-- All alternatives of the rules of a table have the property. -/
private def Gathers (holds : Rule → Prop) (rules : Table (List Rule)) : Prop :=
  ∀ entry ∈ rules.entries, ∀ rule ∈ entry.2, holds rule

private theorem Gathers.insert {rules : Table (List Rule)} (before : Gathers holds rules)
    (name : String) {branches : List Rule} (each : ∀ rule ∈ branches, holds rule) :
    Gathers holds (rules.insert name branches) := by
  intro entry member
  rcases Table.mem_insertEntry member with rfl | member
  · exact each
  · exact before entry member

private theorem foldRule_settles (kept : Kept holds fails) {rules : Table (List Rule)}
    (before : Gathers holds rules) (tree : Tree) (allows : Allows fails tree) :
    Settles (Gathers holds) fails (foldRule rules tree) := by
  unfold foldRule
  split
  · split
    · split
      · refine (kept.leafName _ _ _).bind fun name _ => ?_
        split
        · refine (kept.leafText _ _ _).bind fun mark _ => ?_
          refine (foldAlternation_settles kept _ (allows.named.node (by simp))).bind
            fun branches each => ?_
          split
          · split
            · exact kept.build _
            · exact before.insert name each
          · split
            · split
              · rename_i existing found
                exact before.insert name (List.forall_mem_append.mpr
                  ⟨before _ (Table.mem_of_find? found), each⟩)
              · exact kept.build _
            · exact kept.defect _ _ _
        · exact kept.defect _ _ _
      · exact kept.defect _ _ _
    · exact kept.defect _ _ _
  · exact kept.defect _ _ _

private theorem ofRules_settles (kept : Kept holds fails) {rules : Table (List Rule)}
    (gathers : Gathers holds rules) : Settles (Declares holds) fails (ofRules rules) := by
  have core : Settles (Declares holds) fails ((borrowed rules).foldlM
      (fun spec name => spec.production name (Rule.token? name))
      { Specification.empty with
        lexicon := .ofList (coreRules.map fun core => (core.1, LexRule.pattern core.2)) }) :=
    Settles.foldlM (fun name _ _ before => kept.production name before (kept.token? name))
      fun _ member => absurd member List.not_mem_nil
  refine core.bind fun spec before => Settles.foldlM (fun entry member spec before => ?_) before
  exact (kept.alternatives (.inl rfl) (gathers entry member)).bind fun _ inner =>
    kept.production entry.1 before inner

theorem foldGrammar_settles (kept : Kept holds fails) (tree : Tree)
    (allows : Allows fails tree) : Settles (Declares holds) fails (abnf.foldGrammar tree) := by
  change Settles (Declares holds) fails (foldGrammar tree)
  unfold foldGrammar
  split
  · rename_i nodes
    have folded : Settles (Gathers holds) fails (nodes.foldlM foldRule .empty) :=
      Settles.foldlM (fun node among _ before =>
        foldRule_settles kept before node (allows.node among)) fun _ member =>
          absurd member List.not_mem_nil
    exact folded.bind fun _ gathers => ofRules_settles kept gathers
  · exact kept.defect _ _ _

end Trees

end Packrat.Notation.Abnf
