import Packrat.Proofs.Abnf.Patterns
import Packrat.Proofs.Notation.Folding

/-! # References in parsed rule lists

A parsed rule list is a row of rules, each with a name, a mark and its alternatives (`Clause`). The
rules that the folds make of the alternatives refer to the productions that the tree refers to
(`mentions`), in the order of the text. Both are shown of every tree that the notation's own parser
builds.
-/

namespace Packrat.Notation.Abnf

open Peg (oneOr)

/-- The name of the rule that the body of a reference is about. -/
def target : Tree → Option String
  | .array (.token name :: _) => some (String.ofList name.text)
  | _ => none

mutual

/-- The names of the rules that a tree refers to, in the order of the text. -/
def mentions : Tree → List String
  | .token _ => []
  | .named kind body => if kind = "reference" then (target body).toList else mentions body
  | .array nodes => mentionsAll nodes

/-- The names of the rules that several trees refer to. -/
def mentionsAll : List Tree → List String
  | [] => []
  | node :: more => mentions node ++ mentionsAll more

end

/-- A rule of a rule list: its name, whether it adds to a rule before it, the alternation, and the
offsets of its name and of its mark. -/
structure Clause where
  name : String
  filled : name ≠ ""
  adds : Bool
  alternation : Tree
  start : Nat
  markStart : Nat

namespace Clause

/-- The mark between the name and the alternatives. -/
def mark (clause : Clause) : String := if clause.adds then "=/" else "="

/-- The tree of the rule. -/
def tree (clause : Clause) : Tree :=
  .named "rule" (.array
    [.token ⟨.rule "rulename", clause.name.toList, clause.start⟩,
     .named "defined-as" (.token ⟨.rule clause.mark, clause.mark.toList, clause.markStart⟩),
     clause.alternation])

/-- The fields of a rule can be read off its tree. -/
theorem tree_injective : Function.Injective tree := by
  rintro ⟨name, _, adds, alternation, start, markStart⟩ ⟨name', _, adds', _, _, _⟩ same
  simp only [tree, Tree.named.injEq, Tree.array.injEq, List.cons.injEq, Tree.token.injEq,
    Token.mk.injEq, String.toList_inj, true_and, and_true] at same
  obtain ⟨⟨rfl, rfl⟩, ⟨-, marks, rfl⟩, rfl⟩ := same
  obtain rfl : adds = adds' := by cases adds <;> cases adds' <;> simp_all [mark]
  rfl

end Clause

/-- If there is a rule, it refers to the given productions. -/
private abbrev Refers (names : List String) (result : Except Error Rule) : Prop :=
  Settles (fun rule => rule.references = names) (fun _ => True) result

/-- If there are rules, there is one at least, and together they refer to the given productions. -/
private abbrev ReferAll (names : List String) (result : Except Error (List Rule)) : Prop :=
  Settles (fun rules => rules ≠ [] ∧ Rule.referencesAll rules = names) (fun _ => True) result

section Leaves

private theorem settles_true {α : Type} (result : Except Error α) :
    Settles (fun _ => True) (fun _ => True) result := by
  cases result <;> trivial

private theorem literal?_refers (text : Text) (caseless : Bool) :
    Refers [] (Rule.literal? text caseless) := by
  unfold Rule.literal?
  split
  · trivial
  · rfl

private theorem pattern?_refers (name source : String) :
    Refers [] (Rule.pattern? name source) := by
  unfold Rule.pattern?
  split
  · trivial
  · exact (settles_true _).bind fun _ _ => rfl

private theorem charVal_refers (text : Text) : Refers [] (charVal text) := by
  have quoted (sensitive : Bool) (quotes : Text) : Refers [] (quotedRule sensitive quotes) := by
    unfold quotedRule
    dsimp only
    split
    · rfl
    · exact literal?_refers _ _
  unfold charVal
  split
  · split
    · exact quoted _ _
    · trivial
  · trivial
  · exact quoted _ _

private theorem codeRange?_refers (low high : Nat) : Refers [] (Rule.codeRange? low high) := by
  refine (settles_true _).bind fun _ _ => (settles_true _).bind fun _ _ => ?_
  split
  · trivial
  · exact pattern?_refers _ _

private theorem numVal_refers (text : Text) : Refers [] (numVal text) := by
  unfold numVal
  split
  · split
    · trivial
    · split
      · exact (settles_true _).bind fun _ _ => (settles_true _).bind fun _ _ =>
          codeRange?_refers _ _
      · exact (settles_true _).bind fun _ _ => pattern?_refers _ _
  · trivial

end Leaves

section Parts

private theorem repetition?_refers (rule : Rule) (min : Nat) (max : Option Nat) :
    Refers rule.references (Rule.repetition? (.ok rule) min max) := by
  unfold Rule.repetition?
  split
  · trivial
  · rfl

private theorem repetitionOf_refers (bounds : Tree) (rule : Rule) :
    Refers rule.references (repetitionOf bounds rule) := by
  unfold repetitionOf
  split
  · rfl
  · exact (settles_true _).bind fun _ _ => (settles_true _).bind fun _ _ =>
      repetition?_refers rule _ _

/-- Rules that are put together refer to what each of them refers to. -/
theorem references_oneOr {together : List Rule → Rule}
    (collects : ∀ rules, (together rules).references = Rule.referencesAll rules)
    (rules : List Rule) : (oneOr together rules).references = Rule.referencesAll rules := by
  match rules with
  | [] => exact collects []
  | [rule] => exact (List.append_nil _).symm
  | first :: second :: more => exact collects _

private theorem refers_concatenation {rules : List Rule} (some : rules ≠ []) :
    Refers (Rule.referencesAll rules) (Rule.concatenation rules) := by
  rw [concatenation_eq some]
  exact references_oneOr (fun _ => rfl) rules

private theorem refers_alternatives {rules : List Rule} (some : rules ≠ []) :
    Refers (Rule.referencesAll rules) (Rule.alternatives true rules) := by
  rw [alternatives_eq true some]
  exact references_oneOr (fun _ => rfl) rules

end Parts

/-- What the folds make of the body of a named node, next to what the node refers to. -/
private def Referring (name : String) (body : Tree) : Prop :=
  match name with
  | "rulelist" => ∃ clauses : List Clause, body = .array (clauses.map Clause.tree) ∧
      ∀ clause ∈ clauses,
        ReferAll (mentions clause.alternation) (foldAlternation false clause.alternation)
  | "rule" => ∃ clause : Clause, clause.tree = .named "rule" body ∧
      ReferAll (mentions clause.alternation) (foldAlternation false clause.alternation)
  | "defined-as" => ∃ start mark, body = .token ⟨.rule mark, mark.toList, start⟩ ∧
      (mark = "=/" ∨ mark = "=")
  | "alternation" => ReferAll (mentions body) (foldAlternatives false body)
  | "concatenation" => Refers (mentions body) (foldSequence false body)
  | "repetition" => Refers (mentions body) (foldRepeated false body)
  | "element" => Refers (mentions body) (foldVariant false body)
  | kind => Refers (mentions (.named kind body)) (foldVariant false (.named kind body))

private abbrev BuildsFrom (rule : Rule) (tree : Tree) : Prop :=
  rule.Builds abnf.parser.grammar.lexicon Referring tree

section Nodes

variable {tree : Tree}

/-- A token refers to nothing. -/
private theorem mentions_leaf {leaf : Terminal} (builds : BuildsFrom (.terminal leaf) tree) :
    mentions tree = [] := by
  obtain ⟨_, _, _, _, _, _, -, -, rfl⟩ := builds.leaf
  rfl

private theorem foldAlternation_refers (builds : BuildsFrom (.reference "alternation") tree) :
    ReferAll (mentions tree) (foldAlternation false tree) := by
  obtain ⟨body, rfl, here⟩ := builds.named
  rw [foldAlternation, if_pos rfl]
  exact here

private theorem foldConcatenation_refers (builds : BuildsFrom (.reference "concatenation") tree) :
    Refers (mentions tree) (foldConcatenation false tree) := by
  obtain ⟨body, rfl, here⟩ := builds.named
  rw [foldConcatenation, if_pos rfl]
  exact here

private theorem foldBranches_refers {nodes : List Tree}
    (each : ∀ node ∈ nodes, BuildsFrom (.sequence [.text "/", .reference "concatenation"]) node) :
    Settles (fun rules => Rule.referencesAll rules = mentionsAll nodes) (fun _ => True)
      (foldBranches false nodes) := by
  induction nodes with
  | nil => exact rfl
  | cons node nodes ih =>
    obtain ⟨here, others⟩ := List.forall_mem_cons.mp each
    obtain ⟨bar, branch, rfl, mark, builds⟩ := here.pair
    rw [foldBranches]
    refine (foldConcatenation_refers builds).bind fun rule refers => ?_
    refine (ih others).bind fun rules rest => ?_
    change rule.references ++ Rule.referencesAll rules = _
    rw [refers, rest, mentionsAll, mentions, mentionsAll, mentionsAll, mentionsAll,
      mentions_leaf mark, List.nil_append, List.append_nil]

private theorem foldAll_refers {nodes : List Tree}
    (each : ∀ node ∈ nodes, BuildsFrom (.reference "repetition") node) :
    Settles (fun rules => rules.length = nodes.length ∧
      Rule.referencesAll rules = mentionsAll nodes) (fun _ => True) (foldAll false nodes) := by
  induction nodes with
  | nil => exact ⟨rfl, rfl⟩
  | cons node nodes ih =>
    obtain ⟨here, others⟩ := List.forall_mem_cons.mp each
    obtain ⟨body, rfl, item⟩ := here.named
    rw [foldAll, foldRepetition, if_pos rfl]
    have item : Refers (mentions body) (foldRepeated false body) := item
    refine item.bind fun rule refers => (ih others).bind fun rules rest => ?_
    refine ⟨congrArg (· + 1) rest.1, ?_⟩
    change rule.references ++ Rule.referencesAll rules = mentions body ++ mentionsAll nodes
    rw [refers, rest.2]

private theorem rulelist_refers (builds : BuildsFrom (.oneOrMore (.reference "rule")) tree) :
    Referring "rulelist" tree := by
  obtain ⟨nodes, rfl, -, each⟩ := builds.rounds
  clear builds
  induction nodes with
  | nil => exact ⟨[], rfl, nofun⟩
  | cons node nodes ih =>
    obtain ⟨here, others⟩ := List.forall_mem_cons.mp each
    obtain ⟨body, rfl, clause, same, refers⟩ := here.named
    obtain ⟨clauses, rest, refer⟩ := ih others
    refine ⟨clause :: clauses, ?_, List.forall_mem_cons.mpr ⟨refers, refer⟩⟩
    rw [List.map_cons, same, ← Tree.array.inj rest]

private theorem rule_refers (builds : BuildsFrom (.sequence [.token "rulename",
    .reference "defined-as", .reference "alternation"]) tree) : Referring "rule" tree := by
  obtain ⟨_, _, alternation, rfl, name, operator, body⟩ := builds.triple
  have declared : abnf.parser.grammar.lexicon.find? "rulename" = some (.pattern namePattern) := rfl
  obtain ⟨word, start, rfl, spells⟩ := name.spelled declared (by decide +kernel)
  have filled : String.ofList word ≠ "" := fun empty =>
    spells.ne_nil (by decide +kernel) (by simpa using congrArg String.toList empty)
  obtain ⟨_, rfl, markStart, mark, rfl, marks⟩ := operator.named
  refine ⟨⟨String.ofList word, filled, mark = "=/", alternation, start, markStart⟩, ?_,
    foldAlternation_refers body⟩
  have same : (if mark = "=/" then "=/" else "=") = mark := by
    rcases marks with rfl | rfl <;> rfl
  simp [Clause.tree, Clause.mark, same]

private theorem definedAs_refers (builds : BuildsFrom (.ordered [.text "=/", .text "="]) tree) :
    Referring "defined-as" tree := by
  obtain ⟨rule, among, builds⟩ := builds.orderedAlternative
  simp only [List.mem_cons, List.not_mem_nil, or_false] at among
  rcases among with rfl | rfl
  · obtain ⟨start, rfl⟩ := builds.text
    exact ⟨start, "=/", rfl, .inl rfl⟩
  · obtain ⟨start, rfl⟩ := builds.text
    exact ⟨start, "=", rfl, .inr rfl⟩

private theorem alternation_refers (builds : BuildsFrom (.sequence [.reference "concatenation",
    .zeroOrMore (.sequence [.text "/", .reference "concatenation"])]) tree) :
    Referring "alternation" tree := by
  obtain ⟨_, _, rfl, first, rest⟩ := builds.pair
  obtain ⟨others, rfl, -, each⟩ := rest.rounds
  change ReferAll _ (foldAlternatives false _)
  rw [foldAlternatives]
  refine (foldConcatenation_refers first).bind fun rule refers => ?_
  refine (foldBranches_refers each).bind fun rules refer => ⟨List.cons_ne_nil _ _, ?_⟩
  change rule.references ++ Rule.referencesAll rules = _
  rw [refers, refer]
  simp [mentions, mentionsAll]

private theorem concatenation_refers
    (builds : BuildsFrom (.oneOrMore (.reference "repetition")) tree) :
    Referring "concatenation" tree := by
  obtain ⟨items, rfl, enough, each⟩ := builds.rounds
  change Refers _ (foldSequence false _)
  rw [foldSequence]
  refine (foldAll_refers each).bind fun rules folded => ?_
  have some : rules ≠ [] := by
    rintro rfl
    exact absurd (folded.1 ▸ enough) (by decide)
  have refers := refers_concatenation some
  rwa [folded.2] at refers

private theorem repetition_refers (builds : BuildsFrom (.sequence [.optional (.token "repeat"),
    .reference "element"]) tree) : Referring "repetition" tree := by
  obtain ⟨bounds, _, rfl, times, element⟩ := builds.pair
  obtain ⟨body, rfl, here⟩ := element.named
  have silent : mentions bounds = [] := by
    rcases times.operand with ⟨offset, rfl⟩ | times
    · rfl
    · exact mentions_leaf times
  change Refers _ (foldRepeated false _)
  rw [foldRepeated, foldElement, if_pos rfl]
  have here : Refers (mentions body) (foldVariant false body) := here
  refine here.bind fun rule refers => ?_
  have kept := repetitionOf_refers bounds rule
  rw [refers] at kept
  simpa [mentions, mentionsAll, silent] using kept

private theorem element_refers (builds : BuildsFrom (.ordered [.reference "reference",
    .reference "group", .reference "option", .reference "char-val", .reference "num-val",
    .reference "prose-val"]) tree) : Referring "element" tree := by
  obtain ⟨rule, among, builds⟩ := builds.orderedAlternative
  simp only [List.mem_cons, List.not_mem_nil, or_false] at among
  rcases among with rfl | rfl | rfl | rfl | rfl | rfl <;>
  · obtain ⟨body, rfl, here⟩ := builds.named
    exact here

private theorem reference_refers (builds : BuildsFrom (.sequence [.token "rulename",
    .absent (.reference "defined-as")]) tree) : Referring "reference" tree := by
  obtain ⟨_, ahead, rfl, name, -⟩ := builds.pair
  obtain ⟨_, _, _, rest, count, start, -, -, rfl⟩ := name.leaf
  generalize rest.take count = word
  change Refers [String.ofList word] (Rule.reference? (String.ofList word))
  unfold Rule.reference?
  split
  · trivial
  · rfl

private theorem foldEnclosed_refers {kind left right : String}
    (builds : BuildsFrom (.sequence [.text left, .reference "alternation", .text right]) tree) :
    Refers (mentions tree) (foldEnclosed false kind tree) := by
  obtain ⟨_, _, _, rfl, opening, inner, closing⟩ := builds.triple
  rw [foldEnclosed]
  refine (foldAlternation_refers inner).bind fun rules refer => ?_
  have refers := refers_alternatives refer.1
  rw [refer.2] at refers
  simpa [mentions, mentionsAll, mentions_leaf opening, mentions_leaf closing] using refers

end Nodes

private theorem referring_of_builds (name : String) (rule : Rule) (tree : Tree)
    (declared : abnf.parser.grammar.productions.find? name = some rule)
    (builds : BuildsFrom rule tree) : Referring name tree := by
  have member := Table.mem_of_find?_ofList declared
  simp only [List.mem_cons, Prod.mk.injEq, List.not_mem_nil, or_false] at member
  rcases member with ⟨rfl, rfl⟩ | ⟨rfl, rfl⟩ | ⟨rfl, rfl⟩ | ⟨rfl, rfl⟩ | ⟨rfl, rfl⟩ |
    ⟨rfl, rfl⟩ | ⟨rfl, rfl⟩ | ⟨rfl, rfl⟩ | ⟨rfl, rfl⟩ | ⟨rfl, rfl⟩ | ⟨rfl, rfl⟩ | ⟨rfl, rfl⟩ |
    ⟨rfl, rfl⟩
  · exact rulelist_refers builds
  · exact rule_refers builds
  · exact definedAs_refers builds
  · exact alternation_refers builds
  · exact concatenation_refers builds
  · exact repetition_refers builds
  · exact element_refers builds
  · exact reference_refers builds
  · exact foldEnclosed_refers builds
  · exact (foldEnclosed_refers builds).map fun _ => id
  · change Refers _ (do charVal (← tree.leafText language "char-val"))
    rw [show mentions (.named "char-val" tree) = mentions tree from rfl, mentions_leaf builds]
    exact (settles_true _).bind fun text _ => charVal_refers text
  · change Refers _ (do numVal (← tree.leafText language "num-val"))
    rw [show mentions (.named "num-val" tree) = mentions tree from rfl, mentions_leaf builds]
    exact (settles_true _).bind fun text _ => numVal_refers text
  · exact (settles_true _).bind fun _ _ => trivial

/-- The tree of a rule list is a row of rules. The alternatives that the folds make of one of them
refer to what its alternation refers to. -/
theorem exists_clauses {text : Text} {tree : Tree}
    (parsed : abnf.parser.parseAll "rulelist" text = .ok tree) :
    ∃ clauses : List Clause, tree = .array (clauses.map Clause.tree) ∧
      ∀ clause ∈ clauses, ∀ branches, foldAlternation false clause.alternation = .ok branches →
        branches ≠ [] ∧ Rule.referencesAll branches = mentions clause.alternation := by
  cases Parser.every_of_parseAll referring_of_builds parsed with
  | named here =>
    obtain ⟨clauses, same, refer⟩ := here
    exact ⟨clauses, same, fun clause member branches folded => (refer clause member).ok folded⟩

end Packrat.Notation.Abnf
