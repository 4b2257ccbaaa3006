import Packrat.Notation.Peg
import Packrat.Proofs.Notation.Reading
import Packrat.Proofs.Parsing

/-! # The folds of parsing expression grammars

Every tree that the notation's own parser builds is read by the folds, at every node.
-/

namespace Packrat.Notation.Peg

/-- The folds read the body of a named node. -/
def Recognised (name : String) (body : Tree) : Prop :=
  match name with
  | "grammar" => Reads language (foldGrammar body)
  | "rule" => ∀ spec, Reads language (foldRule spec (.named "rule" body))
  | "expression" => Reads language (foldExpression body)
  | "sequence" => Reads language (foldItems body)
  | "prefix" => Reads language (foldLookahead body)
  | "suffix" => Reads language (foldRepetition body)
  | "primary" => Reads language (foldVariant body)
  | kind => Reads language (foldVariant (.named kind body))

private abbrev Builds (rule : Rule) (tree : Tree) : Prop :=
  rule.Builds peg.parser.grammar.lexicon Recognised tree

variable {tree : Tree}

/-- What stands for one of several operators is a token of its text. -/
private theorem operator_cases {marks : List String}
    (builds : Builds (.optional (.ordered (marks.map Rule.text))) tree) :
    (∃ offset, tree = .token (.empty offset)) ∨
      ∃ mark ∈ marks, ∃ start, tree = .token ⟨.rule mark, mark.toList, start⟩ := by
  refine builds.operand.imp id fun builds => ?_
  obtain ⟨rule, among, builds⟩ := builds.orderedAlternative
  obtain ⟨mark, member, rfl⟩ := List.mem_map.mp among
  exact ⟨mark, member, builds.text⟩

private theorem lookaheadOf_reads
    (builds : Builds (.optional (.ordered [.text "&", .text "!"])) tree) (rule : Rule) :
    Reads language (lookaheadOf tree rule) := by
  rcases @operator_cases tree ["&", "!"] builds with ⟨offset, rfl⟩ | ⟨mark, member, start, rfl⟩
  · exact .ok _
  · simp only [List.mem_cons, List.not_mem_nil, or_false] at member
    rcases member with rfl | rfl <;> exact .ok _

private theorem repetitionOf_reads
    (builds : Builds (.optional (.ordered [.text "*", .text "+", .text "?"])) tree)
    (rule : Rule) : Reads language (repetitionOf tree rule) := by
  rcases @operator_cases tree ["*", "+", "?"] builds with
    ⟨offset, rfl⟩ | ⟨mark, member, start, rfl⟩
  · exact .ok _
  · simp only [List.mem_cons, List.not_mem_nil, or_false] at member
    rcases member with rfl | rfl | rfl <;> exact .ok _

private theorem foldNamed_reads (builds : Builds (.reference "expression") tree) :
    Reads language (foldNamed tree) := by
  obtain ⟨body, rfl, here⟩ := builds.named
  rw [foldNamed, if_pos rfl]
  exact here

private theorem foldSequence_reads (builds : Builds (.reference "sequence") tree) :
    Reads language (foldSequence tree) := by
  obtain ⟨body, rfl, here⟩ := builds.named
  rw [foldSequence, if_pos rfl]
  exact here

private theorem foldBranches_reads {nodes : List Tree}
    (each : ∀ node ∈ nodes, Builds (.sequence [.text "/", .reference "sequence"]) node) :
    Reads language (foldBranches nodes) := by
  induction nodes with
  | nil => exact .ok _
  | cons node nodes ih =>
    obtain ⟨here, others⟩ := List.forall_mem_cons.mp each
    obtain ⟨_, _, rfl, -, branch⟩ := here.pair
    rw [foldBranches]
    exact (foldSequence_reads branch).bind fun _ _ => (ih others).bind fun _ _ => .ok _

private theorem foldAll_reads {nodes : List Tree}
    (each : ∀ node ∈ nodes, Builds (.reference "prefix") node) :
    Reads language (foldAll nodes) := by
  induction nodes with
  | nil => exact .ok _
  | cons node nodes ih =>
    obtain ⟨here, others⟩ := List.forall_mem_cons.mp each
    obtain ⟨body, rfl, item⟩ := here.named
    rw [foldAll, foldItem, if_pos rfl]
    exact Reads.bind item fun _ _ => (ih others).bind fun _ _ => .ok _

private theorem expression_recognised
    (builds : Builds (.sequence [.reference "sequence",
      .zeroOrMore (.sequence [.text "/", .reference "sequence"])]) tree) :
    Reads language (foldExpression tree) := by
  obtain ⟨_, _, rfl, first, rest⟩ := builds.pair
  obtain ⟨others, rfl, -, each⟩ := rest.rounds
  rw [foldExpression]
  exact (foldSequence_reads first).bind fun _ _ =>
    (foldBranches_reads each).bind fun _ _ => .alternatives _ _

private theorem sequence_recognised (builds : Builds (.oneOrMore (.reference "prefix")) tree) :
    Reads language (foldItems tree) := by
  obtain ⟨items, rfl, -, each⟩ := builds.rounds
  rw [foldItems]
  exact (foldAll_reads each).bind fun _ _ => .concatenation _

private theorem prefix_recognised
    (builds : Builds (.sequence [.optional (.ordered [.text "&", .text "!"]),
      .reference "suffix"]) tree) : Reads language (foldLookahead tree) := by
  obtain ⟨_, _, rfl, operator, operand⟩ := builds.pair
  obtain ⟨body, rfl, here⟩ := operand.named
  rw [foldLookahead, foldRepeated, if_pos rfl]
  exact Reads.bind here fun rule _ => lookaheadOf_reads operator rule

private theorem suffix_recognised
    (builds : Builds (.sequence [.reference "primary",
      .optional (.ordered [.text "*", .text "+", .text "?"])]) tree) :
    Reads language (foldRepetition tree) := by
  obtain ⟨_, _, rfl, operand, operator⟩ := builds.pair
  obtain ⟨body, rfl, here⟩ := operand.named
  rw [foldRepetition, foldPrimary, if_pos rfl]
  exact Reads.bind here fun rule _ => repetitionOf_reads operator rule

private theorem primary_recognised
    (builds : Builds (.ordered [.reference "group", .reference "end", .reference "nothing",
      .reference "lexical", .reference "literal", .reference "any", .reference "reference"])
      tree) : Reads language (foldVariant tree) := by
  obtain ⟨rule, among, builds⟩ := builds.orderedAlternative
  simp only [List.mem_cons, List.not_mem_nil, or_false] at among
  rcases among with rfl | rfl | rfl | rfl | rfl | rfl | rfl <;>
  · obtain ⟨body, rfl, here⟩ := builds.named
    exact here

private theorem group_recognised
    (builds : Builds (.sequence [.text "(", .reference "expression", .text ")"]) tree) :
    Reads language (foldVariant (.named "group" tree)) := by
  obtain ⟨_, _, _, rfl, -, inner, -⟩ := builds.triple
  exact foldNamed_reads inner

private theorem lexical_recognised
    (builds : Builds (.sequence [.text "<", .token "identifier", .text ">"]) tree) :
    Reads language (foldVariant (.named "lexical" tree)) := by
  obtain ⟨_, _, _, rfl, -, target, -⟩ := builds.triple
  exact (Reads.leafName target _ _).bind fun name _ => .token? name

private theorem reference_recognised
    (builds : Builds (.sequence [.token "identifier", .absent (.text "<-")]) tree) :
    Reads language (foldVariant (.named "reference" tree)) := by
  obtain ⟨_, _, rfl, target, -⟩ := builds.pair
  exact (Reads.leafName target _ _).bind fun name _ => .reference? name

private theorem rule_recognised
    (builds : Builds (.sequence [.token "identifier", .text "<-", .reference "expression",
      .optional (.text ";")]) tree) (spec : Specification) :
    Reads language (foldRule spec (.named "rule" tree)) := by
  obtain ⟨_, rfl, _ | ⟨defined, _ | ⟨-, _ | ⟨expression, _ | ⟨-, _ | _⟩⟩⟩⟩⟩ := builds.members
  rw [foldRule, if_pos rfl]
  exact (foldNamed_reads expression).bind fun rule _ =>
    (Reads.leafName defined _ _).bind fun name _ => .production spec name (.ok rule)

private theorem grammar_recognised (builds : Builds (.oneOrMore (.reference "rule")) tree) :
    Reads language (foldGrammar tree) := by
  obtain ⟨rules, rfl, -, each⟩ := builds.rounds
  refine Reads.foldlM (fun node member spec => ?_) Specification.empty
  obtain ⟨body, rfl, here⟩ := (each node member).named
  exact here spec

/-- What the body of a production builds is read, if what it refers to is. -/
theorem recognised_of_builds (name : String) (rule : Rule) (tree : Tree)
    (declared : peg.parser.grammar.productions.find? name = some rule)
    (builds : Builds rule tree) : Recognised name tree := by
  have member := Table.mem_of_find?_ofList declared
  simp only [List.mem_cons, Prod.mk.injEq, List.not_mem_nil, or_false] at member
  rcases member with ⟨rfl, rfl⟩ | ⟨rfl, rfl⟩ | ⟨rfl, rfl⟩ | ⟨rfl, rfl⟩ | ⟨rfl, rfl⟩ |
    ⟨rfl, rfl⟩ | ⟨rfl, rfl⟩ | ⟨rfl, rfl⟩ | ⟨rfl, rfl⟩ | ⟨rfl, rfl⟩ | ⟨rfl, rfl⟩ | ⟨rfl, rfl⟩ |
    ⟨rfl, rfl⟩ | ⟨rfl, rfl⟩
  · exact grammar_recognised builds
  · exact rule_recognised builds
  · exact expression_recognised builds
  · exact sequence_recognised builds
  · exact prefix_recognised builds
  · exact suffix_recognised builds
  · exact primary_recognised builds
  · exact group_recognised builds
  · exact .ok _
  · exact .ok _
  · exact lexical_recognised builds
  · exact (Reads.leafText builds _ _).bind fun text _ => (Reads.unescape _ _).bind fun text _ =>
      .textOrEmpty text
  · exact .ok _
  · exact reference_recognised builds

end Packrat.Notation.Peg
