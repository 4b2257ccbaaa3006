import Packrat.Notation.Bnf
import Packrat.Proofs.Notation.Reading
import Packrat.Proofs.Parsing

/-! # The folds of Backus-Naur form

Every tree that the notation's own parser builds is read by the folds, at every node.
-/

namespace Packrat.Notation.Bnf

/-- The folds read the body of a named node. -/
def Recognised (name : String) (body : Tree) : Prop :=
  match name with
  | "syntax" => Reads language (foldGrammar body)
  | "rule" => ∀ spec, Reads language (foldRule spec (.named "rule" body))
  | "expression" => Reads language (foldExpression body)
  | "list" => Reads language (foldList (.named "list" body))
  | kind => Reads language (foldTerm (.named kind body))

private abbrev Builds (rule : Rule) (tree : Tree) : Prop :=
  rule.Builds bnf.parser.grammar.lexicon Recognised tree

variable {tree : Tree}

private theorem foldList_reads (builds : Builds (.reference "list") tree) :
    Reads language (foldList tree) := by
  obtain ⟨body, rfl, here⟩ := builds.named
  exact here

private theorem foldTerm_reads
    (builds : Builds (.ordered [.reference "reference", .reference "literal"]) tree) :
    Reads language (foldTerm tree) := by
  obtain ⟨rule, among, builds⟩ := builds.orderedAlternative
  simp only [List.mem_cons, List.not_mem_nil, or_false] at among
  rcases among with rfl | rfl <;>
  · obtain ⟨body, rfl, here⟩ := builds.named
    exact here

private theorem list_recognised
    (builds : Builds (.oneOrMore (.ordered [.reference "reference", .reference "literal"])) tree) :
    Reads language (foldList (.named "list" tree)) := by
  obtain ⟨terms, rfl, -, each⟩ := builds.rounds
  rw [foldList, if_pos rfl]
  exact (Reads.mapM fun term member => foldTerm_reads (each term member)).bind fun rules _ =>
    .concatenation rules

private theorem expression_recognised
    (builds : Builds (.sequence [.reference "list",
      .zeroOrMore (.sequence [.optional (.token "line-end"), .text "|", .reference "list"])])
      tree) : Reads language (foldExpression tree) := by
  obtain ⟨_, _, rfl, first, rest⟩ := builds.pair
  obtain ⟨others, rfl, -, each⟩ := rest.rounds
  rw [foldExpression]
  refine (foldList_reads first).bind fun _ _ => (Reads.mapM fun node member => ?_).bind
    fun _ _ => .alternatives _ _
  obtain ⟨_, _, _, rfl, -, -, list⟩ := (each node member).triple
  exact foldList_reads list

private theorem rule_recognised {bound : Rule}
    (builds : Builds (.sequence [.text "<", .token "rule-name", .text ">", .text "::=",
      .reference "expression", bound]) tree) (spec : Specification) :
    Reads language (foldRule spec (.named "rule" tree)) := by
  obtain ⟨_, rfl, _ | ⟨-, _ | ⟨defined, _ | ⟨-, _ | ⟨-, _ | ⟨expression, _ | ⟨-, _ | _⟩⟩⟩⟩⟩⟩⟩ :=
    builds.members
  obtain ⟨body, rfl, here⟩ := expression.named
  rw [foldRule, if_pos rfl]
  exact Reads.bind here fun rule _ =>
    (Reads.leafName defined _ _).bind fun name _ => .production spec name (.ok rule)

private theorem syntax_recognised
    (builds : Builds (.sequence [.optional (.token "line-end"), .oneOrMore (.reference "rule")])
      tree) : Reads language (foldGrammar tree) := by
  obtain ⟨_, _, rfl, -, rules⟩ := builds.pair
  obtain ⟨nodes, rfl, -, each⟩ := rules.rounds
  refine Reads.foldlM (fun node member spec => ?_) Specification.empty
  obtain ⟨body, rfl, here⟩ := (each node member).named
  exact here spec

private theorem reference_recognised
    (builds : Builds (.sequence [.text "<", .token "rule-name", .text ">"]) tree) :
    Reads language (foldTerm (.named "reference" tree)) := by
  obtain ⟨_, _, _, rfl, -, target, -⟩ := builds.triple
  exact (Reads.leafName target _ _).bind fun name _ => .reference? name

/-- What the body of a production builds is read, if what it refers to is. -/
theorem recognised_of_builds (name : String) (rule : Rule) (tree : Tree)
    (declared : bnf.parser.grammar.productions.find? name = some rule)
    (builds : Builds rule tree) : Recognised name tree := by
  have member := Table.mem_of_find?_ofList declared
  simp only [List.mem_cons, Prod.mk.injEq, List.not_mem_nil, or_false] at member
  rcases member with ⟨rfl, rfl⟩ | ⟨rfl, rfl⟩ | ⟨rfl, rfl⟩ | ⟨rfl, rfl⟩ | ⟨rfl, rfl⟩ |
    ⟨rfl, rfl⟩
  · exact syntax_recognised builds
  · exact rule_recognised builds
  · exact expression_recognised builds
  · exact list_recognised builds
  · exact reference_recognised builds
  · exact (Reads.leafText builds _ _).bind fun text _ => (Reads.unescape _ _).bind fun text _ =>
      .textOrEmpty text

end Packrat.Notation.Bnf
