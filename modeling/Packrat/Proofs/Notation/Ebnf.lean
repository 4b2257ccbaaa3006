import Packrat.Notation.Ebnf
import Packrat.Proofs.Notation.Reading
import Packrat.Proofs.Parsing

/-! # The folds of extended Backus-Naur form

Every tree that the notation's own parser builds is read by the folds, at every node.
-/

namespace Packrat.Notation.Ebnf

/-- The folds read the body of a named node. -/
def Recognised (name : String) (body : Tree) : Prop :=
  match name with
  | "grammar" => Reads language (foldGrammar body)
  | "rule" => ∀ spec, Reads language (foldRule spec (.named "rule" body))
  | "alternation" => Reads language (foldAlternatives body)
  | "concatenation" => Reads language (foldSequence body)
  | "factor" => Reads language (foldVariant body)
  | kind => Reads language (foldVariant (.named kind body))

/-- The rules of the notation's grammar, given what is recognised below. -/
private abbrev Builds (rule : Rule) (tree : Tree) : Prop :=
  rule.Builds ebnf.parser.grammar.lexicon Recognised tree

variable {tree : Tree}

private theorem foldAlternation_reads (builds : Builds (.reference "alternation") tree) :
    Reads language (foldAlternation tree) := by
  obtain ⟨body, rfl, here⟩ := builds.named
  rw [foldAlternation, if_pos rfl]
  exact here

private theorem foldConcatenation_reads (builds : Builds (.reference "concatenation") tree) :
    Reads language (foldConcatenation tree) := by
  obtain ⟨body, rfl, here⟩ := builds.named
  rw [foldConcatenation, if_pos rfl]
  exact here

private theorem foldFactor_reads (builds : Builds (.reference "factor") tree) :
    Reads language (foldFactor tree) := by
  obtain ⟨body, rfl, here⟩ := builds.named
  rw [foldFactor, if_pos rfl]
  exact here

private theorem foldBranches_reads {nodes : List Tree}
    (each : ∀ node ∈ nodes, Builds (.sequence [.text "|", .reference "concatenation"]) node) :
    Reads language (foldBranches nodes) := by
  induction nodes with
  | nil => exact .ok _
  | cons node nodes ih =>
    obtain ⟨here, others⟩ := List.forall_mem_cons.mp each
    obtain ⟨_, _, rfl, -, branch⟩ := here.pair
    rw [foldBranches]
    exact (foldConcatenation_reads branch).bind fun _ _ => (ih others).bind fun _ _ => .ok _

private theorem foldFactors_reads {nodes : List Tree}
    (each : ∀ node ∈ nodes, Builds (.sequence [.text ",", .reference "factor"]) node) :
    Reads language (foldFactors nodes) := by
  induction nodes with
  | nil => exact .ok _
  | cons node nodes ih =>
    obtain ⟨here, others⟩ := List.forall_mem_cons.mp each
    obtain ⟨_, _, rfl, -, factor⟩ := here.pair
    rw [foldFactors]
    exact (foldFactor_reads factor).bind fun _ _ => (ih others).bind fun _ _ => .ok _

private theorem alternation_recognised
    (builds : Builds (.sequence [.reference "concatenation",
      .zeroOrMore (.sequence [.text "|", .reference "concatenation"])]) tree) :
    Reads language (foldAlternatives tree) := by
  obtain ⟨_, _, rfl, first, rest⟩ := builds.pair
  obtain ⟨others, rfl, -, each⟩ := rest.rounds
  rw [foldAlternatives]
  exact (foldConcatenation_reads first).bind fun _ _ =>
    (foldBranches_reads each).bind fun _ _ => .alternatives _ _

private theorem concatenation_recognised
    (builds : Builds (.sequence [.reference "factor",
      .zeroOrMore (.sequence [.text ",", .reference "factor"])]) tree) :
    Reads language (foldSequence tree) := by
  obtain ⟨_, _, rfl, first, rest⟩ := builds.pair
  obtain ⟨others, rfl, -, each⟩ := rest.rounds
  rw [foldSequence]
  exact (foldFactor_reads first).bind fun _ _ =>
    (foldFactors_reads each).bind fun _ _ => .concatenation _

private theorem factor_recognised
    (builds : Builds (.choice [.reference "reference", .reference "terminal",
      .reference "option", .reference "repeat", .reference "group"]) tree) :
    Reads language (foldVariant tree) := by
  obtain ⟨rule, among, builds⟩ := builds.alternative
  simp only [List.mem_cons, List.not_mem_nil, or_false] at among
  rcases among with rfl | rfl | rfl | rfl | rfl <;>
  · obtain ⟨body, rfl, here⟩ := builds.named
    exact here

private theorem foldEnclosed_reads {kind left right : String}
    (builds : Builds (.sequence [.text left, .reference "alternation", .text right]) tree) :
    Reads language (foldEnclosed kind tree) := by
  obtain ⟨_, _, _, rfl, -, inner, -⟩ := builds.triple
  rw [foldEnclosed]
  exact foldAlternation_reads inner

private theorem rule_recognised
    (builds : Builds (.sequence [.token "meta-identifier", .text "=", .reference "alternation",
      .choice [.text ";", .text "."]]) tree) (spec : Specification) :
    Reads language (foldRule spec (.named "rule" tree)) := by
  obtain ⟨_, rfl, _ | ⟨defined, _ | ⟨-, _ | ⟨alternation, _ | ⟨-, _ | _⟩⟩⟩⟩⟩ := builds.members
  rw [foldRule, if_pos rfl]
  exact (foldAlternation_reads alternation).bind fun rule _ =>
    (Reads.leafName defined _ _).bind fun name _ => .production spec name (.ok rule)

private theorem grammar_recognised
    (builds : Builds (.zeroOrMore (.reference "rule")) tree) :
    Reads language (foldGrammar tree) := by
  obtain ⟨rules, rfl, -, each⟩ := builds.rounds
  refine Reads.foldlM (fun node member spec => ?_) Specification.empty
  obtain ⟨body, rfl, here⟩ := (each node member).named
  exact here spec

/-- What the body of a production builds is read, if what it refers to is. -/
theorem recognised_of_builds (name : String) (rule : Rule) (tree : Tree)
    (declared : ebnf.parser.grammar.productions.find? name = some rule)
    (builds : Builds rule tree) : Recognised name tree := by
  have member := Table.mem_of_find?_ofList declared
  simp only [List.mem_cons, Prod.mk.injEq, List.not_mem_nil, or_false] at member
  rcases member with ⟨rfl, rfl⟩ | ⟨rfl, rfl⟩ | ⟨rfl, rfl⟩ | ⟨rfl, rfl⟩ | ⟨rfl, rfl⟩ |
    ⟨rfl, rfl⟩ | ⟨rfl, rfl⟩ | ⟨rfl, rfl⟩ | ⟨rfl, rfl⟩ | ⟨rfl, rfl⟩
  · exact grammar_recognised builds
  · exact rule_recognised builds
  · exact alternation_recognised builds
  · exact concatenation_recognised builds
  · exact factor_recognised builds
  · exact (Reads.leafName builds _ _).bind fun name _ => .reference? name
  · exact (Reads.leafText builds _ _).bind fun text _ => .literal? _ false
  · exact (foldEnclosed_reads builds).map _
  · exact (foldEnclosed_reads builds).map _
  · exact foldEnclosed_reads builds

end Packrat.Notation.Ebnf
