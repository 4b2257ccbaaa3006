import Packrat.Notation.Wsn
import Packrat.Proofs.Notation.Reading
import Packrat.Proofs.Parsing

/-! # The folds of Wirth syntax notation

Every tree that the notation's own parser builds is read by the folds, at every node.
-/

namespace Packrat.Notation.Wsn

/-- The folds read the body of a named node. -/
def Recognised (name : String) (body : Tree) : Prop :=
  match name with
  | "syntax" => Reads language (foldGrammar body)
  | "production" => ∀ spec, Reads language (foldRule spec (.named "production" body))
  | "expression" => Reads language (foldExpression body)
  | "term" => Reads language (foldSequence body)
  | "factor" => Reads language (foldVariant body)
  | kind => Reads language (foldVariant (.named kind body))

private abbrev Builds (rule : Rule) (tree : Tree) : Prop :=
  rule.Builds wsn.parser.grammar.lexicon Recognised tree

variable {tree : Tree}

private theorem foldNamed_reads (builds : Builds (.reference "expression") tree) :
    Reads language (foldNamed tree) := by
  obtain ⟨body, rfl, here⟩ := builds.named
  rw [foldNamed, if_pos rfl]
  exact here

private theorem foldTerm_reads (builds : Builds (.reference "term") tree) :
    Reads language (foldTerm tree) := by
  obtain ⟨body, rfl, here⟩ := builds.named
  rw [foldTerm, if_pos rfl]
  exact here

private theorem foldBranches_reads {nodes : List Tree}
    (each : ∀ node ∈ nodes, Builds (.sequence [.text "|", .reference "term"]) node) :
    Reads language (foldBranches nodes) := by
  induction nodes with
  | nil => exact .ok _
  | cons node nodes ih =>
    obtain ⟨here, others⟩ := List.forall_mem_cons.mp each
    obtain ⟨_, _, rfl, -, term⟩ := here.pair
    rw [foldBranches]
    exact (foldTerm_reads term).bind fun _ _ => (ih others).bind fun _ _ => .ok _

private theorem foldFactors_reads {nodes : List Tree}
    (each : ∀ node ∈ nodes, Builds (.reference "factor") node) :
    Reads language (foldFactors nodes) := by
  induction nodes with
  | nil => exact .ok _
  | cons node nodes ih =>
    obtain ⟨here, others⟩ := List.forall_mem_cons.mp each
    obtain ⟨body, rfl, factor⟩ := here.named
    rw [foldFactors, foldFactor, if_pos rfl]
    exact Reads.bind factor fun _ _ => (ih others).bind fun _ _ => .ok _

private theorem expression_recognised
    (builds : Builds (.sequence [.reference "term",
      .zeroOrMore (.sequence [.text "|", .reference "term"])]) tree) :
    Reads language (foldExpression tree) := by
  obtain ⟨_, _, rfl, first, rest⟩ := builds.pair
  obtain ⟨others, rfl, -, each⟩ := rest.rounds
  rw [foldExpression]
  exact (foldTerm_reads first).bind fun _ _ =>
    (foldBranches_reads each).bind fun _ _ => .alternatives _ _

private theorem term_recognised (builds : Builds (.oneOrMore (.reference "factor")) tree) :
    Reads language (foldSequence tree) := by
  obtain ⟨factors, rfl, -, each⟩ := builds.rounds
  rw [foldSequence]
  exact (foldFactors_reads each).bind fun _ _ => .concatenation _

private theorem factor_recognised
    (builds : Builds (.choice [.reference "identifier", .reference "literal",
      .reference "option", .reference "group", .reference "repeat"]) tree) :
    Reads language (foldVariant tree) := by
  obtain ⟨rule, among, builds⟩ := builds.alternative
  simp only [List.mem_cons, List.not_mem_nil, or_false] at among
  rcases among with rfl | rfl | rfl | rfl | rfl <;>
  · obtain ⟨body, rfl, here⟩ := builds.named
    exact here

private theorem foldEnclosed_reads {kind left right : String}
    (builds : Builds (.sequence [.text left, .reference "expression", .text right]) tree) :
    Reads language (foldEnclosed kind tree) := by
  obtain ⟨_, _, _, rfl, -, inner, -⟩ := builds.triple
  rw [foldEnclosed]
  exact foldNamed_reads inner

private theorem production_recognised
    (builds : Builds (.sequence [.token "identifier", .text "=", .reference "expression",
      .text "."]) tree) (spec : Specification) :
    Reads language (foldRule spec (.named "production" tree)) := by
  obtain ⟨_, rfl, _ | ⟨defined, _ | ⟨-, _ | ⟨expression, _ | ⟨-, _ | _⟩⟩⟩⟩⟩ := builds.members
  rw [foldRule, if_pos rfl]
  exact (foldNamed_reads expression).bind fun rule _ =>
    (Reads.leafName defined _ _).bind fun name _ => .production spec name (.ok rule)

private theorem syntax_recognised (builds : Builds (.zeroOrMore (.reference "production")) tree) :
    Reads language (foldGrammar tree) := by
  obtain ⟨rules, rfl, -, each⟩ := builds.rounds
  refine Reads.foldlM (fun node member spec => ?_) Specification.empty
  obtain ⟨body, rfl, here⟩ := (each node member).named
  exact here spec

/-- What the body of a production builds is read, if what it refers to is. -/
theorem recognised_of_builds (name : String) (rule : Rule) (tree : Tree)
    (declared : wsn.parser.grammar.productions.find? name = some rule)
    (builds : Builds rule tree) : Recognised name tree := by
  have member := Table.mem_of_find?_ofList declared
  simp only [List.mem_cons, Prod.mk.injEq, List.not_mem_nil, or_false] at member
  rcases member with ⟨rfl, rfl⟩ | ⟨rfl, rfl⟩ | ⟨rfl, rfl⟩ | ⟨rfl, rfl⟩ | ⟨rfl, rfl⟩ |
    ⟨rfl, rfl⟩ | ⟨rfl, rfl⟩ | ⟨rfl, rfl⟩ | ⟨rfl, rfl⟩ | ⟨rfl, rfl⟩
  · exact syntax_recognised builds
  · exact production_recognised builds
  · exact expression_recognised builds
  · exact term_recognised builds
  · exact factor_recognised builds
  · exact (Reads.leafName builds _ _).bind fun name _ => .reference? name
  · exact (Reads.leafText builds _ _).bind fun text _ => .literal? _ false
  · exact (foldEnclosed_reads builds).map _
  · exact foldEnclosed_reads builds
  · exact (foldEnclosed_reads builds).map _

end Packrat.Notation.Wsn
