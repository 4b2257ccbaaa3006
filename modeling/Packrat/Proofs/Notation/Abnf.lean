import Packrat.Notation.Abnf
import Packrat.Proofs.Notation.Reading
import Packrat.Proofs.Parsing
import Packrat.Proofs.Pattern.Begins

/-! # The folds of augmented Backus-Naur form

Every tree that the notation's own parser builds is read by the folds, at every node. The mark of
a quoted string is one of four letters, so what follows it is never cut inside a character.
-/

namespace Packrat.Notation.Abnf

/-- The folds read the body of a named node. -/
def Recognised (name : String) (body : Tree) : Prop :=
  match name with
  | "rulelist" => Reads language (foldGrammar body)
  | "rule" => ∀ rules, Reads language (foldRule rules (.named "rule" body))
  | "defined-as" => ∃ start mark, body = .token ⟨.rule mark, mark.toList, start⟩ ∧
      (mark = "=/" ∨ mark = "=")
  | "alternation" => ∀ inlineCore, Reads language (foldAlternatives inlineCore body)
  | "concatenation" => ∀ inlineCore, Reads language (foldSequence inlineCore body)
  | "repetition" => ∀ inlineCore, Reads language (foldRepeated inlineCore body)
  | "element" => ∀ inlineCore, Reads language (foldVariant inlineCore body)
  | kind => ∀ inlineCore, Reads language (foldVariant inlineCore (.named kind body))

private abbrev Builds (rule : Rule) (tree : Tree) : Prop :=
  rule.Builds abnf.parser.grammar.lexicon Recognised tree

variable {tree : Tree}

section NumericValues

variable {language : String}

private theorem ofPattern_reads (source : String) : Reads language (LexRule.ofPattern source) := by
  unfold LexRule.ofPattern
  split
  · exact .ok _
  · exact .build _

private theorem pattern?_reads (name source : String) :
    Reads language (Rule.pattern? name source) := by
  unfold Rule.pattern?
  split
  · exact .build _
  · exact (ofPattern_reads source).bind fun _ _ => .ok _

private theorem scalarOf_reads (code : Nat) : Reads language (Rule.scalarOf code) := by
  unfold Rule.scalarOf
  split
  · exact .ok _
  · exact .build _

private theorem codeRange?_reads (low high : Nat) :
    Reads language (Rule.codeRange? low high) := by
  refine (scalarOf_reads low).bind fun _ _ => (scalarOf_reads high).bind fun _ _ => ?_
  split
  · exact .build _
  · exact pattern?_reads _ _

private theorem numeral_reads (text : Text) (radix : Nat) (digits : Text) :
    Reads language (numeral text radix digits) := by
  unfold numeral
  split
  · exact .ok _
  · exact .build _

/-- A numeric value is refused as any notation may refuse what it reads. -/
theorem numVal_reads (text : Text) : Reads language (numVal text) := by
  unfold numVal
  split
  · split
    · exact .build _
    · split
      · exact (numeral_reads _ _ _).bind fun _ _ => (numeral_reads _ _ _).bind fun _ _ =>
          codeRange?_reads _ _
      · exact (Reads.mapM fun _ _ => numeral_reads _ _ _).bind fun _ _ => pattern?_reads _ _
  · exact .build _

end NumericValues

private theorem count_reads (digits : Text) : Reads language (count digits) := by
  unfold count
  split
  · exact .ok _
  · split
    · exact .ok _
    · exact .build _

private theorem repeatBounds_reads (text : Text) : Reads language (repeatBounds text) := by
  unfold repeatBounds
  split
  · exact (count_reads _).bind fun _ _ => (count_reads _).bind fun _ _ => .ok _
  · exact (count_reads _).bind fun _ _ => .ok _

private theorem repetition?_reads (rule : Rule) (min : Nat) (max : Option Nat) :
    Reads language (Rule.repetition? (.ok rule) min max) := by
  unfold Rule.repetition?
  split
  · exact .build _
  · exact .ok _

private theorem repetitionOf_reads (builds : Builds (.optional (.token "repeat")) tree)
    (rule : Rule) : Reads language (repetitionOf tree rule) := by
  unfold repetitionOf
  split
  · exact .ok _
  · rename_i present
    rcases builds.operand with ⟨offset, rfl⟩ | builds
    · exact absurd rfl present
    · exact (Reads.leafText builds _ _).bind fun text _ => (repeatBounds_reads text).bind
        fun bounds _ => repetition?_reads rule bounds.1 bounds.2

private theorem reference_reads (inlineCore : Bool) (name : String) :
    Reads language (reference inlineCore name) := by
  unfold reference
  split
  · exact .ok _
  · exact .reference? name

private theorem quotedRule_reads (sensitive : Bool) (text : Text) :
    Reads language (quotedRule sensitive text) := by
  unfold quotedRule
  dsimp only
  split
  · exact .ok _
  · exact .literal? _ _

/-- The letters of the marks before quoted strings. -/
def markLetters : CharSet := ⟨[(73, 73), (83, 83), (105, 105), (115, 115)]⟩

/-- A quoted string without a mark. -/
def quotes : Regex :=
  .seq (.literal ['"']) (.seq (.repetition 0 none true (.chars ⟨[(0, 33), (35, 1114111)]⟩))
    (.literal ['"']))

/-- Quoted strings, with a mark or without. -/
def charVals : Regex :=
  .seq (.look .textStart) (.alt (.seq (.literal ['%']) (.seq (.chars markLetters) quotes)) quotes)

private theorem utf8Size_of_markLetters {c : Char} (belongs : markLetters.contains c = true) :
    c.utf8Size = 1 := by
  obtain ⟨range, member, -, below⟩ := CharSet.exists_range_of_contains belongs
  have small : range.2 ≤ 115 := by
    simp only [markLetters, List.mem_cons, List.not_mem_nil, or_false] at member
    rcases member with rfl | rfl | rfl | rfl <;> decide
  rw [Char.utf8Size_eq_one_iff, UInt32.le_iff_toNat_le]
  exact Nat.le_trans below (Nat.le_trans small (by decide))

/-- A quoted string begins with a quote, or with a mark of one byte before it. -/
private theorem charVal_reads {text : Text} (spells : charVals.Spells text) :
    Reads language (charVal text) := by
  cases spells with
  | seq front back =>
    cases front
    cases back with
    | preferred inner =>
      cases inner with
      | seq percent more =>
        cases percent
        cases more with
        | seq mark quotes =>
          cases mark with
          | @chars _ c belongs =>
            simp only [List.nil_append, List.cons_append, charVal, utf8Size_of_markLetters belongs,
              if_true]
            exact quotedRule_reads _ _
    | other inner =>
      cases inner with
      | seq quote more =>
        cases quote
        exact quotedRule_reads _ _

private theorem charVal_of_builds (builds : Builds (.token "char-val") tree) :
    Reads language (do charVal (← tree.leafText language "char-val")) := by
  have declared : abnf.parser.grammar.lexicon.find? "char-val" =
      some (.pattern (.of "%[sSiI]\"[^\"]*\"|\"[^\"]*\"" wellFormed_charVal)) := rfl
  obtain ⟨text, start, rfl, spells⟩ := builds.spelled declared (by decide +kernel)
  rw [show Pattern.regex _ = charVals by decide +kernel] at spells
  exact charVal_reads spells

private theorem foldAlternation_reads (inlineCore : Bool)
    (builds : Builds (.reference "alternation") tree) :
    Reads language (foldAlternation inlineCore tree) := by
  obtain ⟨body, rfl, here⟩ := builds.named
  rw [foldAlternation, if_pos rfl]
  exact here inlineCore

private theorem foldConcatenation_reads (inlineCore : Bool)
    (builds : Builds (.reference "concatenation") tree) :
    Reads language (foldConcatenation inlineCore tree) := by
  obtain ⟨body, rfl, here⟩ := builds.named
  rw [foldConcatenation, if_pos rfl]
  exact here inlineCore

private theorem foldBranches_reads (inlineCore : Bool) {nodes : List Tree}
    (each : ∀ node ∈ nodes, Builds (.sequence [.text "/", .reference "concatenation"]) node) :
    Reads language (foldBranches inlineCore nodes) := by
  induction nodes with
  | nil => exact .ok _
  | cons node nodes ih =>
    obtain ⟨here, others⟩ := List.forall_mem_cons.mp each
    obtain ⟨_, _, rfl, -, branch⟩ := here.pair
    rw [foldBranches]
    exact (foldConcatenation_reads inlineCore branch).bind fun _ _ =>
      (ih others).bind fun _ _ => .ok _

private theorem foldAll_reads (inlineCore : Bool) {nodes : List Tree}
    (each : ∀ node ∈ nodes, Builds (.reference "repetition") node) :
    Reads language (foldAll inlineCore nodes) := by
  induction nodes with
  | nil => exact .ok _
  | cons node nodes ih =>
    obtain ⟨here, others⟩ := List.forall_mem_cons.mp each
    obtain ⟨body, rfl, item⟩ := here.named
    rw [foldAll, foldRepetition, if_pos rfl]
    exact (item inlineCore).bind fun _ _ => (ih others).bind fun _ _ => .ok _

private theorem alternation_recognised
    (builds : Builds (.sequence [.reference "concatenation",
      .zeroOrMore (.sequence [.text "/", .reference "concatenation"])]) tree)
    (inlineCore : Bool) : Reads language (foldAlternatives inlineCore tree) := by
  obtain ⟨_, _, rfl, first, rest⟩ := builds.pair
  obtain ⟨others, rfl, -, each⟩ := rest.rounds
  rw [foldAlternatives]
  exact (foldConcatenation_reads inlineCore first).bind fun _ _ =>
    (foldBranches_reads inlineCore each).bind fun _ _ => .ok _

private theorem concatenation_recognised
    (builds : Builds (.oneOrMore (.reference "repetition")) tree) (inlineCore : Bool) :
    Reads language (foldSequence inlineCore tree) := by
  obtain ⟨items, rfl, -, each⟩ := builds.rounds
  rw [foldSequence]
  exact (foldAll_reads inlineCore each).bind fun _ _ => .concatenation _

private theorem repetition_recognised
    (builds : Builds (.sequence [.optional (.token "repeat"), .reference "element"]) tree)
    (inlineCore : Bool) : Reads language (foldRepeated inlineCore tree) := by
  obtain ⟨_, _, rfl, bounds, element⟩ := builds.pair
  obtain ⟨body, rfl, here⟩ := element.named
  rw [foldRepeated, foldElement, if_pos rfl]
  exact (here inlineCore).bind fun rule _ => repetitionOf_reads bounds rule

private theorem element_recognised
    (builds : Builds (.ordered [.reference "reference", .reference "group", .reference "option",
      .reference "char-val", .reference "num-val", .reference "prose-val"]) tree)
    (inlineCore : Bool) : Reads language (foldVariant inlineCore tree) := by
  obtain ⟨rule, among, builds⟩ := builds.orderedAlternative
  simp only [List.mem_cons, List.not_mem_nil, or_false] at among
  rcases among with rfl | rfl | rfl | rfl | rfl | rfl <;>
  · obtain ⟨body, rfl, here⟩ := builds.named
    exact here inlineCore

private theorem reference_recognised
    (builds : Builds (.sequence [.token "rulename", .absent (.reference "defined-as")]) tree)
    (inlineCore : Bool) :
    Reads language (foldVariant inlineCore (.named "reference" tree)) := by
  obtain ⟨_, _, rfl, target, -⟩ := builds.pair
  exact (Reads.leafName target _ _).bind fun name _ => reference_reads inlineCore name

private theorem foldEnclosed_reads {kind left right : String} (inlineCore : Bool)
    (builds : Builds (.sequence [.text left, .reference "alternation", .text right]) tree) :
    Reads language (foldEnclosed inlineCore kind tree) := by
  obtain ⟨_, _, _, rfl, -, inner, -⟩ := builds.triple
  rw [foldEnclosed]
  exact (foldAlternation_reads inlineCore inner).bind fun rules _ => .alternatives true rules

private theorem proseVal_recognised (builds : Builds (.token "prose-val") tree)
    (inlineCore : Bool) :
    Reads language (foldVariant inlineCore (.named "prose-val" tree)) := by
  refine (Reads.leafName builds language "prose-val").bind fun prose _ => ?_
  intro fault same
  cases same
  exact .prose

private theorem definedAs_recognised
    (builds : Builds (.ordered [.text "=/", .text "="]) tree) :
    Recognised "defined-as" tree := by
  obtain ⟨rule, among, builds⟩ := builds.orderedAlternative
  simp only [List.mem_cons, List.not_mem_nil, or_false] at among
  rcases among with rfl | rfl
  · obtain ⟨start, rfl⟩ := builds.text
    exact ⟨start, "=/", rfl, .inl rfl⟩
  · obtain ⟨start, rfl⟩ := builds.text
    exact ⟨start, "=", rfl, .inr rfl⟩

private theorem rule_recognised
    (builds : Builds (.sequence [.token "rulename", .reference "defined-as",
      .reference "alternation"]) tree) (rules : Table (List Rule)) :
    Reads language (foldRule rules (.named "rule" tree)) := by
  obtain ⟨_, _, _, rfl, defined, operator, alternation⟩ := builds.triple
  obtain ⟨_, rfl, start, mark, rfl, marks⟩ := operator.named
  rw [foldRule, if_pos rfl]
  refine (Reads.leafName defined _ _).bind fun name _ => ?_
  refine (Reads.ok mark.toList).bind fun text same => ?_
  cases same
  refine (foldAlternation_reads false alternation).bind fun branches _ => ?_
  rcases marks with rfl | rfl
  · rw [if_neg (by decide), if_pos (by decide)]
    split
    · exact .ok _
    · exact .build _
  · rw [if_pos (by decide)]
    split
    · exact .build _
    · exact .ok _

private theorem ofRules_reads (rules : Table (List Rule)) : Reads language (ofRules rules) := by
  refine (Reads.foldlM (fun name _ spec => ?_) _).bind fun spec _ =>
    Reads.foldlM (fun entry _ spec => ?_) spec
  · exact .production spec name (.token? name)
  · exact (Reads.alternatives true entry.2).bind fun rule _ => .production spec entry.1 (.ok rule)

private theorem rulelist_recognised (builds : Builds (.oneOrMore (.reference "rule")) tree) :
    Reads language (foldGrammar tree) := by
  obtain ⟨nodes, rfl, -, each⟩ := builds.rounds
  refine (Reads.foldlM (fun node member rules => ?_) Table.empty).bind fun rules _ =>
    ofRules_reads rules
  obtain ⟨body, rfl, here⟩ := (each node member).named
  exact here rules

/-- What the body of a production builds is read, if what it refers to is. -/
theorem recognised_of_builds (name : String) (rule : Rule) (tree : Tree)
    (declared : abnf.parser.grammar.productions.find? name = some rule)
    (builds : Builds rule tree) : Recognised name tree := by
  have member := Table.mem_of_find?_ofList declared
  simp only [List.mem_cons, Prod.mk.injEq, List.not_mem_nil, or_false] at member
  rcases member with ⟨rfl, rfl⟩ | ⟨rfl, rfl⟩ | ⟨rfl, rfl⟩ | ⟨rfl, rfl⟩ | ⟨rfl, rfl⟩ |
    ⟨rfl, rfl⟩ | ⟨rfl, rfl⟩ | ⟨rfl, rfl⟩ | ⟨rfl, rfl⟩ | ⟨rfl, rfl⟩ | ⟨rfl, rfl⟩ | ⟨rfl, rfl⟩ |
    ⟨rfl, rfl⟩
  · exact rulelist_recognised builds
  · exact rule_recognised builds
  · exact definedAs_recognised builds
  · exact alternation_recognised builds
  · exact concatenation_recognised builds
  · exact repetition_recognised builds
  · exact element_recognised builds
  · exact reference_recognised builds
  · exact fun inlineCore => foldEnclosed_reads inlineCore builds
  · exact fun inlineCore => (foldEnclosed_reads inlineCore builds).map _
  · exact fun _ => charVal_of_builds builds
  · exact fun _ => (Reads.leafText builds _ _).bind fun text _ => numVal_reads text
  · exact proseVal_recognised builds

end Packrat.Notation.Abnf
