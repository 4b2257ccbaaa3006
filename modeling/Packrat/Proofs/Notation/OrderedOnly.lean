import Packrat.Proofs.Abnf.AnyTree
import Packrat.Proofs.AmbiguityReports
import Packrat.Proofs.Notation.AnyTree
import Packrat.Proofs.Parsing

/-! # Notations without unordered choice

The folds of parsing expression grammars and of augmented Backus-Naur form put no unordered choice
into a rule, whatever the tree. Their parsers and fragments therefore never report an ambiguity,
which only a choice does, at a place where two of its alternatives match (`ambiguous_of_choice`).
-/

namespace Packrat

namespace Parser

/-- The parser reports no ambiguity, on any text and from any production. -/
def Decisive (parser : Parser) : Prop :=
  ∀ production text name position message,
    parser.parse production text ≠ .error (.ambiguous name position message) ∧
    parser.parseAll production text ≠ .error (.ambiguous name position message)

private theorem run_ne_ambiguous {parser : Parser} (choiceless : parser.grammar.Choiceless)
    (production : String) (text : Text) {name : String} {position : Position} {message : String} :
    parser.run production text ≠ .error (.ambiguous name position message) := by
  rw [run_eq]
  split
  · nofun
  · nofun
  · nofun
  · rename_i reject applied
    rw [Grammar.applyAt?_eq] at applied
    split at applied
    · cases applied
    · rename_i body declared
      obtain ⟨outcome, gives, same⟩ := Option.map_eq_some_iff.mp applied
      cases same
      have kind := Grammar.mismatch_of_choiceless choiceless (choiceless _ _ declared) gives
      simp [rejection, kind]

/-- A parser of a grammar without choice is decisive. -/
theorem decisive_of_choiceless {parser : Parser} (choiceless : parser.grammar.Choiceless) :
    parser.Decisive := by
  intro production text name position message
  have ran := @run_ne_ambiguous parser choiceless production text name position message
  constructor
  · intro failed
    rw [parse] at failed
    cases result : parser.run production text with
    | ok found =>
      rw [result] at failed
      cases failed
    | error fault =>
      rw [result] at failed ran
      cases failed
      exact ran rfl
  · intro failed
    rw [parseAll] at failed
    cases result : parser.run production text with
    | ok found =>
      rw [result] at failed
      simp only [bind, Except.bind] at failed
      split at failed <;> cases failed
    | error fault =>
      rw [result] at failed ran
      cases failed
      exact ran rfl

end Parser

/-- A grammar without choice stays so with another production that has none. -/
theorem Grammar.Choiceless.insert {grammar : Grammar} (choiceless : grammar.Choiceless)
    (declared : String) {rule : Rule} (none : rule.choices = []) :
    Grammar.Choiceless
      { grammar with productions := grammar.productions.insert declared rule } := by
  intro name body found
  rw [Table.find?_insert] at found
  split at found
  · cases found
    exact none
  · exact choiceless name body found

namespace Notation

private theorem allChoices_eq_nil {rules : List Rule} (each : ∀ rule ∈ rules, rule.choices = []) :
    Rule.allChoices rules = [] := by
  induction rules with
  | nil => rfl
  | cons rule rules ih =>
    obtain ⟨here, others⟩ := List.forall_mem_cons.mp each
    rw [Rule.allChoices, here, ih others, List.nil_append]

private theorem kept_choiceless : Kept (fun rule => rule.choices = []) fun _ => True where
  endOfText := rfl
  empty := rfl
  terminal _ := rfl
  reference _ := rfl
  sequence := allChoices_eq_nil
  ordered := allChoices_eq_nil
  optional := id
  repetition := id
  absent := id
  ahead := id
  fault _ := trivial

private theorem fold_choiceless {language : Notation} (among : language ∈ [peg, abnf])
    (tree : Tree) :
    Settles (Declares fun rule => rule.choices = []) (fun _ => True)
        (language.foldGrammar tree) ∧
      Settles (fun rule => rule.choices = []) (fun _ => True) (language.foldFragment tree) := by
  rcases List.mem_pair.mp among with rfl | rfl
  · exact ⟨Peg.foldGrammar_settles kept_choiceless tree,
      Peg.foldFragment_settles kept_choiceless tree⟩
  · have allows : Abnf.Allows (fun _ => True) tree := fun _ _ _ => trivial
    exact ⟨Abnf.foldGrammar_settles kept_choiceless tree allows,
      Abnf.foldFragment_settles kept_choiceless tree allows⟩

private theorem compile_choiceless {language : Notation} (among : language ∈ [peg, abnf])
    {source : Text} {ignore : List LexRule} {parser : Parser}
    (compiled : language.compile source ignore = .ok parser) : parser.grammar.Choiceless := by
  cases read : language.read source with
  | error fault =>
    rw [compile, read] at compiled
    cases compiled
  | ok spec =>
    rw [compile, read] at compiled
    cases compiled
    obtain ⟨tree, -, folded⟩ := Error.bind_eq_ok.mp read
    intro name body found
    exact (fold_choiceless among tree).1.ok folded _ (Table.mem_of_find? found)

private theorem fragment_choiceless {language : Notation} (among : language ∈ [peg, abnf])
    {source : Text} {rule : Rule} (compiled : language.compileFragment source = .ok rule) :
    rule.choices = [] := by
  obtain ⟨tree, -, folded⟩ := Error.bind_eq_ok.mp compiled
  exact (fold_choiceless among tree).2.ok folded

/-- An ambiguity is reported only at a place where two alternatives of one unordered choice match,
each evaluated afresh, and the choice is one to which the rule leads. So no parser of the two
notations with ordered choice reports any, and neither does a fragment of theirs in a grammar that
has no choice, evaluated as a rule or declared as a production. -/
theorem ambiguous_of_choice :
    (∀ (grammar : Grammar) (text : Text) (history : List Call) (environment : Environment),
      (Environment.start grammar).Reaches history environment →
      (∀ call ∈ history, call.cursor.text = text) →
      ∀ (rule : Rule) (offset : Nat) (reject : Reject), reject.kind = .ambiguous →
      (environment.evalAt? rule ((Cursor.start text).seek offset)).map Prod.fst =
        some (.error reject) →
      ∃ holder, grammar.Involves rule holder ∧ ∃ alternatives ∈ holder.choices,
        ∃ first second, [first, second].Sublist alternatives ∧
          ∀ alternative ∈ [first, second], ∃ found,
            ((Environment.start grammar).evalAt? alternative
              ((Cursor.start text).seek reject.cursor.offset)).map Prod.fst = some (.ok found)) ∧
    ∀ language ∈ [peg, abnf],
      (∀ source ignore parser, language.compile source ignore = .ok parser → parser.Decisive) ∧
      ∀ source rule, language.compileFragment source = .ok rule →
        ∀ grammar : Grammar, grammar.Choiceless →
          (∀ declared, Parser.Decisive
            ⟨{ grammar with productions := grammar.productions.insert declared rule }⟩) ∧
          ∀ (text : Text) (history : List Call) (environment : Environment),
            (Environment.start grammar).Reaches history environment →
            (∀ call ∈ history, call.cursor.text = text) → ∀ offset reject,
            (environment.evalAt? rule ((Cursor.start text).seek offset)).map Prod.fst =
              some (.error reject) → reject.kind = .mismatch := by
  refine ⟨?_, fun language among => ⟨?_, ?_⟩⟩
  · intro grammar text history environment reached texts rule offset reject ambiguous rejected
    exact Grammar.exists_alternatives_of_ambiguous reached texts ambiguous rejected
  · intro source ignore parser compiled
    exact Parser.decisive_of_choiceless (compile_choiceless among compiled)
  · intro source rule compiled grammar choiceless
    have none := fragment_choiceless among compiled
    refine ⟨fun declared => Parser.decisive_of_choiceless (choiceless.insert declared none), ?_⟩
    intro text history environment reached texts offset reject rejected
    have here : ((Cursor.start text).seek offset).text = text := by
      rw [Cursor.text_seek, Cursor.text_start]
    rw [reached.map_evalAt? texts rule here, Grammar.evalAt?_eq] at rejected
    exact Grammar.mismatch_of_choiceless choiceless none rejected

/-- A choice that is found through an ordered choice and a reference matches `x` twice. -/
theorem ambiguous_of_choice_referenced :
    let grammar : Grammar :=
      ⟨.ofList [("twice", .choice [.text "x", .optional (.text "x")])], .empty, []⟩
    let rule : Rule := .ordered [.text "y", .reference "twice"]
    ∃ reject, reject.kind = .ambiguous ∧
      ((Environment.start grammar).evalAt? rule ((Cursor.start ['x']).seek 0)).map Prod.fst =
        some (.error reject) ∧
      ∃ holder, grammar.Involves rule holder ∧ ∃ alternatives ∈ holder.choices,
        ∃ first second, [first, second].Sublist alternatives ∧
          ∀ alternative ∈ [first, second], ∃ found,
            ((Environment.start grammar).evalAt? alternative
              ((Cursor.start ['x']).seek reject.cursor.offset)).map Prod.fst =
                some (.ok found) := by
  intro grammar rule
  let reject : Reject := ⟨.start ['x'], .severalMatch 0 ["\"x\"", "[\"x\"]"] [1, 1], .ambiguous⟩
  have rejected : ((Environment.start grammar).evalAt? rule
      ((Cursor.start ['x']).seek 0)).map Prod.fst = some (.error reject) :=
    ((Environment.Reaches.nil _).map_evalAt? nofun rule rfl).trans rfl
  exact ⟨reject, rfl, rejected, ambiguous_of_choice.1 grammar ['x'] [] _ (.nil _) nofun rule 0
    reject rfl rejected⟩

end Notation

end Packrat
