import Packrat.Parser
import Packrat.Proofs.Ambiguity
import Packrat.Proofs.Building
import Packrat.Proofs.Memoization

/-! # Parsing whole texts

A parser gives the tree of a production for a text exactly when the production matches at the
start and nothing but ignored text follows. For a grammar without left recursion whose choices are
exclusive, the only other result is a reject (`Parser.parseAll_of_tame`).
-/

namespace Packrat

namespace Parser

variable {parser : Parser} {production : String} {text : Text}

/-- A parser applies productions as without a table. -/
theorem run_eq (parser : Parser) (production : String) (text : Text) :
    parser.run production text =
      match parser.grammar.applyAt? production (.start text) with
      | none => .error (.endless production)
      | some none => .error (.unknownProduction production)
      | some (some (.ok found)) => .ok found
      | some (some (.error reject)) => .error (rejection production text reject) := by
  have fresh : ((Environment.start parser.grammar).applyAt? production (.start text)).map
      Prod.fst = parser.grammar.applyAt? production (.start text) :=
    Call.map_on? (.empty parser.grammar text) (show (Call.apply production _).cursor.text = _ from
      Cursor.text_start text)
  rw [run, ← fresh]
  cases (Environment.start parser.grammar).applyAt? production (.start text) with
  | none => rfl
  | some pair =>
    obtain ⟨_ | ⟨_ | _⟩, _⟩ := pair <;> rfl

/-- What a declared production gives at the start is what a parser makes of a text. -/
theorem run_of_gives {rule : Rule} {outcome : Outcome}
    (declared : parser.grammar.productions.find? production = some rule)
    (gives : parser.grammar.Gives rule (.start text) outcome) :
    parser.run production text =
      match outcome with
      | .ok found => .ok found
      | .error reject => .error (rejection production text reject) := by
  have applied : parser.grammar.applyAt? production (.start text) = some (some outcome) := by
    rw [Grammar.applyAt?_eq, declared]
    exact Option.map_eq_some_iff.mpr ⟨outcome, gives, rfl⟩
  rw [run_eq, applied]
  cases outcome <;> rfl

/-- A declared production that a parser finds is given at the start. -/
theorem gives_of_run {found : Match} (ran : parser.run production text = .ok found) :
    ∃ rule, parser.grammar.productions.find? production = some rule ∧
      parser.grammar.Gives rule (.start text) (.ok found) := by
  rw [run_eq] at ran
  split at ran
  · cases ran
  · cases ran
  · rename_i other applied
    cases ran
    rw [Grammar.applyAt?_eq] at applied
    split at applied
    · cases applied
    · rename_i rule declared
      obtain ⟨outcome, gives, same⟩ := Option.map_eq_some_iff.mp applied
      cases same
      exact ⟨rule, declared, gives⟩
  · cases ran

/-- A tree of a whole text is that of a match after which only ignored text comes. -/
theorem gives_of_parseAll {tree : Tree} (parsed : parser.parseAll production text = .ok tree) :
    ∃ rule found, parser.grammar.productions.find? production = some rule ∧
      parser.grammar.Gives rule (.start text) (.ok found) ∧
      (found.cursor.skip parser.grammar.ignore).rest = [] ∧ found.node = tree := by
  unfold parseAll at parsed
  cases ran : parser.run production text with
  | error fault =>
    rw [ran] at parsed
    cases parsed
  | ok found =>
    obtain ⟨rule, declared, gives⟩ := gives_of_run ran
    rw [ran] at parsed
    simp only [bind, Except.bind] at parsed
    split at parsed
    · rename_i ended
      cases parsed
      exact ⟨rule, found, declared, gives, by simpa [Cursor.atEnd] using ended, rfl⟩
    · cases parsed

/-- A text is parsed when the production matches at the start and only ignored text follows. -/
theorem parseAll_eq_ok_iff {rule : Rule} {tree : Tree}
    (declared : parser.grammar.productions.find? production = some rule) :
    parser.parseAll production text = .ok tree ↔
      ∃ found, parser.grammar.Gives rule (.start text) (.ok found) ∧
        (found.cursor.skip parser.grammar.ignore).rest = [] ∧ found.node = tree := by
  constructor
  · intro parsed
    obtain ⟨rule', found, declared', gives, ended, node⟩ := gives_of_parseAll parsed
    obtain rfl := Option.some.inj (declared.symm.trans declared')
    exact ⟨found, gives, ended, node⟩
  · rintro ⟨found, gives, ended, rfl⟩
    have atEnd : (found.cursor.skip parser.grammar.ignore).atEnd = true := by
      simpa [Cursor.atEnd] using ended
    have ran : parser.run production text = .ok found := run_of_gives declared gives
    simp only [parseAll, ran, bind, Except.bind, atEnd, if_true]
    rfl

end Parser

namespace Grammar

/-- The grammar has no left recursion, and its choices are exclusive. -/
structure Tame (grammar : Grammar) : Prop where
  ranked : ∃ rank, grammar.Ranked rank
  exclusive : grammar.ChoicesExclusive

theorem Tame.of_checks {grammar : Grammar} {order : List String} {depth : Nat}
    (ranked : grammar.rankedBy order = true) (apart : grammar.choicesApart depth = true) :
    grammar.Tame :=
  ⟨⟨_, ranked_of_order ranked⟩, choicesExclusive_of_apart apart⟩

theorem Tame.gives {grammar : Grammar} (tame : grammar.Tame) {name : String} {rule : Rule}
    (declared : grammar.productions.find? name = some rule) (cursor : Cursor) :
    ∃ outcome, grammar.Gives rule cursor outcome ∧
      ∀ reject, outcome = .error reject → reject.kind = .mismatch := by
  obtain ⟨rank, ranked⟩ := tame.ranked
  obtain ⟨result, applied⟩ := Option.isSome_iff_exists.mp (applyAt?_isSome ranked name cursor)
  rw [applyAt?_eq, declared] at applied
  obtain ⟨outcome, gives, -⟩ := Option.map_eq_some_iff.mp applied
  refine ⟨outcome, gives, ?_⟩
  rintro reject rfl
  exact mismatch_of_exclusive tame.exclusive (tame.exclusive name rule declared) gives

end Grammar

namespace Parser

variable {parser : Parser} {production : String} {rule : Rule}

/-- The nodes of a tree have what the bodies of productions pass on. -/
theorem every_of_parseAll {holds : String → Tree → Prop}
    (closed : ∀ name rule tree, parser.grammar.productions.find? name = some rule →
      rule.Builds parser.grammar.lexicon holds tree → holds name tree)
    {text : Text} {tree : Tree} (parsed : parser.parseAll production text = .ok tree) :
    (Tree.named production tree).Every holds := by
  obtain ⟨rule, found, declared, gives, -, rfl⟩ := gives_of_parseAll parsed
  exact .named (closed production rule _ declared (Grammar.builds_of_gives closed gives))
    (Grammar.every_of_gives closed gives)

/-- A parser of a tame grammar gives a tree of a declared production, or rejects the text. -/
theorem parseAll_of_tame (tame : parser.grammar.Tame)
    (declared : parser.grammar.productions.find? production = some rule) (text : Text) :
    (∃ tree, parser.parseAll production text = .ok tree) ∨
      ∃ position message,
        parser.parseAll production text = .error (.rejected production position message) := by
  obtain ⟨outcome, gives, mismatch⟩ := tame.gives declared (.start text)
  cases outcome with
  | ok found =>
    have ran : parser.run production text = .ok found := run_of_gives declared gives
    cases ended : (found.cursor.skip parser.grammar.ignore).atEnd with
    | true =>
      refine .inl ⟨found.node, ?_⟩
      simp only [parseAll, ran, bind, Except.bind, ended, if_true]
      rfl
    | false =>
      let stop := (found.cursor.skip parser.grammar.ignore).offset
      refine .inr ⟨.locate text stop, s!"unexpected trailing input at offset {stop}", ?_⟩
      simp only [parseAll, ran, bind, Except.bind, ended, Bool.false_eq_true, if_false]
      rfl
  | error reject =>
    have kind := mismatch reject rfl
    have ran := run_of_gives declared gives
    refine .inr ⟨.locate text reject.cursor.offset, reject.reason.message, ?_⟩
    simp only [parseAll, ran, bind, Except.bind, rejection, kind]

end Parser

end Packrat
