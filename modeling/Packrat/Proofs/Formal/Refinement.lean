import Packrat.Notation.Shape
import Packrat.Proofs.Ambiguity
import Packrat.Proofs.Formal.Derivation
import Packrat.Proofs.Parsing
import Packrat.Proofs.Pattern.Steady
import Packrat.Proofs.Skipping

/-! # Rules refine parsing expressions

`Rule.formal?` reads a rule as a parsing expression, if it is one. Where nothing is ignored, a rule
takes what its expression takes from a text and refuses a text on which its expression fails
(`Formal.agrees`), so a parser accepts and rejects as derivations do
(`Parser.parse_refines_derivations`). The induction is on the derivation, because a rule may lead to
itself by its references.
-/

namespace Packrat

open Formal

/-- The expression of a terminal that is a literal or takes any one character. -/
def Terminal.formal? : Terminal → Option Expression
  | .listed _ => none
  | .inline _ (.literal text) caseless =>
      if text.isEmpty then none else some (.literal caseless text)
  | .inline _ (.pattern written) _ => if written.source = "(?s)." then some .any else none

namespace Rule

mutual

/-- The parsing expression that a rule stands for, if it is one. -/
def formal? : Rule → Option Expression
  | .endOfText => some (.absent .any)
  | .empty => some .empty
  | .terminal leaf => leaf.formal?
  | .sequence rules => formalSequence? rules
  | .ordered rules => formalOrdered? rules
  | .optional rule => return .choice (← rule.formal?) .empty
  | .repetition rule 0 none => return .star (← rule.formal?)
  | .repetition rule 1 none => do
      let body ← rule.formal?
      return .sequence body (.star body)
  | .absent rule => return .absent (← rule.formal?)
  | .ahead rule => return .absent (.absent (← rule.formal?))
  | .reference name => some (.name name)
  | .choice _ | .repetition .. | .veiled _ => none

/-- The expression of rules one after the other. -/
def formalSequence? : List Rule → Option Expression
  | [] => some .empty
  | rule :: more => return .sequence (← rule.formal?) (← formalSequence? more)

/-- The expression of rules that are tried in order. -/
def formalOrdered? : List Rule → Option Expression
  | [] => some .fail
  | rule :: more => return .choice (← rule.formal?) (← formalOrdered? more)

end

/-- The forms of rules that are parsing expressions, with their expressions. -/
private inductive Reads : Rule → Expression → Prop where
  | endOfText : Reads .endOfText (.absent .any)
  | empty : Reads .empty .empty
  | terminal {leaf : Terminal} {expression} (same : leaf.formal? = some expression) :
      Reads (.terminal leaf) expression
  | nil : Reads (.sequence []) .empty
  | cons {rule : Rule} {more first second} (head : rule.formal? = some first)
      (tail : (Rule.sequence more).formal? = some second) :
      Reads (.sequence (rule :: more)) (.sequence first second)
  | none : Reads (.ordered []) .fail
  | alternative {rule : Rule} {more first second} (head : rule.formal? = some first)
      (tail : (Rule.ordered more).formal? = some second) :
      Reads (.ordered (rule :: more)) (.choice first second)
  | optional {rule : Rule} {body} (inner : rule.formal? = some body) :
      Reads (.optional rule) (.choice body .empty)
  | zeroOrMore {rule : Rule} {body} (inner : rule.formal? = some body) :
      Reads (.repetition rule 0 none) (.star body)
  | oneOrMore {rule : Rule} {body} (inner : rule.formal? = some body) :
      Reads (.repetition rule 1 none) (.sequence body (.star body))
  | absent {rule : Rule} {body} (inner : rule.formal? = some body) :
      Reads (.absent rule) (.absent body)
  | ahead {rule : Rule} {body} (inner : rule.formal? = some body) :
      Reads (.ahead rule) (.absent (.absent body))
  | reference {name} : Reads (.reference name) (.name name)

private theorem reads_of_formal? {rule : Rule} {expression : Expression}
    (same : rule.formal? = some expression) : rule.Reads expression := by
  unfold formal? at same
  split at same
  · cases same
    exact .endOfText
  · cases same
    exact .empty
  · exact .terminal same
  · rename_i rules
    cases rules with
    | nil =>
      cases same
      exact .nil
    | cons rule more =>
      obtain ⟨first, head, same⟩ := Option.bind_eq_some_iff.mp same
      obtain ⟨second, tail, same⟩ := Option.bind_eq_some_iff.mp same
      cases same
      exact .cons head tail
  · rename_i rules
    cases rules with
    | nil =>
      cases same
      exact .none
    | cons rule more =>
      obtain ⟨first, head, same⟩ := Option.bind_eq_some_iff.mp same
      obtain ⟨second, tail, same⟩ := Option.bind_eq_some_iff.mp same
      cases same
      exact .alternative head tail
  · obtain ⟨body, inner, same⟩ := Option.bind_eq_some_iff.mp same
    cases same
    exact .optional inner
  · obtain ⟨body, inner, same⟩ := Option.bind_eq_some_iff.mp same
    cases same
    exact .zeroOrMore inner
  · obtain ⟨body, inner, same⟩ := Option.bind_eq_some_iff.mp same
    cases same
    exact .oneOrMore inner
  · obtain ⟨body, inner, same⟩ := Option.bind_eq_some_iff.mp same
    cases same
    exact .absent inner
  · obtain ⟨body, inner, same⟩ := Option.bind_eq_some_iff.mp same
    cases same
    exact .ahead inner
  · cases same
    exact .reference
  all_goals cases same

mutual

/-- A rule that is a parsing expression has no choice of exactly one alternative. -/
theorem choices_of_formal? : ∀ (rule : Rule) {expression : Expression},
    rule.formal? = some expression → rule.choices = []
  | .endOfText, _, _ | .empty, _, _ | .terminal _, _, _ | .reference _, _, _ => rfl
  | .sequence rules, _, same => allChoices_of_formalSequence? rules same
  | .ordered rules, _, same => allChoices_of_formalOrdered? rules same
  | .optional rule, _, same | .repetition rule 0 none, _, same
  | .repetition rule 1 none, _, same | .absent rule, _, same | .ahead rule, _, same => by
      obtain ⟨body, inner, -⟩ := Option.bind_eq_some_iff.mp same
      exact choices_of_formal? rule inner

private theorem allChoices_of_formalSequence? : ∀ (rules : List Rule) {expression : Expression},
    formalSequence? rules = some expression → allChoices rules = []
  | [], _, _ => rfl
  | rule :: more, _, same => by
      obtain ⟨first, head, same⟩ := Option.bind_eq_some_iff.mp same
      obtain ⟨second, tail, -⟩ := Option.bind_eq_some_iff.mp same
      rw [allChoices, choices_of_formal? rule head, allChoices_of_formalSequence? more tail,
        List.append_nil]

private theorem allChoices_of_formalOrdered? : ∀ (rules : List Rule) {expression : Expression},
    formalOrdered? rules = some expression → allChoices rules = []
  | [], _, _ => rfl
  | rule :: more, _, same => by
      obtain ⟨first, head, same⟩ := Option.bind_eq_some_iff.mp same
      obtain ⟨second, tail, -⟩ := Option.bind_eq_some_iff.mp same
      rw [allChoices, choices_of_formal? rule head, allChoices_of_formalOrdered? more tail,
        List.append_nil]

end

end Rule

/-- The expressions of the productions of a grammar. -/
def Grammar.meaning (grammar : Grammar) (name : String) : Option Expression :=
  (grammar.productions.find? name).bind Rule.formal?

/-- The productions of the grammar are parsing expressions, and it ignores nothing. -/
structure Grammar.Formal (grammar : Grammar) : Prop where
  expressible : ∀ name rule, grammar.productions.find? name = some rule → rule.formal?.isSome
  nothingIgnored : grammar.ignore = []

namespace Formal

variable {grammar : Grammar} {rule : Rule} {text : Text}

/-- A literal takes its first character and what the others take. -/
private theorem matchCount?_cons (caseless : Bool) (c d : Char) (expected rest : Text) :
    (LexRule.literal (c :: expected)).matchCount? caseless (d :: rest) =
      if (if caseless then LexRule.alike c d else c = d) then
        ((LexRule.literal expected).matchCount? caseless rest).map (· + 1)
      else none := by
  cases caseless with
  | true =>
    cases same : LexRule.alike c d with
    | true =>
      simp only [LexRule.matchCount?, LexRule.beginsAlike, same, Bool.true_and, if_true]
      split <;> rfl
    | false => simp [LexRule.matchCount?, LexRule.beginsAlike, same]
  | false =>
    by_cases same : c = d
    · simp only [LexRule.matchCount?, List.isPrefixOf, same, beq_self_eq_true, Bool.true_and,
        Bool.false_eq_true, if_false, decide_true, if_true]
      split <;> rfl
    · simp [LexRule.matchCount?, List.isPrefixOf, same]

/-- What a literal derives depends on whether the text begins with it. -/
theorem derives_literal {meaning : String → Option Expression} {caseless : Bool} {expected : Text}
    {result : Option Text} (derives : Derives meaning (.literal caseless expected) text result) :
    result = ((LexRule.literal expected).matchCount? caseless text).map text.drop := by
  induction expected generalizing text result with
  | nil =>
    cases derives
    cases caseless <;> rfl
  | cons c expected ih =>
    cases derives with
    | sequence front back =>
      cases front with
      | char accepted =>
        rw [matchCount?_cons, if_pos accepted, ih back, Option.map_map]
        rfl
    | broken front =>
      cases front with
      | other refused => rw [matchCount?_cons, if_neg (by simp [refused]), Option.map_none]
      | ended => cases caseless <;> rfl

/-- The pattern of any character takes one. -/
theorem matchCount?_any {written : Pattern} (any : written.source = "(?s).") (c : Char)
    (rest : Text) : written.matchCount? (c :: rest) = some 1 := by
  obtain rfl : written = .of "(?s)." := Pattern.ext_source any
  have regex : (Pattern.of "(?s).").regex = .seq (.look .textStart) (.chars .all) := by
    decide +kernel
  have steady : (Pattern.of "(?s).").steady [.all] = true := by decide +kernel
  have spells : (Pattern.of "(?s).").regex.Spells ([] ++ [c]) := by
    rw [regex]
    exact .seq .look (.chars (CharSet.contains_all c))
  exact Pattern.matchCount?_of_spells steady spells fun d _ =>
    ⟨.all, List.mem_singleton_self _, CharSet.contains_all d⟩

/-- Before the text the rule takes what leaves the rest, or it refuses the text. -/
abbrev Agrees (grammar : Grammar) (rule : Rule) (text : Text) : Option Text → Prop
  | some rest => grammar.Takes rule text rest fun _ => True
  | none => grammar.Refuses rule text

section Terminal

variable (nothing : grammar.ignore = []) {result : Option Text}

include nothing

/-- A terminal agrees with what its lexical rule takes, and it refuses the end. -/
private theorem agrees_inline {name : String} {lexical : LexRule} {caseless : Bool}
    (ended : text = [] → result = none)
    (taken : text ≠ [] → result = (lexical.matchCount? caseless text).map text.drop) :
    Agrees grammar (.terminal (.inline name lexical caseless)) text result := by
  have skips : Skips grammar.ignore [] text := nothing ▸ .of_nil text
  cases text with
  | nil =>
    obtain rfl := ended rfl
    exact skips.refuses_terminal rfl (.inl rfl)
  | cons c text =>
    obtain rfl := taken (List.cons_ne_nil c text)
    cases counted : lexical.matchCount? caseless (c :: text) with
    | none => exact skips.refuses_terminal rfl (.inr counted)
    | some count =>
      intro cursor left
      have here : (cursor.skip grammar.ignore).rest = c :: text := skips cursor left
      have matched : (Terminal.inline name lexical caseless).eval grammar.lexicon grammar.ignore
          cursor = .ok (Terminal.taken name (cursor.skip grammar.ignore) count) :=
        Terminal.eval_eq_ok_iff.mpr ⟨name, lexical, caseless, count, rfl, by simp [here],
          here ▸ counted, rfl⟩
      refine ⟨_, Grammar.gives_of_unfolds (matched ▸ Grammar.Unfolds.terminal), ?_, trivial⟩
      rw [Terminal.taken, Cursor.rest_forward, here]

theorem agrees_terminal {leaf : Terminal} {expression : Expression}
    (same : leaf.formal? = some expression)
    (derives : Derives grammar.meaning expression text result) :
    Agrees grammar (.terminal leaf) text result := by
  match leaf with
  | .listed _ => cases same
  | .inline name (.literal expected) caseless =>
    rw [Terminal.formal?] at same
    split at same
    · cases same
    · rename_i filled
      cases same
      refine agrees_inline nothing (fun ended => ?_) fun _ => derives_literal derives
      obtain ⟨c, others, rfl⟩ := List.exists_cons_of_ne_nil (by simpa using filled)
      rw [derives_literal derives, ended]
      cases caseless <;> rfl
  | .inline name (.pattern written) caseless =>
    rw [Terminal.formal?] at same
    split at same
    · rename_i any
      cases same
      cases derives with
      | @char _ c rest _ =>
        refine agrees_inline nothing nofun fun _ => ?_
        rw [LexRule.matchCount?, matchCount?_any any]
        rfl
      | other refused => cases refused
      | ended => exact agrees_inline nothing (fun _ => rfl) fun filled => absurd rfl filled
    · cases same

end Terminal

namespace Agrees

variable {rules : List Rule} {middle rest : Text} {result : Option Text}

theorem endOfText : Agrees grammar .endOfText [] (some []) := by
  intro cursor left
  have ended : Outcome.atEnd cursor = .ok ⟨cursor, .token (.eof cursor.offset)⟩ := by
    simp [Outcome.atEnd, Cursor.atEnd, left]
  exact ⟨_, Grammar.gives_of_unfolds (ended ▸ Grammar.Unfolds.endOfText), left, trivial⟩

theorem notEndOfText (c : Char) : Agrees grammar .endOfText (c :: text) none := by
  intro cursor left
  have more : Outcome.atEnd cursor = .error (.mismatch cursor (.inputLeft cursor.offset)) := by
    simp [Outcome.atEnd, Cursor.atEnd, left]
  exact ⟨_, Grammar.gives_of_unfolds (more ▸ Grammar.Unfolds.endOfText)⟩

theorem empty : Agrees grammar .empty text (some text) := by
  intro cursor left
  exact ⟨_, Grammar.gives_of_unfolds .empty, left, trivial⟩

theorem nil : Agrees grammar (.sequence []) text (some text) := by
  intro cursor left
  exact ⟨_, Grammar.gives_of_unfolds (.sequence .nil), left, trivial⟩

/-- A sequence goes on, where its first rule ends, with the sequence of the others. -/
theorem cons (here : Agrees grammar rule text (some middle))
    (more : Agrees grammar (.sequence rules) middle result) :
    Agrees grammar (.sequence (rule :: rules)) text result := by
  cases result with
  | none =>
    refine Grammar.refuses_sequence (.tail here fun cursor left => ?_)
    obtain ⟨reject, gives⟩ := more cursor left
    generalize same : Except.error reject = outcome at gives
    cases Grammar.gives_iff.mp gives with
    | @sequence _ _ result members =>
      cases result with
      | error reject => exact ⟨reject, members⟩
      | ok pair => cases same
  | some rest =>
    refine Grammar.takes_sequence (.cons here fun _ _ cursor left => ?_)
    obtain ⟨found, gives, after, -⟩ := more cursor left
    generalize same : Except.ok found = outcome at gives
    cases Grammar.gives_iff.mp gives with
    | @sequence _ _ result members =>
      cases result with
      | error reject => cases same
      | ok pair =>
        cases same
        exact ⟨pair.1, pair.2, members, after, trivial⟩

theorem head (here : Agrees grammar rule text none) :
    Agrees grammar (.sequence (rule :: rules)) text none :=
  Grammar.refuses_sequence (.head here)

theorem preferred (here : Agrees grammar rule text (some rest)) :
    Agrees grammar (.ordered (rule :: rules)) text (some rest) :=
  Grammar.takes_ordered_head here

theorem noAlternative : Agrees grammar (.ordered []) text none := by
  intro cursor left
  exact ⟨_, Grammar.gives_of_unfolds (.ordered .nil)⟩

/-- Which ambiguity was found before does not decide whether alternatives fail. -/
private theorem tried_again {cursor : Cursor} {ambiguity : Option Reject} {outcome : Outcome}
    (tried : Tried grammar.Gives cursor rules ambiguity outcome) {reject : Reject}
    (failed : outcome = .error reject) (other : Option Reject) :
    ∃ reject', Tried grammar.Gives cursor rules other (.error reject') := by
  induction tried generalizing other with
  | nil => exact ⟨_, .nil⟩
  | found => cases failed
  | next here _ ih =>
    obtain ⟨reject', tried⟩ := ih failed _
    exact ⟨reject', .next here tried⟩

/-- Where the first alternative fails, an ordered choice is that of the others. -/
theorem otherwise (fails : Agrees grammar rule text none)
    (more : Agrees grammar (.ordered rules) text result) :
    Agrees grammar (.ordered (rule :: rules)) text result := by
  cases result with
  | some rest => exact Grammar.takes_ordered_tail fails more
  | none =>
    intro cursor left
    obtain ⟨reject, rejects⟩ := fails cursor left
    obtain ⟨reject', gives⟩ := more cursor left
    cases Grammar.gives_iff.mp gives with
    | ordered tried =>
      obtain ⟨reject', tried⟩ := tried_again tried rfl _
      exact ⟨reject', Grammar.gives_of_unfolds (.ordered (.next rejects tried))⟩

theorem optional (here : Agrees grammar rule text (some rest)) :
    Agrees grammar (.optional rule) text (some rest) :=
  Grammar.takes_optional here

theorem without (fails : Agrees grammar rule text none) :
    Agrees grammar (.optional rule) text (some text) :=
  Grammar.takes_without fails fun _ => trivial

theorem zeroOrMore (rounds : grammar.TakesRounds rule text rest fun _ => True) :
    Agrees grammar (.repetition rule 0 none) text (some rest) :=
  Grammar.takes_repetition (rounds.mono fun _ _ => ⟨Nat.zero_le _, trivial⟩)

theorem oneOrMore (here : Agrees grammar rule text (some middle))
    (shorter : middle.length < text.length)
    (rounds : grammar.TakesRounds rule middle rest fun _ => True) :
    Agrees grammar (.repetition rule 1 none) text (some rest) := by
  refine Grammar.takes_repetition (.next here shorter fun node _ => ?_)
  exact rounds.mono fun nodes _ => ⟨by simp, trivial⟩

/-- A repetition that asks for a round fails where none begins. -/
theorem notOne (fails : Agrees grammar rule text none) :
    Agrees grammar (.repetition rule 1 none) text none := by
  intro cursor left
  obtain ⟨reject, gives⟩ := fails cursor left
  have rounds : Repeated (grammar.Gives rule) 1 none (cursor.rest.length + 1) [] cursor
      ⟨[], cursor, some reject⟩ := .reject (by simp) gives
  exact ⟨reject, Grammar.gives_of_unfolds (.repetition rounds)⟩

theorem present (here : Agrees grammar rule text (some rest)) :
    Agrees grammar (.absent rule) text none :=
  Grammar.refuses_absent here

theorem absent (fails : Agrees grammar rule text none) :
    Agrees grammar (.absent rule) text (some text) :=
  Grammar.takes_absent fails fun _ => trivial

/-- A lookahead holds where the absence of its rule does not. -/
theorem ahead (fails : Agrees grammar (.absent rule) text none) :
    Agrees grammar (.ahead rule) text (some text) := by
  intro cursor left
  obtain ⟨reject, gives⟩ := fails cursor left
  generalize same : Except.error reject = outcome at gives
  cases Grammar.gives_iff.mp gives with
  | @absent _ _ inner inside =>
    cases inner with
    | error reject => cases same
    | ok found => exact ⟨_, Grammar.gives_of_unfolds (.ahead inside), left, trivial⟩

/-- A lookahead fails where the absence of its rule holds. -/
theorem notAhead (here : Agrees grammar (.absent rule) text (some rest)) :
    Agrees grammar (.ahead rule) text none := by
  intro cursor left
  obtain ⟨found, gives, -⟩ := here cursor left
  generalize same : Except.ok found = outcome at gives
  cases Grammar.gives_iff.mp gives with
  | @absent _ _ inner inside =>
    cases inner with
    | error reject => exact ⟨_, Grammar.gives_of_unfolds (.ahead inside)⟩
    | ok found => cases same

theorem reference {name : String} (declared : grammar.productions.find? name = some rule)
    (here : Agrees grammar rule text result) : Agrees grammar (.reference name) text result := by
  cases result with
  | some rest => exact Grammar.takes_reference declared here
  | none => exact Grammar.refuses_reference declared here

end Agrees

/-- The rounds of the repetition of a rule, for every rule that stands for the repeated
expression. -/
private def Rounds (grammar : Grammar) (expression : Expression) (text : Text)
    (result : Option Text) : Prop :=
  ∀ body rule, expression = .star body → rule.formal? = some body →
    ∃ rest, result = some rest ∧ grammar.TakesRounds rule text rest fun _ => True

private theorem agrees_and_rounds (nothing : grammar.ignore = []) {expression : Expression}
    {result : Option Text} (derives : Derives grammar.meaning expression text result) :
    (∀ rule : Rule, rule.formal? = some expression → Agrees grammar rule text result) ∧
      Rounds grammar expression text result := by
  have leaf {leaf : Terminal} {expression : Expression} {text : Text} {result : Option Text}
      (derives : Derives grammar.meaning expression text result)
      (same : leaf.formal? = some expression) : Agrees grammar (.terminal leaf) text result :=
    agrees_terminal nothing same derives
  induction derives with
  | empty =>
    refine ⟨fun rule same => ?_, nofun⟩
    cases Rule.reads_of_formal? same with
    | terminal same => exact leaf .empty same
    | empty => exact .empty
    | nil => exact .nil
  | char accepted =>
    refine ⟨fun rule same => ?_, nofun⟩
    cases Rule.reads_of_formal? same with
    | terminal same => exact leaf (.char accepted) same
  | other refused =>
    refine ⟨fun rule same => ?_, nofun⟩
    cases Rule.reads_of_formal? same with
    | terminal same => exact leaf (.other refused) same
  | ended =>
    refine ⟨fun rule same => ?_, nofun⟩
    cases Rule.reads_of_formal? same with
    | terminal same => exact leaf .ended same
  | name defined applied ih =>
    refine ⟨fun rule same => ?_, nofun⟩
    cases Rule.reads_of_formal? same with
    | terminal same => exact leaf (.name defined applied) same
    | reference =>
      obtain ⟨rule, declared, read⟩ := Option.bind_eq_some_iff.mp defined
      exact .reference declared (ih.1 rule read)
  | sequence front back ih ih' =>
    refine ⟨fun rule same => ?_, nofun⟩
    cases Rule.reads_of_formal? same with
    | terminal same => exact leaf (.sequence front back) same
    | cons head tail => exact .cons (ih.1 _ head) (ih'.1 _ tail)
    | oneOrMore inner =>
      obtain ⟨rest, rfl, rounds⟩ := ih'.2 _ _ rfl inner
      exact .oneOrMore (ih.1 _ inner) (front.length_lt_of_star back) rounds
  | broken front ih =>
    refine ⟨fun rule same => ?_, nofun⟩
    cases Rule.reads_of_formal? same with
    | terminal same => exact leaf (.broken front) same
    | cons head tail => exact .head (ih.1 _ head)
    | oneOrMore inner => exact .notOne (ih.1 _ inner)
  | preferred here ih =>
    refine ⟨fun rule same => ?_, nofun⟩
    cases Rule.reads_of_formal? same with
    | terminal same => exact leaf (.preferred here) same
    | alternative head tail => exact .preferred (ih.1 _ head)
    | optional inner => exact .optional (ih.1 _ inner)
  | otherwise fails here ih ih' =>
    refine ⟨fun rule same => ?_, nofun⟩
    cases Rule.reads_of_formal? same with
    | terminal same => exact leaf (.otherwise fails here) same
    | alternative head tail => exact .otherwise (ih.1 _ head) (ih'.1 _ tail)
    | optional inner =>
      cases here
      exact .without (ih.1 _ inner)
  | @more body text middle result here further ih ih' =>
    have rounds : Rounds grammar (.star body) text result := by
      rintro _ rule ⟨⟩ inner
      obtain ⟨rest, rfl, rounds⟩ := ih'.2 _ rule rfl inner
      exact ⟨rest, rfl, .next (ih.1 rule inner) (here.length_lt_of_star further) fun _ _ => rounds⟩
    refine ⟨fun rule same => ?_, rounds⟩
    cases Rule.reads_of_formal? same with
    | terminal same => exact leaf (.more here further) same
    | zeroOrMore inner =>
      obtain ⟨rest, rfl, taken⟩ := rounds _ _ rfl inner
      exact .zeroOrMore taken
  | @stop body text fails ih =>
    have rounds : Rounds grammar (.star body) text (some text) := by
      rintro _ rule ⟨⟩ inner
      exact ⟨text, rfl, .done (ih.1 rule inner) trivial⟩
    refine ⟨fun rule same => ?_, rounds⟩
    cases Rule.reads_of_formal? same with
    | terminal same => exact leaf (.stop fails) same
    | zeroOrMore inner =>
      obtain ⟨rest, same, taken⟩ := rounds _ _ rfl inner
      cases same
      exact .zeroOrMore taken
  | present here ih =>
    refine ⟨fun rule same => ?_, nofun⟩
    cases Rule.reads_of_formal? same with
    | terminal same => exact leaf (.present here) same
    | endOfText =>
      cases here with
      | @char _ c rest => exact .notEndOfText c
    | none => exact .noAlternative
    | absent inner => exact .present (ih.1 _ inner)
    | @ahead rule body inner =>
      have read : (Rule.absent rule).formal? = some (.absent body) := by
        rw [Rule.formal?, inner]
        rfl
      exact .notAhead (ih.1 _ read)
  | absent fails ih =>
    refine ⟨fun rule same => ?_, nofun⟩
    cases Rule.reads_of_formal? same with
    | terminal same => exact leaf (.absent fails) same
    | endOfText =>
      cases fails with
      | other refused => cases refused
      | ended => exact .endOfText
    | none => cases fails
    | absent inner => exact .absent (ih.1 _ inner)
    | @ahead rule body inner =>
      have read : (Rule.absent rule).formal? = some (.absent body) := by
        rw [Rule.formal?, inner]
        rfl
      exact .ahead (ih.1 _ read)

/-- A rule takes and refuses what its expression does. -/
theorem agrees (nothing : grammar.ignore = []) {expression : Expression} {result : Option Text}
    (read : rule.formal? = some expression)
    (derives : Derives grammar.meaning expression text result) :
    Agrees grammar rule text result :=
  (agrees_and_rounds nothing derives).1 rule read

end Formal

theorem Grammar.Formal.choicesExclusive {grammar : Grammar} (formal : grammar.Formal) :
    grammar.ChoicesExclusive := by
  intro name rule declared rules member
  obtain ⟨expression, read⟩ := Option.isSome_iff_exists.mp (formal.expressible name rule declared)
  rw [Rule.choices_of_formal? rule read] at member
  cases member

namespace Parser

/-- A parser refines the meaning of its grammar. Where the expression of a production succeeds on
a text and leaves a rest, the parser gives a tree, and the match ends after the bytes of what comes
before the rest; where it fails, the parser rejects the text. -/
theorem parse_refines_derivations (parser : Parser) (formal : parser.grammar.Formal)
    (production : String) (text : Text) :
    (∀ rest, Derives parser.grammar.meaning (.name production) text (some rest) →
      ∃ consumed found, text = consumed ++ rest ∧ parser.run production text = .ok found ∧
        parser.parse production text = .ok found.node ∧
        found.cursor.offset = consumed.byteLength) ∧
      (Derives parser.grammar.meaning (.name production) text none →
        ∃ position message,
          parser.parse production text = .error (.rejected production position message)) := by
  have declared {result : Option Text}
      (derives : Derives parser.grammar.meaning (.name production) text result) :
      ∃ rule, parser.grammar.productions.find? production = some rule ∧
        Agrees parser.grammar rule text result := by
    cases derives with
    | name defined applied =>
      obtain ⟨rule, declared, read⟩ := Option.bind_eq_some_iff.mp defined
      exact ⟨rule, declared, agrees formal.nothingIgnored read applied⟩
  constructor
  · intro rest derives
    obtain ⟨rule, declared, takes⟩ := declared derives
    obtain ⟨found, gives, after, -⟩ := takes (.start text) rfl
    have ran : parser.run production text = .ok found := run_of_gives declared gives
    obtain ⟨count, place⟩ := Grammar.eval_after gives
    refine ⟨text.take count, found, ?_, ran, by rw [parse, ran]; rfl, ?_⟩
    · rw [← after, ← place]
      exact (List.take_append_drop count text).symm
    · rw [← place]
      simp [Cursor.forward, Cursor.start]
  · intro derives
    obtain ⟨rule, declared, refuses⟩ := declared derives
    obtain ⟨reject, gives⟩ := refuses (.start text) rfl
    have kind : reject.kind = .mismatch := by
      refine Grammar.mismatch_of_exclusive formal.choicesExclusive ?_ gives
      exact formal.choicesExclusive production rule declared
    have ran := run_of_gives declared gives
    exact ⟨.locate text reject.cursor.offset, reject.reason.message, by
      simp only [parse, ran, rejection, kind]
      rfl⟩

/-- A production that leads to itself behind a lookahead stops before the `b`, and the one that
asks for it fails at the end of the text. -/
theorem parse_refines_derivations_behind_lookahead :
    let run : Rule := .ordered
      [.sequence [.ahead (.text "a"), .anyChar, .reference "run"], .empty]
    let pair : Rule := .sequence [.reference "run", .text "b"]
    let parser : Parser := ⟨.ofList [("run", run), ("pair", pair)], .empty, []⟩
    parser.grammar.Formal ∧
      (∃ found, parser.run "run" ['a', 'a', 'b'] = .ok found ∧ found.cursor.offset = 2) ∧
      ∃ position message,
        parser.parse "pair" ['a', 'a'] = .error (.rejected "pair" position message) := by
  intro run pair parser
  have formal : parser.grammar.Formal := by
    refine ⟨fun name rule declared => ?_, rfl⟩
    have member := Table.mem_of_find?_ofList declared
    simp only [List.mem_cons, Prod.mk.injEq, List.not_mem_nil, or_false] at member
    rcases member with ⟨-, rfl⟩ | ⟨-, rfl⟩
    · rfl
    · rfl
  have known : parser.grammar.meaning "run" = some (.choice
      (.sequence (.absent (.absent (.literal false ['a'])))
        (.sequence .any (.sequence (.name "run") .empty)))
      (.choice .empty .fail)) :=
    congrArg (Option.bind · Rule.formal?) (Table.find?_ofList _ "run")
  have known' : parser.grammar.meaning "pair" = some
      (.sequence (.name "run") (.sequence (.literal false ['b']) .empty)) :=
    congrArg (Option.bind · Rule.formal?) (Table.find?_ofList _ "pair")
  have letter (rest : Text) :
      Derives parser.grammar.meaning (.literal false ['a']) ('a' :: rest) (some rest) :=
    .sequence (.char rfl) .empty
  have any (c : Char) (rest : Text) :
      Derives parser.grammar.meaning .any (c :: rest) (some rest) := .char rfl
  have once {rest last : Text}
      (further : Derives parser.grammar.meaning (.name "run") rest (some last)) :
      Derives parser.grammar.meaning (.name "run") ('a' :: rest) (some last) :=
    .name known (.preferred (.sequence (.absent (.present (letter rest)))
      (.sequence (any 'a' rest) (.sequence further .empty))))
  have stop {text : Text}
      (fails : Derives parser.grammar.meaning (.literal false ['a']) text none) :
      Derives parser.grammar.meaning (.name "run") text (some text) :=
    .name known (.otherwise (.broken (.present (.absent fails))) (.preferred .empty))
  refine ⟨formal, ?_, ?_⟩
  · obtain ⟨consumed, found, text, ran, -, offset⟩ :=
      (parse_refines_derivations parser formal "run" ['a', 'a', 'b']).1 ['b']
        (once (once (stop (.broken (.other rfl)))))
    obtain rfl : consumed = ['a', 'a'] := List.append_cancel_right (text.symm)
    exact ⟨found, ran, offset⟩
  · refine (parse_refines_derivations parser formal "pair" ['a', 'a']).2 ?_
    exact .name known'
      (.sequence (once (once (stop (.broken .ended)))) (.broken (.broken .ended)))

end Parser

end Packrat
