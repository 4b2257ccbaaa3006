import Packrat.Proofs.Depth

/-! # Evaluation as a relation

`Grammar.Unfolds` says for every kind of rule how its outcome at a cursor comes from outcomes of
its parts. The outcomes that evaluation gives are exactly those that unfold into such outcomes
(`Grammar.eval_iff`), and whatever is kept by unfolding holds of all of them
(`Grammar.eval_induct`).
-/

namespace Packrat

/-- Rules that hold one after the other, each where the one before ends. -/
inductive Sequenced (holds : Rule → Cursor → Outcome → Prop) :
    List Rule → Cursor → Except Reject (List Tree × Cursor) → Prop where
  | nil {cursor} : Sequenced holds [] cursor (.ok ([], cursor))
  | reject {rule more cursor reject} (here : holds rule cursor (.error reject)) :
      Sequenced holds (rule :: more) cursor (.error reject)
  | next {rule more cursor found result} (here : holds rule cursor (.ok found))
      (rest : Sequenced holds more found.cursor result) :
      Sequenced holds (rule :: more) cursor
        (result.map fun (nodes, next) => (found.node :: nodes, next))

/-- Rules that are tried at one cursor until one matches. -/
inductive Tried (holds : Rule → Cursor → Outcome → Prop) (cursor : Cursor) :
    List Rule → Option Reject → Outcome → Prop where
  | nil {ambiguity} : Tried holds cursor [] ambiguity (.error (.noAlternative cursor ambiguity))
  | found {rule more ambiguity found} (here : holds rule cursor (.ok found)) :
      Tried holds cursor (rule :: more) ambiguity (.ok found)
  | next {rule more ambiguity reject outcome} (here : holds rule cursor (.error reject))
      (rest : Tried holds cursor more
        (ambiguity.or (if reject.isAmbiguous then some reject else none)) outcome) :
      Tried holds cursor (rule :: more) ambiguity outcome

/-- Rounds of a rule that holds again where the round before ends. -/
inductive Repeated (holds : Cursor → Outcome → Prop) (min : Nat) (max : Option Nat) :
    Nat → List Tree → Cursor → Rounds → Prop where
  | spent {nodes cursor} : Repeated holds min max 0 nodes cursor ⟨nodes, cursor, none⟩
  | full {fuel nodes cursor} (enough : max.any (· ≤ nodes.length) = true) :
      Repeated holds min max (fuel + 1) nodes cursor ⟨nodes, cursor, none⟩
  | reject {fuel nodes cursor reject} (room : ¬ max.any (· ≤ nodes.length) = true)
      (here : holds cursor (.error reject)) :
      Repeated holds min max (fuel + 1) nodes cursor ⟨nodes, cursor, some reject⟩
  | next {fuel nodes cursor found rounds} (room : ¬ max.any (· ≤ nodes.length) = true)
      (here : holds cursor (.ok found)) (shorter : found.cursor.rest.length < cursor.rest.length)
      (rest : Repeated holds min max fuel (found.node :: nodes) found.cursor rounds) :
      Repeated holds min max (fuel + 1) nodes cursor rounds
  | still {fuel nodes cursor found} (room : ¬ max.any (· ≤ nodes.length) = true)
      (here : holds cursor (.ok found)) (same : ¬ found.cursor.rest.length < cursor.rest.length) :
      Repeated holds min max (fuel + 1) nodes cursor
        ⟨List.replicate (Nat.max (min - nodes.length) 1) found.node ++ nodes, found.cursor, none⟩

namespace Grammar

/-- How the outcome of a rule comes from outcomes that hold of its parts. -/
inductive Unfolds (grammar : Grammar) (holds : Rule → Cursor → Outcome → Prop) :
    Rule → Cursor → Outcome → Prop where
  | endOfText {cursor} : Unfolds grammar holds .endOfText cursor (.atEnd cursor)
  | empty {cursor} : Unfolds grammar holds .empty cursor (.ok (.emptyAt cursor))
  | terminal {leaf cursor} : Unfolds grammar holds (.terminal leaf) cursor
      (leaf.eval grammar.lexicon grammar.ignore cursor)
  | sequence {rules cursor result} (members : Sequenced holds rules cursor result) :
      Unfolds grammar holds (.sequence rules) cursor
        (result.map fun (nodes, next) => ⟨next, .array nodes⟩)
  | choice {rules cursor outcomes}
      (all : List.Forall₂ (fun rule outcome => holds rule cursor outcome) rules outcomes) :
      Unfolds grammar holds (.choice rules) cursor (.unique cursor rules outcomes)
  | ordered {rules cursor outcome} (tried : Tried holds cursor rules none outcome) :
      Unfolds grammar holds (.ordered rules) cursor outcome
  | optional {rule cursor outcome} (here : holds rule cursor outcome) :
      Unfolds grammar holds (.optional rule) cursor (.orEmpty cursor outcome)
  | repetition {rule min max cursor rounds}
      (repeated : Repeated (holds rule) min max (cursor.rest.length + 1) [] cursor rounds) :
      Unfolds grammar holds (.repetition rule min max) cursor (rounds.outcome cursor rule min)
  | absent {rule cursor outcome} (here : holds rule cursor outcome) :
      Unfolds grammar holds (.absent rule) cursor (.absent cursor outcome)
  | ahead {rule cursor outcome} (here : holds rule cursor outcome) :
      Unfolds grammar holds (.ahead rule) cursor (.ahead cursor outcome)
  | missing {name cursor} (missing : grammar.productions.find? name = none) :
      Unfolds grammar holds (.reference name) cursor (.named name cursor none)
  | reference {name rule cursor outcome} (found : grammar.productions.find? name = some rule)
      (here : holds rule cursor outcome) :
      Unfolds grammar holds (.reference name) cursor (.named name cursor (some outcome))
  | veiled {rule cursor outcome} (here : holds rule cursor outcome) :
      Unfolds grammar holds (.veiled rule) cursor outcome

end Grammar

section Mono

variable {holds holds' : Rule → Cursor → Outcome → Prop}
  (weaker : ∀ rule cursor outcome, holds rule cursor outcome → holds' rule cursor outcome)

include weaker

theorem Sequenced.mono {rules : List Rule} {cursor : Cursor}
    {result : Except Reject (List Tree × Cursor)} (sequenced : Sequenced holds rules cursor result) :
    Sequenced holds' rules cursor result := by
  induction sequenced with
  | nil => exact .nil
  | reject here => exact .reject (weaker _ _ _ here)
  | next here _ ih => exact .next (weaker _ _ _ here) ih

theorem Tried.mono {cursor : Cursor} {rules : List Rule} {ambiguity : Option Reject}
    {outcome : Outcome} (tried : Tried holds cursor rules ambiguity outcome) :
    Tried holds' cursor rules ambiguity outcome := by
  induction tried with
  | nil => exact .nil
  | found here => exact .found (weaker _ _ _ here)
  | next here _ ih => exact .next (weaker _ _ _ here) ih

theorem Repeated.mono {rule : Rule} {min fuel : Nat} {max : Option Nat} {nodes : List Tree}
    {cursor : Cursor} {rounds : Rounds}
    (repeated : Repeated (holds rule) min max fuel nodes cursor rounds) :
    Repeated (holds' rule) min max fuel nodes cursor rounds := by
  induction repeated with
  | spent => exact .spent
  | full enough => exact .full enough
  | reject room here => exact .reject room (weaker _ _ _ here)
  | next room here shorter _ ih => exact .next room (weaker _ _ _ here) shorter ih
  | still room here same => exact .still room (weaker _ _ _ here) same

theorem Grammar.Unfolds.mono {grammar : Grammar} {rule : Rule} {cursor : Cursor}
    {outcome : Outcome} (unfolds : grammar.Unfolds holds rule cursor outcome) :
    grammar.Unfolds holds' rule cursor outcome := by
  cases unfolds with
  | endOfText => exact .endOfText
  | empty => exact .empty
  | terminal => exact .terminal
  | sequence members => exact .sequence (members.mono weaker)
  | choice all => exact .choice (all.imp fun _ _ => weaker _ _ _)
  | ordered tried => exact .ordered (tried.mono weaker)
  | optional here => exact .optional (weaker _ _ _ here)
  | repetition repeated => exact .repetition (repeated.mono weaker)
  | absent here => exact .absent (weaker _ _ _ here)
  | ahead here => exact .ahead (weaker _ _ _ here)
  | missing missing => exact .missing missing
  | reference found here => exact .reference found (weaker _ _ _ here)
  | veiled here => exact .veiled (weaker _ _ _ here)

end Mono

section Closed

variable {grammar : Grammar} {apply : String → Cursor → Option (Option Outcome)}
  {holds : Rule → Cursor → Outcome → Prop}
  (closed : ∀ rule cursor outcome, grammar.Unfolds holds rule cursor outcome →
    holds rule cursor outcome)
  (applied : ∀ name cursor result, apply name cursor = some result → match result with
    | none => grammar.productions.find? name = none
    | some outcome =>
        ∃ rule, grammar.productions.find? name = some rule ∧ holds rule cursor outcome)

private theorem repeated_of_read {parse : Cursor → Option Outcome}
    {holds : Cursor → Outcome → Prop}
    (parsed : ∀ cursor outcome, parse cursor = some outcome → holds cursor outcome)
    {min fuel : Nat} {max : Option Nat} {nodes : List Tree} {cursor : Cursor} {rounds : Rounds}
    (ended : Rounds.read parse min max fuel nodes cursor = some rounds) :
    Repeated holds min max fuel nodes cursor rounds := by
  induction fuel generalizing nodes cursor with
  | zero =>
    cases ended
    exact .spent
  | succ fuel ih =>
    rw [Rounds.read] at ended
    split at ended
    · rename_i enough
      cases ended
      exact .full enough
    · rename_i room
      obtain ⟨outcome, parsing, ended⟩ := Option.bind_eq_some_iff.mp ended
      have here := parsed cursor outcome parsing
      cases outcome with
      | error reject =>
        cases ended
        exact .reject room here
      | ok found =>
        dsimp only at ended
        split at ended
        · rename_i shorter
          exact .next room here shorter (ih ended)
        · rename_i same
          cases ended
          exact .still room here same

include closed applied

set_option linter.unusedSectionVars false

mutual

/-- What unfolding keeps holds of every outcome, if it does of those of productions. -/
private theorem holds_of_eval : ∀ (rule : Rule) (cursor : Cursor) (outcome : Outcome),
    rule.eval ⟨grammar.lexicon, grammar.ignore, apply⟩ cursor = some outcome →
      holds rule cursor outcome
  | .endOfText, cursor, outcome, ended => by
      cases ended
      exact closed _ _ _ .endOfText
  | .empty, cursor, outcome, ended => by
      cases ended
      exact closed _ _ _ .empty
  | .terminal leaf, cursor, outcome, ended => by
      cases ended
      exact closed _ _ _ .terminal
  | .sequence rules, cursor, outcome, ended => by
      obtain ⟨result, evaluated, ended⟩ := Option.bind_eq_some_iff.mp ended
      cases ended
      exact closed _ _ _ (.sequence (sequenced_of_eval rules cursor result evaluated))
  | .choice rules, cursor, outcome, ended => by
      obtain ⟨outcomes, evaluated, ended⟩ := Option.bind_eq_some_iff.mp ended
      cases ended
      exact closed _ _ _ (.choice (all_of_eval rules cursor outcomes evaluated))
  | .ordered rules, cursor, outcome, ended =>
      closed _ _ _ (.ordered (tried_of_eval rules cursor none outcome ended))
  | .optional rule, cursor, outcome, ended => by
      obtain ⟨inner, evaluated, ended⟩ := Option.bind_eq_some_iff.mp ended
      cases ended
      exact closed _ _ _ (.optional (holds_of_eval rule cursor inner evaluated))
  | .repetition rule min max, cursor, outcome, ended => by
      obtain ⟨rounds, evaluated, ended⟩ := Option.bind_eq_some_iff.mp ended
      cases ended
      exact closed _ _ _ (.repetition (repeated_of_read (holds_of_eval rule) evaluated))
  | .absent rule, cursor, outcome, ended => by
      obtain ⟨inner, evaluated, ended⟩ := Option.bind_eq_some_iff.mp ended
      cases ended
      exact closed _ _ _ (.absent (holds_of_eval rule cursor inner evaluated))
  | .ahead rule, cursor, outcome, ended => by
      obtain ⟨inner, evaluated, ended⟩ := Option.bind_eq_some_iff.mp ended
      cases ended
      exact closed _ _ _ (.ahead (holds_of_eval rule cursor inner evaluated))
  | .reference name, cursor, outcome, ended => by
      obtain ⟨result, application, ended⟩ := Option.bind_eq_some_iff.mp ended
      cases ended
      have known := applied name cursor result application
      cases result with
      | none => exact closed _ _ _ (.missing known)
      | some inner =>
        obtain ⟨rule, found, here⟩ := known
        exact closed _ _ _ (.reference found here)
  | .veiled rule, cursor, outcome, ended =>
      closed _ _ _ (.veiled (holds_of_eval rule cursor outcome ended))

private theorem sequenced_of_eval : ∀ (rules : List Rule) (cursor : Cursor)
    (result : Except Reject (List Tree × Cursor)),
    Rule.evalSequence ⟨grammar.lexicon, grammar.ignore, apply⟩ rules cursor = some result →
      Sequenced holds rules cursor result
  | [], cursor, result, ended => by
      cases ended
      exact .nil
  | rule :: more, cursor, result, ended => by
      obtain ⟨outcome, evaluated, ended⟩ := Option.bind_eq_some_iff.mp ended
      have here := holds_of_eval rule cursor outcome evaluated
      cases outcome with
      | error reject =>
        cases ended
        exact .reject here
      | ok found =>
        obtain ⟨rest, evaluated, ended⟩ := Option.bind_eq_some_iff.mp ended
        cases ended
        exact .next here (sequenced_of_eval more found.cursor rest evaluated)

private theorem all_of_eval : ∀ (rules : List Rule) (cursor : Cursor) (outcomes : List Outcome),
    Rule.evalAll ⟨grammar.lexicon, grammar.ignore, apply⟩ rules cursor = some outcomes →
      List.Forall₂ (fun rule outcome => holds rule cursor outcome) rules outcomes
  | [], cursor, outcomes, ended => by
      cases ended
      exact .nil
  | rule :: more, cursor, outcomes, ended => by
      obtain ⟨outcome, evaluated, ended⟩ := Option.bind_eq_some_iff.mp ended
      obtain ⟨rest, others, ended⟩ := Option.bind_eq_some_iff.mp ended
      cases ended
      exact .cons (holds_of_eval rule cursor outcome evaluated)
        (all_of_eval more cursor rest others)

private theorem tried_of_eval : ∀ (rules : List Rule) (cursor : Cursor)
    (ambiguity : Option Reject) (outcome : Outcome),
    Rule.evalOrdered ⟨grammar.lexicon, grammar.ignore, apply⟩ rules cursor ambiguity =
        some outcome →
      Tried holds cursor rules ambiguity outcome
  | [], cursor, ambiguity, outcome, ended => by
      cases ended
      exact .nil
  | rule :: more, cursor, ambiguity, outcome, ended => by
      obtain ⟨inner, evaluated, ended⟩ := Option.bind_eq_some_iff.mp ended
      have here := holds_of_eval rule cursor inner evaluated
      cases inner with
      | error reject => exact .next here (tried_of_eval more cursor _ outcome ended)
      | ok found =>
        cases ended
        exact .found here

end

end Closed

namespace Grammar

variable {grammar : Grammar}

/-- The rule gives the outcome at the cursor. -/
def Gives (grammar : Grammar) (rule : Rule) (cursor : Cursor) (outcome : Outcome) : Prop :=
  rule.eval grammar.direct cursor = some outcome

private theorem evalSequence_of_sequenced {rules : List Rule} {cursor : Cursor}
    {result : Except Reject (List Tree × Cursor)}
    (sequenced : Sequenced grammar.Gives rules cursor result) :
    Rule.evalSequence grammar.direct rules cursor = some result := by
  induction sequenced with
  | nil => rfl
  | reject here => exact Option.bind_eq_some_iff.mpr ⟨_, here, rfl⟩
  | next here _ ih =>
    exact Option.bind_eq_some_iff.mpr ⟨_, here, Option.bind_eq_some_iff.mpr ⟨_, ih, rfl⟩⟩

private theorem evalAll_of_all {rules : List Rule} {cursor : Cursor} {outcomes : List Outcome}
    (all : List.Forall₂ (fun rule outcome => grammar.Gives rule cursor outcome) rules outcomes) :
    Rule.evalAll grammar.direct rules cursor = some outcomes := by
  induction all with
  | nil => rfl
  | cons here _ ih =>
    exact Option.bind_eq_some_iff.mpr ⟨_, here, Option.bind_eq_some_iff.mpr ⟨_, ih, rfl⟩⟩

private theorem evalOrdered_of_tried {cursor : Cursor} {rules : List Rule}
    {ambiguity : Option Reject} {outcome : Outcome}
    (tried : Tried grammar.Gives cursor rules ambiguity outcome) :
    Rule.evalOrdered grammar.direct rules cursor ambiguity = some outcome := by
  induction tried with
  | nil => rfl
  | found here => exact Option.bind_eq_some_iff.mpr ⟨_, here, rfl⟩
  | next here _ ih => exact Option.bind_eq_some_iff.mpr ⟨_, here, ih⟩

private theorem read_of_repeated {rule : Rule} {min fuel : Nat} {max : Option Nat}
    {nodes : List Tree} {cursor : Cursor} {rounds : Rounds}
    (repeated : Repeated (grammar.Gives rule) min max fuel nodes cursor rounds) :
    Rounds.read (rule.eval grammar.direct) min max fuel nodes cursor = some rounds := by
  induction repeated with
  | spent => rfl
  | full enough =>
    rw [Rounds.read, if_pos enough]
    rfl
  | reject room here =>
    rw [Rounds.read, if_neg room]
    exact Option.bind_eq_some_iff.mpr ⟨_, here, rfl⟩
  | next room here shorter _ ih =>
    rw [Rounds.read, if_neg room]
    refine Option.bind_eq_some_iff.mpr ⟨_, here, ?_⟩
    dsimp only
    rw [if_pos shorter]
    exact ih
  | still room here same =>
    rw [Rounds.read, if_neg room]
    refine Option.bind_eq_some_iff.mpr ⟨_, here, ?_⟩
    dsimp only
    rw [if_neg same]
    rfl

/-- An outcome that comes from those of the parts is given. -/
theorem gives_of_unfolds {rule : Rule} {cursor : Cursor} {outcome : Outcome}
    (unfolds : grammar.Unfolds grammar.Gives rule cursor outcome) :
    grammar.Gives rule cursor outcome := by
  cases unfolds with
  | endOfText => rfl
  | empty => rfl
  | terminal => rfl
  | sequence members =>
    exact Option.bind_eq_some_iff.mpr ⟨_, evalSequence_of_sequenced members, rfl⟩
  | choice all => exact Option.bind_eq_some_iff.mpr ⟨_, evalAll_of_all all, rfl⟩
  | ordered tried => exact evalOrdered_of_tried tried
  | optional here => exact Option.bind_eq_some_iff.mpr ⟨_, here, rfl⟩
  | repetition repeated => exact Option.bind_eq_some_iff.mpr ⟨_, read_of_repeated repeated, rfl⟩
  | absent here => exact Option.bind_eq_some_iff.mpr ⟨_, here, rfl⟩
  | ahead here => exact Option.bind_eq_some_iff.mpr ⟨_, here, rfl⟩
  | @missing name cursor missing =>
    have application : grammar.applyAt? name cursor = some none := by rw [applyAt?_eq, missing]
    exact Option.bind_eq_some_iff.mpr ⟨_, application, rfl⟩
  | @reference name rule cursor outcome found here =>
    have application : grammar.applyAt? name cursor = some (some outcome) := by
      rw [applyAt?_eq, found]
      exact Option.map_eq_some_iff.mpr ⟨_, here, rfl⟩
    exact Option.bind_eq_some_iff.mpr ⟨_, application, rfl⟩
  | veiled here => exact here

/-- What unfolding keeps holds of every outcome. -/
theorem eval_induct {holds : Rule → Cursor → Outcome → Prop}
    (closed : ∀ rule cursor outcome,
      grammar.Unfolds (fun rule cursor outcome =>
        grammar.Gives rule cursor outcome ∧ holds rule cursor outcome) rule cursor outcome →
      holds rule cursor outcome)
    {rule : Rule} {cursor : Cursor} {outcome : Outcome}
    (gives : grammar.Gives rule cursor outcome) : holds rule cursor outcome := by
  have both : ∀ rule cursor outcome,
      grammar.Unfolds (fun rule cursor outcome =>
        grammar.Gives rule cursor outcome ∧ holds rule cursor outcome) rule cursor outcome →
      grammar.Gives rule cursor outcome ∧ holds rule cursor outcome :=
    fun rule cursor outcome unfolds =>
      ⟨gives_of_unfolds (unfolds.mono fun _ _ _ => And.left),
        closed rule cursor outcome unfolds⟩
  have within : ∀ depth name cursor result, grammar.applyWithin? depth name cursor = some result →
      match result with
      | none => grammar.productions.find? name = none
      | some outcome => ∃ rule, grammar.productions.find? name = some rule ∧
          grammar.Gives rule cursor outcome ∧ holds rule cursor outcome := by
    intro depth
    induction depth with
    | zero => exact fun _ _ _ ended => nomatch ended
    | succ depth ih =>
      intro name cursor result ended
      rw [applyWithin?] at ended
      split at ended
      · rename_i missing
        cases ended
        exact missing
      · rename_i rule found
        obtain ⟨outcome, evaluated, rfl⟩ := Option.map_eq_some_iff.mp ended
        exact ⟨rule, found, holds_of_eval both ih rule cursor outcome evaluated⟩
  exact (holds_of_eval both (fun name cursor result ended => within _ name cursor result ended)
    rule cursor outcome gives).2

/-- Every outcome of several rules is that of one of them. -/
theorem exists_rule_of_mem {holds : Rule → Outcome → Prop} {rules : List Rule}
    {outcomes : List Outcome} (all : List.Forall₂ holds rules outcomes) {outcome : Outcome}
    (member : outcome ∈ outcomes) : ∃ rule ∈ rules, holds rule outcome := by
  induction all with
  | nil => cases member
  | cons here _ ih =>
    rcases List.mem_cons.mp member with rfl | member
    · exact ⟨_, List.mem_cons_self .., here⟩
    · obtain ⟨rule, member, here⟩ := ih member
      exact ⟨rule, List.mem_cons_of_mem _ member, here⟩

/-- Rules that end at a cursor have outcomes there. -/
theorem exists_gives_all {rules : List Rule} {cursor : Cursor}
    (ends : ∀ rule ∈ rules, ∃ outcome, grammar.Gives rule cursor outcome) :
    ∃ outcomes, List.Forall₂ (fun rule outcome => grammar.Gives rule cursor outcome) rules
      outcomes := by
  induction rules with
  | nil => exact ⟨[], .nil⟩
  | cons rule rules ih =>
    obtain ⟨⟨outcome, here⟩, ends⟩ := List.forall_mem_cons.mp ends
    obtain ⟨outcomes, rest⟩ := ih ends
    exact ⟨outcome :: outcomes, .cons here rest⟩

/-- What a rule gives is among the outcomes of several rules. -/
theorem mem_outcomes {rules : List Rule} {cursor : Cursor} {outcomes : List Outcome}
    (all : List.Forall₂ (fun rule outcome => grammar.Gives rule cursor outcome) rules outcomes)
    {rule : Rule} (member : rule ∈ rules) {outcome : Outcome}
    (gives : grammar.Gives rule cursor outcome) : outcome ∈ outcomes := by
  induction all with
  | nil => cases member
  | cons here _ ih =>
    rcases List.mem_cons.mp member with rfl | member
    · obtain rfl := Option.some.inj (here.symm.trans gives)
      exact List.mem_cons_self ..
    · exact List.mem_cons_of_mem _ (ih member)

/-- A rule gives exactly the outcomes that come from outcomes of its parts. -/
theorem gives_iff {rule : Rule} {cursor : Cursor} {outcome : Outcome} :
    grammar.Gives rule cursor outcome ↔ grammar.Unfolds grammar.Gives rule cursor outcome :=
  ⟨eval_induct fun _ _ _ unfolds => unfolds.mono fun _ _ _ => And.left, gives_of_unfolds⟩

end Grammar

end Packrat
