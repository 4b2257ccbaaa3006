import Packrat.Proofs.Pattern.Begins
import Packrat.Proofs.Termination

/-! # Grammars without ambiguity

An unordered choice reports an ambiguity where two of its rules match. If every choice of a grammar
is exclusive, no rule is ever rejected as ambiguous (`Grammar.mismatch_of_exclusive`). That a
choice is exclusive can be seen from the characters with which its rules begin, once what is
ignored has been skipped (`Grammar.exclusive_of_check`).
-/

namespace Packrat

namespace Rule

mutual

/-- The rules of every unordered choice in a rule. -/
def choices : Rule → List (List Rule)
  | .choice rules => rules :: allChoices rules
  | .sequence rules | .ordered rules => allChoices rules
  | .optional rule | .repetition rule _ _ | .absent rule | .ahead rule | .veiled rule =>
      rule.choices
  | .endOfText | .empty | .terminal _ | .reference _ => []

/-- The rules of every unordered choice in several rules. -/
def allChoices : List Rule → List (List Rule)
  | [] => []
  | rule :: more => rule.choices ++ allChoices more

end

theorem mem_allChoices {rules : List Rule} {rule : Rule} (member : rule ∈ rules)
    {choice : List Rule} (inside : choice ∈ rule.choices) : choice ∈ allChoices rules := by
  induction rules with
  | nil => cases member
  | cons head more ih =>
    rcases List.mem_cons.mp member with rfl | member
    · exact List.mem_append_left _ inside
    · exact List.mem_append_right _ (ih member)

end Rule

namespace Grammar

variable {grammar : Grammar}

/-- At most one of the rules matches, wherever they are applied. -/
def Exclusive (grammar : Grammar) (rules : List Rule) : Prop :=
  ∀ cursor outcomes,
    List.Forall₂ (fun rule outcome => grammar.Gives rule cursor outcome) rules outcomes →
    (Outcome.successes outcomes).length ≤ 1

/-- The choices of all productions are exclusive. -/
def ChoicesExclusive (grammar : Grammar) : Prop :=
  ∀ name rule, grammar.productions.find? name = some rule → ∀ rules ∈ rule.choices,
    grammar.Exclusive rules

/-- A rule whose choices are exclusive rejects with mismatches. -/
private def Mismatches (grammar : Grammar) (rule : Rule) (_ : Cursor) (outcome : Outcome) : Prop :=
  (∀ rules ∈ rule.choices, grammar.Exclusive rules) →
    ∀ reject, outcome = .error reject → reject.kind = .mismatch

private theorem ambiguity_eq_none {outcomes : List Outcome}
    (mismatches : ∀ reject, Except.error reject ∈ outcomes → reject.kind = .mismatch) :
    Outcome.ambiguity? outcomes = none := by
  induction outcomes with
  | nil => rfl
  | cons outcome more ih =>
    have rest := ih fun reject member => mismatches reject (List.mem_cons_of_mem _ member)
    cases outcome with
    | ok _ => exact rest
    | error reject =>
      have kind := mismatches reject (List.mem_cons_self ..)
      simp [Outcome.ambiguity?, Reject.isAmbiguous, kind, rest]

private theorem tried_mismatch {cursor : Cursor} {rules : List Rule} {ambiguity : Option Reject}
    {outcome : Outcome} (tried : Tried (fun rule cursor outcome =>
      grammar.Gives rule cursor outcome ∧ grammar.Mismatches rule cursor outcome)
      cursor rules ambiguity outcome)
    (exclusive : ∀ choice ∈ Rule.allChoices rules, grammar.Exclusive choice)
    (known : ambiguity = none) {reject : Reject} (rejected : outcome = .error reject) :
    reject.kind = .mismatch := by
  induction tried with
  | nil =>
    cases rejected
    rw [known]
    rfl
  | found => cases rejected
  | @next rule more ambiguity failed outcome here rest ih =>
    have kind := here.2 (fun choice member =>
      exclusive choice (List.mem_append_left _ member)) failed rfl
    refine ih (fun choice member => exclusive choice (List.mem_append_right _ member)) ?_ rejected
    simp [known, Reject.isAmbiguous, kind]

private theorem sequenced_mismatch {rules : List Rule} {cursor : Cursor}
    {result : Except Reject (List Tree × Cursor)}
    (sequenced : Sequenced (fun rule cursor outcome =>
      grammar.Gives rule cursor outcome ∧ grammar.Mismatches rule cursor outcome)
      rules cursor result)
    (exclusive : ∀ choice ∈ Rule.allChoices rules, grammar.Exclusive choice) {reject : Reject}
    (rejected : result = .error reject) : reject.kind = .mismatch := by
  induction sequenced with
  | nil => cases rejected
  | reject here =>
    cases rejected
    exact here.2 (fun choice member => exclusive choice (List.mem_append_left _ member)) reject rfl
  | @next _ _ _ _ result here rest ih =>
    cases result with
    | ok pair => cases rejected
    | error other =>
      cases rejected
      exact ih (fun choice member => exclusive choice (List.mem_append_right _ member)) rfl

private theorem repeated_mismatch {rule : Rule} {min fuel : Nat} {max : Option Nat}
    {nodes : List Tree} {cursor : Cursor} {rounds : Rounds}
    (repeated : Repeated (fun cursor outcome =>
      grammar.Gives rule cursor outcome ∧ grammar.Mismatches rule cursor outcome)
      min max fuel nodes cursor rounds)
    (exclusive : ∀ choice ∈ rule.choices, grammar.Exclusive choice) {reject : Reject}
    (failed : rounds.failure = some reject) : reject.kind = .mismatch := by
  induction repeated with
  | spent | full | still => cases failed
  | reject room here =>
    cases failed
    exact here.2 exclusive reject rfl
  | next room here shorter rest ih => exact ih failed

/-- Where every choice is exclusive, nothing is rejected as ambiguous. -/
theorem mismatch_of_exclusive (productions : grammar.ChoicesExclusive) {rule : Rule}
    (exclusive : ∀ rules ∈ rule.choices, grammar.Exclusive rules) {cursor : Cursor}
    {reject : Reject} (gives : grammar.Gives rule cursor (.error reject)) :
    reject.kind = .mismatch := by
  suffices closed : ∀ rule cursor outcome, grammar.Unfolds (fun rule cursor outcome =>
      grammar.Gives rule cursor outcome ∧ grammar.Mismatches rule cursor outcome)
      rule cursor outcome → grammar.Mismatches rule cursor outcome from
    eval_induct closed gives exclusive reject rfl
  intro rule cursor outcome unfolds exclusive reject rejected
  cases unfolds with
  | endOfText =>
    unfold Outcome.atEnd at rejected
    split at rejected <;> cases rejected
    rfl
  | empty => cases rejected
  | terminal =>
    obtain ⟨reason, rfl⟩ := Terminal.mismatch_of_eval rejected
    rfl
  | @sequence rules _ result members =>
    rw [Rule.choices] at exclusive
    cases result with
    | ok pair => cases rejected
    | error other =>
      cases rejected
      exact sequenced_mismatch members exclusive rfl
  | @choice rules _ outcomes all =>
    rw [Rule.choices] at exclusive
    obtain ⟨here, inside⟩ := List.forall_mem_cons.mp exclusive
    have one := here cursor outcomes (all.imp fun _ _ => And.left)
    unfold Outcome.unique at rejected
    split at rejected
    · cases rejected
      rw [ambiguity_eq_none fun reject member => ?_]
      · rfl
      · obtain ⟨rule, among, holds⟩ := exists_rule_of_mem all member
        exact holds.2 (fun choice member => inside choice (Rule.mem_allChoices among member))
          reject rfl
    · cases rejected
    · rename_i none only
      cases matches_ : Outcome.successes outcomes with
      | nil => exact absurd matches_ none
      | cons first more =>
        rw [matches_] at one
        obtain rfl : more = [] := List.eq_nil_of_length_eq_zero (by simpa using one)
        exact absurd matches_ (only first)
  | ordered tried =>
    rw [Rule.choices] at exclusive
    exact tried_mismatch tried exclusive rfl rejected
  | @optional _ _ outcome here => cases outcome <;> cases rejected
  | @repetition rule min max _ rounds repeated =>
    rw [Rule.choices] at exclusive
    unfold Rounds.outcome at rejected
    split at rejected
    · cases rejected
      cases failed : rounds.failure with
      | none => rfl
      | some reject => exact repeated_mismatch repeated exclusive failed
    · cases rejected
  | @absent _ _ outcome here =>
    cases outcome <;> cases rejected
    rfl
  | @ahead _ _ outcome here =>
    cases outcome <;> cases rejected
    rfl
  | missing => cases rejected; rfl
  | @reference name rule _ outcome found here =>
    cases outcome with
    | ok _ => cases rejected
    | error other =>
      cases rejected
      exact here.2 (productions name rule found) reject rfl
  | veiled here => exact here.2 exclusive reject rejected

end Grammar

/-- The sets of characters with which what the rule takes begins, if it always takes some. -/
def LexRule.begins : LexRule → Option (List CharSet)
  | .literal text => text.head?.map fun c => [.single c]
  | .pattern tried =>
      if (LexRule.pattern tried).advances then some tried.regex.begins else none

theorem LexRule.begins_of_count {rule : LexRule} {sets : List CharSet}
    (begins : rule.begins = some sets) {text : Text} {count : Nat}
    (counted : rule.matchCount? false text = some count) :
    ∃ c rest, text = c :: rest ∧ ∃ set ∈ sets, set.contains c = true := by
  cases rule with
  | literal expected =>
    obtain ⟨c, first, rfl⟩ := Option.map_eq_some_iff.mp begins
    obtain ⟨rest, rfl⟩ := List.head?_eq_some_iff.mp first
    simp only [matchCount?, Bool.false_eq_true, if_false, Option.ite_none_right_eq_some,
      List.isPrefixOf_iff_prefix] at counted
    obtain ⟨suffix, rfl⟩ := counted.1
    exact ⟨c, rest ++ suffix, rfl, .single c, List.mem_singleton_self _,
      (CharSet.contains_single c c).mpr rfl⟩
  | pattern tried =>
    simp only [LexRule.begins, Option.ite_none_right_eq_some, Option.some.injEq] at begins
    obtain ⟨advances, rfl⟩ := begins
    have positive := LexRule.count_pos advances counted
    simp only [LexRule.advances, Bool.and_eq_true] at advances
    obtain ⟨word, rest, rfl, rfl, spells⟩ :=
      Pattern.spells_of_matchCount? advances.1.1 advances.1.2 counted
    cases word with
    | nil => exact absurd positive (Nat.lt_irrefl 0)
    | cons c word => exact ⟨c, word ++ rest, rfl, Regex.begins_of_spells spells rfl⟩

namespace Rule

mutual

/-- The sets of characters with which what a rule matches begins after what is ignored, given
those of the productions. -/
def begins (lexicon : Lexicon) (known : String → Option (List CharSet)) :
    Rule → Option (List CharSet)
  | .terminal leaf =>
      match leaf.lexical? lexicon with
      | some (_, rule, false) => rule.begins
      | _ => none
  | .sequence rules => firstBegins lexicon known rules
  | .choice rules | .ordered rules => allBegin lexicon known rules
  | .reference name => known name
  | .veiled rule => rule.begins lexicon known
  | .endOfText | .empty | .optional _ | .repetition .. | .absent _ | .ahead _ => none

/-- The sets of the first of several rules. -/
def firstBegins (lexicon : Lexicon) (known : String → Option (List CharSet)) :
    List Rule → Option (List CharSet)
  | [] => none
  | rule :: _ => rule.begins lexicon known

/-- The sets of all of several rules. -/
def allBegin (lexicon : Lexicon) (known : String → Option (List CharSet)) :
    List Rule → Option (List CharSet)
  | [] => some []
  | rule :: more => do return (← rule.begins lexicon known) ++ (← allBegin lexicon known more)

end

theorem begins_of_mem {lexicon : Lexicon} {known : String → Option (List CharSet)}
    {rules : List Rule} {sets : List CharSet} (begins : allBegin lexicon known rules = some sets)
    {rule : Rule} (member : rule ∈ rules) :
    ∃ inner, rule.begins lexicon known = some inner ∧ ∀ set ∈ inner, set ∈ sets := by
  induction rules generalizing sets with
  | nil => cases member
  | cons head more ih =>
    obtain ⟨first, here, begins⟩ := Option.bind_eq_some_iff.mp begins
    obtain ⟨others, rest, begins⟩ := Option.bind_eq_some_iff.mp begins
    cases begins
    rcases List.mem_cons.mp member with rfl | member
    · exact ⟨first, here, fun set inside => List.mem_append_left _ inside⟩
    · obtain ⟨inner, there, inside⟩ := ih rest member
      exact ⟨inner, there, fun set among => List.mem_append_right _ (inside set among)⟩

end Rule

namespace Grammar

variable {grammar : Grammar}

/-- The sets of characters with which productions begin, to a depth of nested productions. -/
def beginsWithin (grammar : Grammar) : Nat → String → Option (List CharSet)
  | 0, _ => none
  | depth + 1, name =>
      (grammar.productions.find? name).bind
        (Rule.begins grammar.lexicon (grammar.beginsWithin depth))

/-- After what is ignored at a cursor comes a character of one of the sets. -/
def BeginsAt (grammar : Grammar) (cursor : Cursor) (sets : List CharSet) : Prop :=
  ∃ c rest, (cursor.skip grammar.ignore).rest = c :: rest ∧ ∃ set ∈ sets, set.contains c = true

theorem BeginsAt.mono {cursor : Cursor} {sets more : List CharSet}
    (begins : grammar.BeginsAt cursor sets) (inside : ∀ set ∈ sets, set ∈ more) :
    grammar.BeginsAt cursor more := by
  obtain ⟨c, rest, left, set, member, belongs⟩ := begins
  exact ⟨c, rest, left, set, inside set member, belongs⟩

/-- A rule matches only where a character of one of its sets comes. -/
private def BeginsRight (grammar : Grammar) (rule : Rule) (cursor : Cursor) (outcome : Outcome) :
    Prop :=
  ∀ depth sets, rule.begins grammar.lexicon (grammar.beginsWithin depth) = some sets →
    ∀ found, outcome = .ok found → grammar.BeginsAt cursor sets

private theorem tried_begins {cursor : Cursor} {rules : List Rule} {ambiguity : Option Reject}
    {outcome : Outcome} (tried : Tried (fun rule cursor outcome =>
      grammar.Gives rule cursor outcome ∧ grammar.BeginsRight rule cursor outcome)
      cursor rules ambiguity outcome) {found : Match} (matched : outcome = .ok found) :
    ∃ rule ∈ rules, grammar.BeginsRight rule cursor (.ok found) := by
  induction tried with
  | nil => cases matched
  | found here =>
    cases matched
    exact ⟨_, List.mem_cons_self .., here.2⟩
  | next here rest ih =>
    obtain ⟨rule, member, begins⟩ := ih matched
    exact ⟨rule, List.mem_cons_of_mem _ member, begins⟩

/-- The sets of a rule are right. -/
theorem beginsAt_of_gives {rule : Rule} {depth : Nat} {sets : List CharSet}
    (begins : rule.begins grammar.lexicon (grammar.beginsWithin depth) = some sets)
    {cursor : Cursor} {found : Match} (gives : grammar.Gives rule cursor (.ok found)) :
    grammar.BeginsAt cursor sets := by
  suffices closed : ∀ rule cursor outcome, grammar.Unfolds (fun rule cursor outcome =>
      grammar.Gives rule cursor outcome ∧ grammar.BeginsRight rule cursor outcome)
      rule cursor outcome → grammar.BeginsRight rule cursor outcome from
    eval_induct closed gives depth sets begins found rfl
  intro rule cursor outcome unfolds depth sets begins found matched
  cases unfolds with
  | endOfText | empty | optional | repetition | absent | ahead => cases begins
  | @terminal leaf =>
    obtain ⟨name, rule, caseless, count, lexical, -, counted, -⟩ :=
      Terminal.eval_eq_ok_iff.mp matched
    rw [Rule.begins, lexical] at begins
    cases caseless with
    | true => cases begins
    | false => exact LexRule.begins_of_count begins counted
  | @sequence rules _ result members =>
    cases members with
    | nil => cases begins
    | reject here => cases matched
    | next here rest => exact here.2 depth sets begins _ rfl
  | @choice rules _ outcomes all =>
    have member : Except.ok found ∈ outcomes := Outcome.mem_of_unique matched
    obtain ⟨rule, among, holds⟩ := exists_rule_of_mem all member
    obtain ⟨inner, here, inside⟩ := Rule.begins_of_mem begins among
    exact (holds.2 depth inner here found rfl).mono inside
  | ordered tried =>
    obtain ⟨rule, among, holds⟩ := tried_begins tried matched
    obtain ⟨inner, here, inside⟩ := Rule.begins_of_mem begins among
    exact (holds depth inner here found rfl).mono inside
  | missing => cases matched
  | @reference name rule _ outcome known here =>
    cases depth with
    | zero => cases begins
    | succ depth =>
      cases outcome with
      | error reject => cases matched
      | ok inner =>
        rw [Rule.begins, beginsWithin, known] at begins
        exact here.2 depth sets begins inner rfl
  | veiled here => exact here.2 depth sets begins found matched

/-- Whether rules are seen to begin with different characters. -/
def beginApart (grammar : Grammar) (depth : Nat) (rules : List Rule) : Bool :=
  match rules.mapM (Rule.begins grammar.lexicon (grammar.beginsWithin depth)) with
  | none => false
  | some classes =>
      classes.Pairwise fun first second => ∀ set ∈ first, ∀ set' ∈ second, set.apart set' = true

private theorem successes_of_apart {cursor : Cursor} {rules : List Rule}
    {classes : List (List CharSet)} {outcomes : List Outcome}
    (begins : List.Forall₂ (fun rule sets => ∀ found,
      grammar.Gives rule cursor (.ok found) → grammar.BeginsAt cursor sets) rules classes)
    (apart : classes.Pairwise fun first second =>
      ∀ set ∈ first, ∀ set' ∈ second, set.apart set' = true)
    (all : List.Forall₂ (fun rule outcome => grammar.Gives rule cursor outcome) rules outcomes) :
    (Outcome.successes outcomes).length ≤ 1 ∧
      ∀ found ∈ Outcome.successes outcomes, ∃ sets ∈ classes, grammar.BeginsAt cursor sets := by
  induction begins generalizing outcomes with
  | nil =>
    cases all
    exact ⟨Nat.zero_le _, nofun⟩
  | @cons rule sets rules classes here _ ih =>
    obtain ⟨apart, others⟩ := List.pairwise_cons.mp apart
    cases all with
    | @cons _ outcome _ outcomes gives rest =>
      obtain ⟨one, places⟩ := ih others rest
      cases outcome with
      | error reject =>
        refine ⟨one, fun found member => ?_⟩
        obtain ⟨sets', member', begins⟩ := places found member
        exact ⟨sets', List.mem_cons_of_mem _ member', begins⟩
      | ok first =>
        have begins := here first gives
        have none : Outcome.successes outcomes = [] := by
          refine List.eq_nil_iff_forall_not_mem.mpr fun found member => ?_
          obtain ⟨sets', member', c', rest', left', set', inside', belongs'⟩ := places found member
          obtain ⟨c, rest, left, set, inside, belongs⟩ := begins
          obtain ⟨rfl, -⟩ := List.cons.inj (left.symm.trans left')
          exact CharSet.not_contains_of_apart (apart sets' member' set inside set' inside') belongs
            belongs'
        refine ⟨by simp [Outcome.successes, none], fun found member => ?_⟩
        exact ⟨sets, List.mem_cons_self .., begins⟩

private theorem forall₂_of_mapM {α β : Type} {read : α → Option β} {values : List α}
    {results : List β} (mapped : values.mapM read = some results) :
    List.Forall₂ (fun value result => read value = some result) values results := by
  induction values generalizing results with
  | nil =>
    cases mapped
    exact .nil
  | cons value values ih =>
    rw [List.mapM_cons] at mapped
    obtain ⟨first, here, mapped⟩ := Option.bind_eq_some_iff.mp mapped
    obtain ⟨rest, others, mapped⟩ := Option.bind_eq_some_iff.mp mapped
    cases mapped
    exact .cons here (ih others)

/-- Rules that begin with different characters are exclusive. -/
theorem exclusive_of_beginApart {depth : Nat} {rules : List Rule}
    (apart : grammar.beginApart depth rules = true) : grammar.Exclusive rules := by
  intro cursor outcomes all
  unfold beginApart at apart
  split at apart
  · cases apart
  · rename_i classes mapped
    refine (successes_of_apart ((forall₂_of_mapM mapped).imp ?_) (of_decide_eq_true apart) all).1
    exact fun rule sets begins found gives => beginsAt_of_gives begins gives

/-- Whether all choices of a grammar are seen to be exclusive. -/
def choicesApart (grammar : Grammar) (depth : Nat) : Bool :=
  grammar.productions.entries.all fun entry => entry.2.choices.all (grammar.beginApart depth)

theorem choicesExclusive_of_apart {depth : Nat} (apart : grammar.choicesApart depth = true) :
    grammar.ChoicesExclusive := by
  intro name rule found rules member
  have entry := List.all_eq_true.mp apart _ (Table.mem_of_find? found)
  exact exclusive_of_beginApart (List.all_eq_true.mp entry rules member)

end Grammar

end Packrat
