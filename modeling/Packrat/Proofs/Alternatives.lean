import Packrat.Proofs.AmbiguityReports
import Mathlib.Data.List.Perm.Basic

/-! # The order of alternatives

An unordered choice asks all of its alternatives, so their order can only show in the wording of a
report (`Outcome.unique_perm`). An ordered choice stops at the first match; it takes the one match
of the unordered choice, wherever that stands, and fails with the same report
(`Outcome.first_of_unique`, `Outcome.unique_of_first`). `Environment.Reaches.choice_perm` says so of
rules, on any table that calls have left behind.
-/

namespace Packrat

namespace Outcome

variable {cursor : Cursor} {rules : List Rule} {outcomes : List Outcome}

/-- The outcome of an ordered choice whose alternatives have the given outcomes: the first match,
or else the first ambiguity, after one that is known. -/
def first (cursor : Cursor) (known : Option Reject) (outcomes : List Outcome) : Outcome :=
  match successes outcomes with
  | [] => .error (.noAlternative cursor (known.or (ambiguity? outcomes)))
  | found :: _ => .ok found

/-- An alternative is rejected as ambiguous. -/
def Ambiguous (outcomes : List Outcome) : Prop :=
  ∃ reject, Except.error reject ∈ outcomes ∧ reject.kind = .ambiguous

theorem successes_eq_filterMap (outcomes : List Outcome) :
    successes outcomes = outcomes.filterMap Except.toOption := by
  induction outcomes with
  | nil => rfl
  | cons outcome more ih =>
    cases outcome with
    | ok found => exact congrArg (found :: ·) ih
    | error reject => exact ih

theorem successes_perm {outcomes' : List Outcome} (permuted : outcomes.Perm outcomes') :
    (successes outcomes).Perm (successes outcomes') := by
  rw [successes_eq_filterMap, successes_eq_filterMap]
  exact permuted.filterMap _

/-- The report of a choice without a match is an ambiguity exactly if one of its alternatives
reports one. -/
theorem noAlternative_ambiguous_iff :
    (Reject.noAlternative cursor (ambiguity? outcomes)).kind = .ambiguous ↔
      Ambiguous outcomes := by
  induction outcomes with
  | nil => simp [ambiguity?, Reject.noAlternative, Reject.mismatch, Ambiguous]
  | cons outcome more ih =>
    cases outcome with
    | ok found => simpa [ambiguity?, Ambiguous] using ih
    | error reject =>
      by_cases kind : reject.kind = .ambiguous
      · simp [ambiguity?, Reject.isAmbiguous, Reject.noAlternative, Ambiguous, kind]
      · simpa [ambiguity?, Reject.isAmbiguous, Ambiguous, kind] using ih

theorem unique_eq_ok_iff {found : Match} :
    unique cursor rules outcomes = .ok found ↔ successes outcomes = [found] := by
  unfold unique
  split <;> simp_all

/-- A choice is rejected as ambiguous if several of its alternatives match, or if none does and one
of them is rejected so. -/
theorem unique_ambiguous_iff :
    (∃ reject, unique cursor rules outcomes = .error reject ∧ reject.kind = .ambiguous) ↔
      2 ≤ (successes outcomes).length ∨ successes outcomes = [] ∧ Ambiguous outcomes := by
  unfold unique
  split
  · rename_i none
    simp [none, noAlternative_ambiguous_iff]
  · rename_i found only
    simp [only]
  · rename_i none only
    match several : successes outcomes with
    | [] => exact absurd several none
    | [found] => exact absurd several (only found)
    | one :: other :: more => simp

/-- The order of the alternatives changes neither the match of a choice nor the kind of its
reject. -/
theorem unique_perm {rules' : List Rule} {outcomes' : List Outcome}
    (permuted : outcomes.Perm outcomes') :
    (∃ found, unique cursor rules outcomes = .ok found ∧
      unique cursor rules' outcomes' = .ok found) ∨
    ∃ reject reject', unique cursor rules outcomes = .error reject ∧
      unique cursor rules' outcomes' = .error reject' ∧ reject.kind = reject'.kind := by
  have same := successes_perm permuted
  cases here : unique cursor rules outcomes with
  | ok found =>
    rw [unique_eq_ok_iff.mp here] at same
    exact .inl ⟨found, rfl, unique_eq_ok_iff.mpr (List.singleton_perm.mp same).symm⟩
  | error reject =>
    cases there : unique cursor rules' outcomes' with
    | ok found =>
      rw [unique_eq_ok_iff.mp there] at same
      cases here.symm.trans (unique_eq_ok_iff.mpr (List.perm_singleton.mp same))
    | error reject' =>
      have alike : (2 ≤ (successes outcomes).length ∨
          successes outcomes = [] ∧ Ambiguous outcomes) ↔
          (2 ≤ (successes outcomes').length ∨
            successes outcomes' = [] ∧ Ambiguous outcomes') := by
        simp only [same.length_eq, ← List.length_eq_zero_iff, Ambiguous, permuted.mem_iff]
      rw [← @unique_ambiguous_iff cursor rules, ← @unique_ambiguous_iff cursor rules', here,
        there] at alike
      simp only [Except.error.injEq, exists_eq_left'] at alike
      refine .inr ⟨reject, reject', rfl, rfl, ?_⟩
      cases kind : reject.kind <;> cases kind' : reject'.kind <;> simp_all

/-- The one match is the first. -/
theorem first_of_unique {found : Match} {known : Option Reject}
    (matched : unique cursor rules outcomes = .ok found) :
    first cursor known outcomes = .ok found := by
  rw [first, unique_eq_ok_iff.mp matched]

/-- An ordered choice that fails fails as the unordered one. -/
theorem unique_of_first {reject : Reject}
    (rejected : first cursor none outcomes = .error reject) :
    unique cursor rules outcomes = .error reject := by
  unfold first at rejected
  unfold unique
  split at rejected
  · rename_i none
    rw [none]
    exact rejected
  · cases rejected

theorem first_eq_error_iff {known : Option Reject} :
    (∃ reject, first cursor known outcomes = .error reject) ↔ successes outcomes = [] := by
  unfold first
  split <;> simp_all

end Outcome

namespace Grammar

variable {grammar : Grammar} {cursor : Cursor} {rules : List Rule} {outcomes : List Outcome}

variable (all : List.Forall₂ (fun rule outcome => grammar.Gives rule cursor outcome) rules
  outcomes)

include all

/-- Trying rules one after the other leads to their first match. -/
theorem tried_of_all (known : Option Reject) :
    Tried grammar.Gives cursor rules known (.first cursor known outcomes) := by
  induction all generalizing known with
  | nil =>
    rw [Outcome.first, Outcome.successes, Outcome.ambiguity?, Option.or_none]
    exact .nil
  | @cons rule outcome rules outcomes here rest ih =>
    cases outcome with
    | ok found => exact .found here
    | error reject =>
      refine .next here ?_
      have later := ih (known.or (if reject.isAmbiguous then some reject else none))
      -- the ambiguity of the first rule comes before those of the others
      have kept : known.or (Outcome.ambiguity? (.error reject :: outcomes)) =
          (known.or (if reject.isAmbiguous then some reject else none)).or
            (Outcome.ambiguity? outcomes) := by
        rw [Option.or_assoc, Outcome.ambiguity?]
        split <;> rfl
      rwa [Outcome.first, ← kept] at later

/-- Nothing matches exactly if none of the rules does. -/
theorem successes_eq_nil_iff : Outcome.successes outcomes = [] ↔
    ∀ rule ∈ rules, ¬∃ found, grammar.Gives rule cursor (.ok found) := by
  rw [List.eq_nil_iff_forall_not_mem]
  constructor
  · rintro none rule member ⟨found, gives⟩
    exact none found (Outcome.mem_successes.mpr (mem_outcomes all member gives))
  · intro none found member
    obtain ⟨rule, among, gives⟩ := exists_rule_of_mem all (Outcome.mem_successes.mp member)
    exact none rule among ⟨found, gives⟩

/-- One of the outcomes is ambiguous exactly if a rule is rejected so. -/
theorem ambiguous_iff : Outcome.Ambiguous outcomes ↔
    ∃ rule ∈ rules, ∃ reject, grammar.Gives rule cursor (.error reject) ∧
      reject.kind = .ambiguous := by
  constructor
  · rintro ⟨reject, member, kind⟩
    obtain ⟨rule, among, gives⟩ := exists_rule_of_mem all member
    exact ⟨rule, among, reject, gives, kind⟩
  · rintro ⟨rule, among, reject, gives, kind⟩
    exact ⟨reject, mem_outcomes all among gives, kind⟩

/-- There are two matches exactly if two of the rules match. -/
theorem two_le_successes_iff : 2 ≤ (Outcome.successes outcomes).length ↔
    ∃ one other, [one, other].Sublist rules ∧
      ∀ alternative ∈ [one, other], ∃ found, grammar.Gives alternative cursor (.ok found) := by
  constructor
  · intro several
    match matched : Outcome.successes outcomes with
    | [] | [_] => simp [matched] at several
    | _ :: _ :: _ => exact exists_pair_of_successes all matched
  · rintro ⟨one, other, inside, matched⟩
    induction all with
    | nil => cases inside
    | @cons rule outcome rules outcomes here rest ih =>
      cases inside with
      | cons _ inside =>
        have several := ih inside
        cases outcome with
        | ok found => exact several.trans (Nat.le_succ _)
        | error reject => exact several
      | cons_cons _ inside =>
        obtain ⟨⟨found, gives⟩, ⟨found', gives'⟩, -⟩ := by
          simpa only [List.forall_mem_cons] using matched
        obtain rfl := Option.some.inj (here.symm.trans gives)
        have member := mem_outcomes rest (List.singleton_sublist.mp inside) gives'
        exact Nat.succ_le_succ (List.length_pos_of_mem (Outcome.mem_successes.mpr member))

end Grammar

namespace Environment

/-- On an environment that calls at places of a text have led to, an unordered choice of
alternatives that all end has the same match in every order of them, which is also that of the
ordered choice, or is rejected with the same kind: as ambiguous exactly if two alternatives match,
or none does and one is rejected as ambiguous. The ordered choice fails exactly if no alternative
matches, and then as the unordered one. -/
theorem Reaches.choice_perm {grammar : Grammar} {text : Text} {history : List Call}
    {environment : Environment} (reached : (start grammar).Reaches history environment)
    (texts : ∀ call ∈ history, call.cursor.text = text) {cursor : Cursor}
    (here : cursor.text = text) {rules other : List Rule} (permuted : rules.Perm other)
    (ends : ∀ rule ∈ rules, (grammar.evalAt? rule cursor).isSome = true) :
    let answer (rule : Rule) := (environment.evalAt? rule cursor).map Prod.fst
    let Matches (rule : Rule) := ∃ found, answer rule = some (.ok found)
    let Ambiguous (rule : Rule) :=
      ∃ reject, answer rule = some (.error reject) ∧ reject.kind = .ambiguous
    ((∃ found, answer (.choice rules) = some (.ok found) ∧
        answer (.choice other) = some (.ok found) ∧ answer (.ordered other) = some (.ok found)) ∨
      ∃ reject reject', answer (.choice rules) = some (.error reject) ∧
        answer (.choice other) = some (.error reject') ∧ reject.kind = reject'.kind) ∧
    (Ambiguous (.choice rules) ↔
      (∃ one other, [one, other].Sublist rules ∧
        ∀ alternative ∈ [one, other], Matches alternative) ∨
      (∀ rule ∈ rules, ¬ Matches rule) ∧ ∃ rule ∈ rules, Ambiguous rule) ∧
    (∃ outcome, answer (.ordered rules) = some outcome) ∧
    ((∃ reject, answer (.ordered rules) = some (.error reject)) ↔
      ∀ rule ∈ rules, ¬ Matches rule) ∧
    ∀ reject, answer (.ordered rules) = some (.error reject) →
      answer (.choice rules) = some (.error reject) := by
  intro answer Matches Ambiguous
  have gives (rule : Rule) (outcome : Outcome) :
      answer rule = some outcome ↔ grammar.Gives rule cursor outcome := by
    have same : answer rule = grammar.evalAt? rule cursor := reached.map_evalAt? texts rule here
    rw [same, grammar.evalAt?_eq]
    rfl
  simp only [Matches, Ambiguous, gives]
  obtain ⟨outcomes, all⟩ := Grammar.exists_gives_all fun rule member =>
    Option.isSome_iff_exists.mp (grammar.evalAt?_eq rule cursor ▸ ends rule member)
  obtain ⟨outcomes', all', permuted'⟩ := List.perm_comp_forall₂ permuted.symm all
  have choice := Grammar.gives_of_unfolds (.choice all)
  have choice' := Grammar.gives_of_unfolds (.choice all')
  have ordered := Grammar.gives_of_unfolds (.ordered (Grammar.tried_of_all all none))
  have ordered' := Grammar.gives_of_unfolds (.ordered (Grammar.tried_of_all all' none))
  have only {rule : Rule} {outcome outcome' : Outcome} (one : grammar.Gives rule cursor outcome) :
      grammar.Gives rule cursor outcome' ↔ outcome = outcome' :=
    ⟨fun other => Option.some.inj (one.symm.trans other), fun same => same ▸ one⟩
  rw [← Grammar.successes_eq_nil_iff all, ← Grammar.two_le_successes_iff all,
    ← Grammar.ambiguous_iff all]
  simp only [only choice, only choice', only ordered, only ordered']
  refine ⟨?_, Outcome.unique_ambiguous_iff, ⟨_, rfl⟩, Outcome.first_eq_error_iff,
    fun reject => Outcome.unique_of_first⟩
  rcases Outcome.unique_perm permuted'.symm with ⟨found, one, other⟩ | rejected
  · exact .inl ⟨found, one, other, Outcome.first_of_unique other⟩
  · exact .inr rejected

/-- Neither `b` nor a production with two equal alternatives matches `a`, after the table was filled
with that production: the choices of both fail alike. -/
theorem Reaches.choice_perm_unmatched :
    let grammar : Grammar := ⟨.ofList [("twice", .choice [.text "a", .text "a"])], .empty, []⟩
    let rules : List Rule := [.text "b", .reference "twice"]
    let early : Call := .apply "twice" (.start ['a'])
    ∃ environment, (start grammar).Reaches [early] environment ∧
      ∃ reject, (environment.evalAt? (.ordered rules) (.start ['a'])).map Prod.fst =
          some (.error reject) ∧
        (environment.evalAt? (.choice rules) (.start ['a'])).map Prod.fst =
          some (.error reject) := by
  intro grammar rules early
  have fresh : (start grammar).memo.Sound grammar ['a'] := .empty grammar _
  have texts : ∀ call ∈ [early], call.cursor.text = ['a'] := by simp [early, Call.cursor]
  obtain ⟨environment, reached⟩ := exists_reaches fresh texts
    (show ∀ call ∈ [early], (call.direct? grammar).isSome = true by decide +kernel)
  have ends : ∀ rule ∈ rules, (grammar.evalAt? rule (.start ['a'])).isSome = true := by
    decide +kernel
  have failed : ∀ rule ∈ rules,
      (grammar.evalAt? rule (.start ['a'])).any Except.isOk = false := by
    decide +kernel
  have silent (rule : Rule) (member : rule ∈ rules) (found : Match) :
      (environment.evalAt? rule (.start ['a'])).map Prod.fst ≠ some (.ok found) := by
    rw [reached.map_evalAt? texts rule (Cursor.text_start ['a'])]
    intro matched
    have missing := failed rule member
    rw [matched] at missing
    cases missing
  obtain ⟨-, -, -, rejects, alike⟩ := reached.choice_perm texts (Cursor.text_start ['a'])
    (List.Perm.swap (.reference "twice") (.text "b") []) ends
  obtain ⟨reject, ordered⟩ := rejects.mpr (by
    rintro rule member ⟨found, matched⟩
    exact silent rule member found matched)
  exact ⟨environment, reached, reject, ordered, alike reject ordered⟩

end Environment

end Packrat
