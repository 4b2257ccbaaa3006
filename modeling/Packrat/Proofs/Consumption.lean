import Packrat.Proofs.Ambiguity

/-! # What rules take from a text

`Grammar.Takes` says that a rule matches wherever a text is left to read, that it leaves the
given rest of the text, and what its tree is like. `Grammar.Refuses` says that it matches nowhere
before the text. For every kind of rule both follow from what its parts take and refuse.
-/

namespace Packrat.Grammar

variable {grammar : Grammar} {rule : Rule} {rules : List Rule} {text middle rest : Text}
  {holds holds' : Tree → Prop} {all : List Tree → Prop}

/-- Before the text the rule matches up to the rest, and its tree has a property. -/
def Takes (grammar : Grammar) (rule : Rule) (text rest : Text) (holds : Tree → Prop) : Prop :=
  ∀ cursor : Cursor, cursor.rest = text → ∃ found : Match,
    grammar.Gives rule cursor (.ok found) ∧ found.cursor.rest = rest ∧ holds found.node

/-- The rule does not match before the text. -/
def Refuses (grammar : Grammar) (rule : Rule) (text : Text) : Prop :=
  ∀ cursor : Cursor, cursor.rest = text → ∃ reject, grammar.Gives rule cursor (.error reject)

/-- Before the text the rules match one after the other up to the rest, and their trees have a
property. -/
def TakesAll (grammar : Grammar) (rules : List Rule) (text rest : Text)
    (all : List Tree → Prop) : Prop :=
  ∀ cursor : Cursor, cursor.rest = text → ∃ nodes next,
    Sequenced grammar.Gives rules cursor (.ok (nodes, next)) ∧ next.rest = rest ∧ all nodes

/-- Before the text one of the rules does not match where those before it end. -/
def RefusesAll (grammar : Grammar) (rules : List Rule) (text : Text) : Prop :=
  ∀ cursor : Cursor, cursor.rest = text → ∃ reject,
    Sequenced grammar.Gives rules cursor (.error reject)

/-- Before the text the rounds of a repetition end with the rest, where no further one begins or
none is allowed. -/
inductive TakesRounds (grammar : Grammar) (rule : Rule) :
    Text → Text → (List Tree → Prop) → Prop where
  | done {text : Text} {all : List Tree → Prop} (refuses : grammar.Refuses rule text)
      (none : all []) : TakesRounds grammar rule text text all
  | next {text middle rest : Text} {holds : Tree → Prop} {all : List Tree → Prop}
      (here : grammar.Takes rule text middle holds)
      (shorter : middle.length < text.length)
      (more : ∀ node, holds node → TakesRounds grammar rule middle rest fun nodes =>
        all (node :: nodes)) :
      TakesRounds grammar rule text rest all

theorem Takes.mono (takes : grammar.Takes rule text rest holds)
    (weaker : ∀ tree, holds tree → holds' tree) : grammar.Takes rule text rest holds' := by
  intro cursor left
  obtain ⟨found, gives, after, tree⟩ := takes cursor left
  exact ⟨found, gives, after, weaker _ tree⟩

theorem TakesRounds.mono {all' : List Tree → Prop} (rounds : grammar.TakesRounds rule text rest all)
    (weaker : ∀ nodes, all nodes → all' nodes) : grammar.TakesRounds rule text rest all' := by
  induction rounds generalizing all' with
  | done refuses none => exact .done refuses (weaker [] none)
  | next here shorter _ ih =>
    exact .next here shorter fun node tree => ih node tree fun nodes => weaker (node :: nodes)

section Sequence

theorem TakesAll.nil (none : all []) : grammar.TakesAll [] text text all := by
  intro cursor left
  exact ⟨[], cursor, .nil, left, none⟩

theorem TakesAll.cons (here : grammar.Takes rule text middle holds)
    (more : ∀ node, holds node → grammar.TakesAll rules middle rest fun nodes =>
      all (node :: nodes)) : grammar.TakesAll (rule :: rules) text rest all := by
  intro cursor left
  obtain ⟨found, gives, after, tree⟩ := here cursor left
  obtain ⟨nodes, next, sequenced, after, trees⟩ := more _ tree found.cursor after
  exact ⟨found.node :: nodes, next, .next gives sequenced, after, trees⟩

theorem RefusesAll.head (here : grammar.Refuses rule text) :
    grammar.RefusesAll (rule :: rules) text := by
  intro cursor left
  obtain ⟨reject, gives⟩ := here cursor left
  exact ⟨reject, .reject gives⟩

theorem RefusesAll.tail (here : grammar.Takes rule text middle holds)
    (more : grammar.RefusesAll rules middle) : grammar.RefusesAll (rule :: rules) text := by
  intro cursor left
  obtain ⟨found, gives, after, -⟩ := here cursor left
  obtain ⟨reject, sequenced⟩ := more found.cursor after
  exact ⟨reject, .next gives sequenced⟩

theorem takes_sequence (members : grammar.TakesAll rules text rest fun nodes =>
    holds (.array nodes)) : grammar.Takes (.sequence rules) text rest holds := by
  intro cursor left
  obtain ⟨nodes, next, sequenced, after, tree⟩ := members cursor left
  exact ⟨⟨next, .array nodes⟩, gives_of_unfolds (.sequence sequenced), after, tree⟩

theorem refuses_sequence (members : grammar.RefusesAll rules text) :
    grammar.Refuses (.sequence rules) text := by
  intro cursor left
  obtain ⟨reject, sequenced⟩ := members cursor left
  exact ⟨reject, gives_of_unfolds (.sequence sequenced)⟩

end Sequence

section Ordered

private theorem tried_forget {cursor : Cursor} {ambiguity : Option Reject} {outcome : Outcome}
    (tried : Tried grammar.Gives cursor rules ambiguity outcome) {found : Match}
    (matched : outcome = .ok found) (other : Option Reject) :
    Tried grammar.Gives cursor rules other (.ok found) := by
  induction tried generalizing other with
  | nil => cases matched
  | found here =>
    cases matched
    exact .found here
  | next here _ ih => exact .next here (ih matched _)

/-- The first alternative is taken where it matches. -/
theorem takes_ordered_head (here : grammar.Takes rule text rest holds) :
    grammar.Takes (.ordered (rule :: rules)) text rest holds := by
  intro cursor left
  obtain ⟨found, gives, after, tree⟩ := here cursor left
  exact ⟨found, gives_of_unfolds (.ordered (.found gives)), after, tree⟩

/-- A later alternative is taken where the first does not match. -/
theorem takes_ordered_tail (here : grammar.Refuses rule text)
    (more : grammar.Takes (.ordered rules) text rest holds) :
    grammar.Takes (.ordered (rule :: rules)) text rest holds := by
  intro cursor left
  obtain ⟨reject, rejects⟩ := here cursor left
  obtain ⟨found, gives, after, tree⟩ := more cursor left
  cases gives_iff.mp gives with
  | ordered tried =>
    exact ⟨found, gives_of_unfolds (.ordered (.next rejects (tried_forget tried rfl _))), after,
      tree⟩

/-- An alternative is taken where those before it do not match. -/
theorem takes_ordered {front back : List Rule} (each : ∀ rule ∈ front, grammar.Refuses rule text)
    (here : grammar.Takes rule text rest holds) :
    grammar.Takes (.ordered (front ++ rule :: back)) text rest holds := by
  induction front with
  | nil => exact takes_ordered_head here
  | cons first front ih =>
    obtain ⟨refuses, others⟩ := List.forall_mem_cons.mp each
    exact takes_ordered_tail refuses (ih others)

private theorem tried_reject {cursor : Cursor} {ambiguity : Option Reject} {outcome : Outcome}
    (tried : Tried grammar.Gives cursor rules ambiguity outcome) {reject : Reject}
    (rejected : outcome = .error reject) (other : Option Reject) :
    ∃ reject, Tried grammar.Gives cursor rules other (.error reject) := by
  induction tried generalizing other with
  | nil => exact ⟨_, .nil⟩
  | found => cases rejected
  | next here _ ih =>
    obtain ⟨reject, tried⟩ := ih rejected _
    exact ⟨reject, .next here tried⟩

/-- A choice of alternatives refuses what its first one refuses and the others do. -/
theorem refuses_ordered_cons (here : grammar.Refuses rule text)
    (more : grammar.Refuses (.ordered rules) text) :
    grammar.Refuses (.ordered (rule :: rules)) text := by
  intro cursor left
  obtain ⟨first, rejects⟩ := here cursor left
  obtain ⟨reject, gives⟩ := more cursor left
  cases gives_iff.mp gives with
  | ordered tried =>
    obtain ⟨reject, tried⟩ := tried_reject tried rfl _
    exact ⟨reject, gives_of_unfolds (.ordered (.next rejects tried))⟩

theorem refuses_ordered (each : ∀ rule ∈ rules, grammar.Refuses rule text) :
    grammar.Refuses (.ordered rules) text := by
  induction rules with
  | nil => exact fun cursor _ => ⟨_, gives_of_unfolds (.ordered .nil)⟩
  | cons rule rules ih =>
    obtain ⟨here, others⟩ := List.forall_mem_cons.mp each
    exact refuses_ordered_cons here (ih others)

end Ordered

/-- The only alternative of a choice that matches is taken. -/
theorem takes_choice (exclusive : grammar.Exclusive rules) (member : rule ∈ rules)
    (ended : ∀ rule ∈ rules, ∀ cursor, ∃ outcome, grammar.Gives rule cursor outcome)
    (here : grammar.Takes rule text rest holds) :
    grammar.Takes (.choice rules) text rest holds := by
  intro cursor left
  obtain ⟨found, gives, after, tree⟩ := here cursor left
  obtain ⟨outcomes, all⟩ := exists_gives_all fun rule among => ended rule among cursor
  have among : found ∈ Outcome.successes outcomes :=
    Outcome.mem_successes.mpr (mem_outcomes all member gives)
  have single : Outcome.successes outcomes = [found] := by
    have few := exclusive cursor outcomes all
    obtain ⟨other, same⟩ := List.length_eq_one_iff.mp
      (Nat.le_antisymm few (List.length_pos_of_mem among))
    rw [same] at among ⊢
    rw [List.mem_singleton.mp among]
  refine ⟨found, gives_of_unfolds ?_, after, tree⟩
  have unique : Outcome.unique cursor rules outcomes = .ok found := by
    simp only [Outcome.unique, single]
  exact unique ▸ .choice all

theorem takes_optional (here : grammar.Takes rule text rest holds) :
    grammar.Takes (.optional rule) text rest holds := by
  intro cursor left
  obtain ⟨found, gives, after, tree⟩ := here cursor left
  exact ⟨found, gives_of_unfolds (.optional gives), after, tree⟩

/-- An optional rule leaves the text where its operand does not match. -/
theorem takes_without (here : grammar.Refuses rule text)
    (none : ∀ offset, holds (.token (.empty offset))) :
    grammar.Takes (.optional rule) text text holds := by
  intro cursor left
  obtain ⟨reject, gives⟩ := here cursor left
  exact ⟨.emptyAt cursor, gives_of_unfolds (.optional gives), left, none _⟩

theorem takes_absent (here : grammar.Refuses rule text)
    (none : ∀ offset, holds (.token (.empty offset))) :
    grammar.Takes (.absent rule) text text holds := by
  intro cursor left
  obtain ⟨reject, gives⟩ := here cursor left
  exact ⟨.emptyAt cursor, gives_of_unfolds (.absent gives), left, none _⟩

theorem refuses_absent (here : grammar.Takes rule text rest holds) :
    grammar.Refuses (.absent rule) text := by
  intro cursor left
  obtain ⟨found, gives, -⟩ := here cursor left
  exact ⟨_, gives_of_unfolds (.absent gives)⟩

section Reference

variable {name : String} (declared : grammar.productions.find? name = some rule)

include declared

theorem takes_reference (here : grammar.Takes rule text rest fun tree => holds (.named name tree)) :
    grammar.Takes (.reference name) text rest holds := by
  intro cursor left
  obtain ⟨found, gives, after, tree⟩ := here cursor left
  exact ⟨_, gives_of_unfolds (.reference declared gives), after, tree⟩

theorem refuses_reference (here : grammar.Refuses rule text) :
    grammar.Refuses (.reference name) text := by
  intro cursor left
  obtain ⟨reject, gives⟩ := here cursor left
  exact ⟨reject, gives_of_unfolds (.reference declared gives)⟩

end Reference

section Repetition

private theorem repeated_of_takesRounds {min : Nat}
    (taken : grammar.TakesRounds rule text rest all) (fuel : Nat) {cursor : Cursor}
    (left : cursor.rest = text) (enough : text.length < fuel) (before : List Tree) :
    ∃ nodes next failure, Repeated (grammar.Gives rule) min none fuel before cursor
        ⟨nodes.reverse ++ before, next, failure⟩ ∧ next.rest = rest ∧ all nodes := by
  induction taken generalizing fuel cursor before with
  | done refuses none =>
    obtain ⟨reject, gives⟩ := refuses cursor left
    cases fuel with
    | zero => omega
    | succ fuel => exact ⟨[], cursor, some reject, .reject (by simp) gives, left, none⟩
  | next here shorter more ih =>
    obtain ⟨found, gives, after, tree⟩ := here cursor left
    cases fuel with
    | zero => omega
    | succ fuel =>
      obtain ⟨nodes, next, failure, repeated, after', trees⟩ :=
        ih found.node tree fuel after (by omega) (found.node :: before)
      refine ⟨found.node :: nodes, next, failure, ?_, after', trees⟩
      rw [List.reverse_cons, List.append_assoc]
      exact .next (by simp) gives (by rw [after, left]; exact shorter) repeated

/-- A repetition takes the rounds that there are, if they are enough. -/
theorem takes_repetition {min : Nat}
    (taken : grammar.TakesRounds rule text rest fun nodes =>
      min ≤ nodes.length ∧ holds (.array nodes)) :
    grammar.Takes (.repetition rule min none) text rest holds := by
  intro cursor left
  obtain ⟨nodes, next, failure, repeated, after, enough, tree⟩ :=
    repeated_of_takesRounds taken (cursor.rest.length + 1) left (by rw [left]; omega) []
  rw [List.append_nil] at repeated
  have outcome : Rounds.outcome ⟨nodes.reverse, next, failure⟩ cursor rule min =
      .ok ⟨next, .array nodes⟩ := by
    simp [Rounds.outcome, Nat.not_lt.mpr enough]
  refine ⟨⟨next, .array nodes⟩, gives_of_unfolds ?_, after, tree⟩
  exact outcome ▸ .repetition repeated

end Repetition

end Packrat.Grammar
