import Packrat.Proofs.Ambiguity
import Packrat.Proofs.Memoization

/-! # Where ambiguities come from

An ambiguity is found by an unordered choice and then passed on by every rule around it, whatever
else they try. So whenever one is reported at a place, two alternatives of one choice match there
(`Grammar.conflicts_of_gives`), and a rule that leads to no choice never reports one
(`Grammar.mismatch_of_choiceless`).
-/

namespace Packrat

theorem Rule.mem_referencesAll {rules : List Rule} {rule : Rule} (member : rule ∈ rules)
    {name : String} (inside : name ∈ rule.references) : name ∈ Rule.referencesAll rules := by
  induction rules with
  | nil => cases member
  | cons head more ih =>
    rcases List.mem_cons.mp member with rfl | member
    · exact List.mem_append_left _ inside
    · exact List.mem_append_right _ (ih member)

/-- All choices of the first rule, and all the productions that it refers to, are also those of
the second. -/
structure Rule.Part (part rule : Rule) : Prop where
  choices : ∀ alternatives ∈ part.choices, alternatives ∈ rule.choices
  references : ∀ name ∈ part.references, name ∈ rule.references

namespace Grammar

variable {grammar : Grammar}

/-- A rule leads to itself, and to what the productions that it refers to lead to. -/
inductive Involves (grammar : Grammar) : Rule → Rule → Prop where
  | here {rule} : Involves grammar rule rule
  | production {rule body last : Rule} {name : String} (refers : name ∈ rule.references)
      (declared : grammar.productions.find? name = some body)
      (more : Involves grammar body last) : Involves grammar rule last

/-- A choice to which the rule leads has two alternatives that match at the cursor. -/
def Conflicts (grammar : Grammar) (rule : Rule) (cursor : Cursor) : Prop :=
  ∃ holder, grammar.Involves rule holder ∧ ∃ alternatives ∈ holder.choices, ∃ first second,
    [first, second].Sublist alternatives ∧
      ∀ alternative ∈ [first, second], ∃ found, grammar.Gives alternative cursor (.ok found)

namespace Conflicts

variable {rule part : Rule} {cursor : Cursor}

/-- What a part of a rule leads to, the rule leads to. -/
theorem of_part (inside : part.Part rule) (conflicts : grammar.Conflicts part cursor) :
    grammar.Conflicts rule cursor := by
  obtain ⟨holder, involves, alternatives, among, matched⟩ := conflicts
  cases involves with
  | here => exact ⟨rule, .here, alternatives, inside.choices _ among, matched⟩
  | production refers declared more =>
    exact ⟨holder, .production (inside.references _ refers) declared more, alternatives, among,
      matched⟩

theorem of_production {name : String} {body : Rule}
    (declared : grammar.productions.find? name = some body)
    (conflicts : grammar.Conflicts body cursor) : grammar.Conflicts (.reference name) cursor := by
  obtain ⟨holder, involves, matched⟩ := conflicts
  exact ⟨holder, .production (List.mem_singleton_self name) declared involves, matched⟩

end Conflicts

/-- Two of the alternatives match, if there is more than one success. -/
theorem exists_pair_of_successes {cursor : Cursor} {rules : List Rule}
    {outcomes : List Outcome} {first second : Match} {others : List Match}
    (all : List.Forall₂ (fun rule outcome => grammar.Gives rule cursor outcome) rules outcomes)
    (several : Outcome.successes outcomes = first :: second :: others) :
    ∃ one other, [one, other].Sublist rules ∧
      ∀ alternative ∈ [one, other], ∃ found, grammar.Gives alternative cursor (.ok found) := by
  induction all with
  | nil => cases several
  | @cons rule outcome rules outcomes here rest ih =>
    cases outcome with
    | error reject =>
      obtain ⟨one, other, inside, matched⟩ := ih several
      exact ⟨one, other, inside.cons rule, matched⟩
    | ok found =>
      obtain ⟨-, more⟩ := List.cons.inj several
      have member : Except.ok second ∈ outcomes :=
        Outcome.mem_successes.mp (more ▸ List.mem_cons_self ..)
      obtain ⟨other, among, there⟩ := exists_rule_of_mem rest member
      refine ⟨rule, other, (List.singleton_sublist.mpr among).cons_cons rule, ?_⟩
      rintro alternative member
      rcases List.mem_pair.mp member with rfl | rfl
      · exact ⟨_, here⟩
      · exact ⟨_, there⟩

/-- An ambiguity that is reported comes from a conflict. -/
private def Explains (grammar : Grammar) (rule : Rule) (_ : Cursor) (outcome : Outcome) : Prop :=
  ∀ reject, outcome = .error reject → reject.kind = .ambiguous →
    grammar.Conflicts rule reject.cursor

private theorem part_of_mem {rules : List Rule} {part whole : Rule} (among : part ∈ rules)
    (choices : ∀ alternatives ∈ Rule.allChoices rules, alternatives ∈ whole.choices)
    (references : ∀ name ∈ Rule.referencesAll rules, name ∈ whole.references) :
    part.Part whole :=
  ⟨fun _ inside => choices _ (Rule.mem_allChoices among inside),
    fun _ inside => references _ (Rule.mem_referencesAll among inside)⟩

private theorem exists_of_sequenced {rules : List Rule} {cursor : Cursor}
    {result : Except Reject (List Tree × Cursor)}
    (sequenced : Sequenced (fun rule cursor outcome =>
      grammar.Gives rule cursor outcome ∧ grammar.Explains rule cursor outcome)
      rules cursor result)
    {reject : Reject} (rejected : result = .error reject) (kind : reject.kind = .ambiguous) :
    ∃ rule ∈ rules, grammar.Conflicts rule reject.cursor := by
  induction sequenced with
  | nil => cases rejected
  | reject here =>
    cases rejected
    exact ⟨_, List.mem_cons_self .., here.2 _ rfl kind⟩
  | @next _ _ _ _ result here rest ih =>
    cases result with
    | ok pair => cases rejected
    | error other =>
      cases rejected
      obtain ⟨rule, among, conflicts⟩ := ih rfl
      exact ⟨rule, List.mem_cons_of_mem _ among, conflicts⟩

private theorem exists_of_tried {cursor : Cursor} {rules : List Rule}
    {ambiguity : Option Reject} {outcome : Outcome}
    (tried : Tried (fun rule cursor outcome =>
      grammar.Gives rule cursor outcome ∧ grammar.Explains rule cursor outcome)
      cursor rules ambiguity outcome)
    {reject : Reject} (rejected : outcome = .error reject) (kind : reject.kind = .ambiguous) :
    ambiguity = some reject ∨ ∃ rule ∈ rules, grammar.Conflicts rule reject.cursor := by
  induction tried with
  | @nil ambiguity =>
    cases rejected
    cases ambiguity with
    | none => cases kind
    | some known => exact .inl rfl
  | found => cases rejected
  | @next rule more ambiguity failed outcome here rest ih =>
    rcases ih rejected with known | ⟨rule, among, conflicts⟩
    · cases ambiguity with
      | some first => exact .inl known
      | none =>
        dsimp only [Option.or] at known
        split at known
        · cases known
          exact .inr ⟨rule, List.mem_cons_self .., here.2 _ rfl kind⟩
        · cases known
    · exact .inr ⟨rule, List.mem_cons_of_mem _ among, conflicts⟩

private theorem conflicts_of_repeated {rule : Rule} {min fuel : Nat} {max : Option Nat}
    {nodes : List Tree} {cursor : Cursor} {rounds : Rounds}
    (repeated : Repeated (fun cursor outcome =>
      grammar.Gives rule cursor outcome ∧ grammar.Explains rule cursor outcome)
      min max fuel nodes cursor rounds)
    {reject : Reject} (failed : rounds.failure = some reject) (kind : reject.kind = .ambiguous) :
    grammar.Conflicts rule reject.cursor := by
  induction repeated with
  | spent | full | still => cases failed
  | reject room here =>
    cases failed
    exact here.2 _ rfl kind
  | next room here shorter rest ih => exact ih failed

/-- Where a rule reports an ambiguity, two alternatives of a choice that it leads to match. -/
theorem conflicts_of_gives {rule : Rule} {cursor : Cursor} {reject : Reject}
    (gives : grammar.Gives rule cursor (.error reject)) (ambiguous : reject.kind = .ambiguous) :
    grammar.Conflicts rule reject.cursor := by
  suffices closed : ∀ rule cursor outcome, grammar.Unfolds (fun rule cursor outcome =>
      grammar.Gives rule cursor outcome ∧ grammar.Explains rule cursor outcome)
      rule cursor outcome → grammar.Explains rule cursor outcome from
    eval_induct closed gives reject rfl ambiguous
  intro rule cursor outcome unfolds reject rejected ambiguous
  cases unfolds with
  | endOfText =>
    unfold Outcome.atEnd at rejected
    split at rejected <;> cases rejected
    cases ambiguous
  | empty => cases rejected
  | terminal =>
    obtain ⟨reason, rfl⟩ := Terminal.mismatch_of_eval rejected
    cases ambiguous
  | @sequence rules _ result members =>
    cases result with
    | ok pair => cases rejected
    | error other =>
      cases rejected
      obtain ⟨part, among, conflicts⟩ := exists_of_sequenced members rfl ambiguous
      exact conflicts.of_part (part_of_mem among (fun _ => id) fun _ => id)
  | @choice rules _ outcomes all =>
    unfold Outcome.unique at rejected
    split at rejected
    · cases rejected
      -- none matches, so the report is that of an alternative
      cases reported : Outcome.ambiguity? outcomes with
      | none =>
        rw [reported] at ambiguous
        cases ambiguous
      | some known =>
        rw [reported] at ambiguous
        obtain ⟨part, among, holds⟩ :=
          exists_rule_of_mem all (Outcome.mem_of_ambiguity reported)
        refine (holds.2 known rfl ambiguous).of_part (part_of_mem among ?_ fun _ => id)
        exact fun _ inside => List.mem_cons_of_mem _ inside
    · cases rejected
    · rename_i none only
      cases rejected
      cases several : Outcome.successes outcomes with
      | nil => exact absurd several none
      | cons first more =>
        cases more with
        | nil => exact absurd several (only first)
        | cons second others =>
          obtain ⟨one, other, inside, matched⟩ :=
            exists_pair_of_successes (all.imp fun _ _ => And.left) several
          exact ⟨.choice rules, .here, rules, List.mem_cons_self .., one, other, inside, matched⟩
  | @ordered rules _ _ tried =>
    rcases exists_of_tried tried rejected ambiguous with none | ⟨part, among, conflicts⟩
    · cases none
    · exact conflicts.of_part (part_of_mem among (fun _ => id) fun _ => id)
  | @optional _ _ outcome here => cases outcome <;> cases rejected
  | @repetition rule min max _ rounds repeated =>
    unfold Rounds.outcome at rejected
    split at rejected
    · cases rejected
      cases failed : rounds.failure with
      | none =>
        rw [failed] at ambiguous
        cases ambiguous
      | some other =>
        rw [failed] at ambiguous
        refine (conflicts_of_repeated repeated failed ambiguous).of_part ?_
        exact ⟨fun _ => id, fun _ => id⟩
    · cases rejected
  | @absent _ _ outcome here =>
    cases outcome <;> cases rejected
    cases ambiguous
  | @ahead _ _ outcome here =>
    cases outcome <;> cases rejected
    cases ambiguous
  | missing =>
    cases rejected
    cases ambiguous
  | @reference name body _ outcome declared here =>
    cases outcome with
    | ok _ => cases rejected
    | error other =>
      cases rejected
      exact .of_production declared (here.2 _ rfl ambiguous)
  | @veiled rule _ _ here =>
    have inside : rule.Part (.veiled rule) := ⟨fun _ => id, fun _ => id⟩
    exact (here.2 _ rejected ambiguous).of_part inside

/-- On an environment that calls at places of a text have led to, an ambiguity is reported only at
a place where two alternatives of a choice match, each evaluated on a fresh environment. -/
theorem exists_alternatives_of_ambiguous {text : Text} {history : List Call}
    {environment : Environment} (reached : (Environment.start grammar).Reaches history environment)
    (texts : ∀ call ∈ history, call.cursor.text = text) {rule : Rule} {offset : Nat}
    {reject : Reject} (ambiguous : reject.kind = .ambiguous)
    (rejected : (environment.evalAt? rule ((Cursor.start text).seek offset)).map Prod.fst =
      some (.error reject)) :
    ∃ holder, grammar.Involves rule holder ∧ ∃ alternatives ∈ holder.choices, ∃ first second,
      [first, second].Sublist alternatives ∧ ∀ alternative ∈ [first, second], ∃ found,
        ((Environment.start grammar).evalAt? alternative
          ((Cursor.start text).seek reject.cursor.offset)).map Prod.fst = some (.ok found) := by
  have here : ((Cursor.start text).seek offset).text = text := by
    rw [Cursor.text_seek, Cursor.text_start]
  rw [reached.map_evalAt? texts rule here, evalAt?_eq] at rejected
  have leads : ((Cursor.start text).seek offset).LeadsTo reject.cursor := eval_after rejected
  have there : reject.cursor.text = text := leads.text_eq.trans here
  have place : (Cursor.start text).seek reject.cursor.offset = reject.cursor :=
    Cursor.seek_offset ((Cursor.text_start text).trans there.symm)
  obtain ⟨holder, involves, alternatives, among, first, second, inside, matched⟩ :=
    conflicts_of_gives rejected ambiguous
  refine ⟨holder, involves, alternatives, among, first, second, inside, ?_⟩
  intro alternative member
  obtain ⟨found, gives⟩ := matched alternative member
  refine ⟨found, ?_⟩
  rw [place, (Environment.Reaches.nil _).map_evalAt? nofun alternative there, evalAt?_eq]
  exact gives

/-- No production of the grammar has an unordered choice in it. -/
def Choiceless (grammar : Grammar) : Prop :=
  ∀ name body, grammar.productions.find? name = some body → body.choices = []

/-- Where there is no choice, nothing is rejected as ambiguous. -/
theorem mismatch_of_choiceless (choiceless : grammar.Choiceless) {rule : Rule}
    (none : rule.choices = []) {cursor : Cursor} {reject : Reject}
    (gives : grammar.Gives rule cursor (.error reject)) : reject.kind = .mismatch := by
  refine mismatch_of_exclusive (fun name body declared => ?_) ?_ gives
  · exact choiceless name body declared ▸ nofun
  · exact none ▸ nofun

end Grammar

end Packrat
