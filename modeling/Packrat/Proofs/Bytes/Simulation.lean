import Packrat.Proofs.Bytes.Cuts

/-! # Evaluation on byte offsets follows evaluation at cursors

Every outcome of the evaluation on byte offsets is that of a place of the text with the number of
bytes before it (`Outcome.bytes`), and what rules make of outcomes is the same on either side. A
`Simulation` relates computations on either side in a way that sequencing respects, and
`Rule.evalBytes_simulated` carries it from terminals and applications of productions to every rule.
-/

namespace Packrat

section Forms

variable (ignore : List LexRule) (cursor : Cursor)

namespace ByteReject

theorem noAlternative_bytes (ambiguity : Option Reject) :
    noAlternative (cursor.bytes ignore) (ambiguity.map (·.bytes ignore)) =
      (Reject.noAlternative cursor ambiguity).bytes ignore := by
  cases ambiguity <;> rfl

theorem ambiguity?_bytes (reject : Reject) :
    (reject.bytes ignore).ambiguity? =
      (if reject.isAmbiguous then some reject else none).map (·.bytes ignore) := by
  by_cases ambiguous : reject.kind = .ambiguous <;>
    simp [ambiguity?, Reject.isAmbiguous, Reject.bytes, ambiguous]

end ByteReject

namespace ByteOutcome

theorem emptyAt_bytes :
    emptyAt (cursor.bytes ignore) = .ok (Outcome.bytes ignore (.ok (.emptyAt cursor))) := by
  simp only [emptyAt, Cursor.bytes_offset, ByteCursor.sentinel_bytes, Miscut.ok_bind]
  rfl

theorem atEnd_bytes :
    atEnd (cursor.bytes ignore) = .ok ((Outcome.atEnd cursor).bytes ignore) := by
  simp only [atEnd, ByteCursor.atEnd_bytes, Cursor.bytes_offset, ByteCursor.sentinel_bytes,
    Miscut.ok_bind, Outcome.atEnd]
  cases cursor.atEnd <;> rfl

theorem orEmpty_bytes (outcome : Outcome) :
    orEmpty (cursor.bytes ignore) (outcome.bytes ignore) =
      .ok ((Outcome.orEmpty cursor outcome).bytes ignore) := by
  cases outcome with
  | ok found => rfl
  | error reject => exact emptyAt_bytes ignore cursor

theorem absent_bytes (outcome : Outcome) :
    absent (cursor.bytes ignore) (outcome.bytes ignore) =
      .ok ((Outcome.absent cursor outcome).bytes ignore) := by
  cases outcome with
  | ok found => rfl
  | error reject => exact emptyAt_bytes ignore cursor

theorem ahead_bytes (outcome : Outcome) :
    ahead (cursor.bytes ignore) (outcome.bytes ignore) =
      (Outcome.ahead cursor outcome).bytes ignore := by
  cases outcome <;> rfl

theorem named_bytes (name : String) (applied : Option Outcome) :
    named name (cursor.bytes ignore) (applied.map (·.bytes ignore)) =
      (Outcome.named name cursor applied).bytes ignore := by
  rcases applied with _ | reject | found <;> rfl

theorem successes_bytes (outcomes : List Outcome) :
    (outcomes.map (·.bytes ignore)).filterMap Except.toOption =
      (Outcome.successes outcomes).map (·.bytes ignore) := by
  induction outcomes with
  | nil => rfl
  | cons outcome more ih =>
    cases outcome with
    | ok found => exact congrArg (found.bytes ignore :: ·) ih
    | error reject => exact ih

theorem ambiguities_bytes (outcomes : List Outcome) :
    (outcomes.map (·.bytes ignore)).findSome? ambiguity? =
      (Outcome.ambiguity? outcomes).map (·.bytes ignore) := by
  induction outcomes with
  | nil => rfl
  | cons outcome more ih =>
    cases outcome with
    | ok found => exact ih
    | error reject =>
      simp only [List.map_cons, List.findSome?_cons, Outcome.bytes, ambiguity?,
        ByteReject.ambiguity?_bytes, Outcome.ambiguity?]
      cases reject.isAmbiguous with
      | true => rfl
      | false => exact ih

theorem unique_bytes (rules : List Rule) (outcomes : List Outcome) :
    unique (cursor.bytes ignore) rules (outcomes.map (·.bytes ignore)) =
      (Outcome.unique cursor rules outcomes).bytes ignore := by
  unfold unique Outcome.unique
  rw [successes_bytes]
  rcases Outcome.successes outcomes with _ | ⟨found, _ | ⟨other, more⟩⟩
  · rw [ambiguities_bytes]
    exact congrArg Except.error (ByteReject.noAlternative_bytes ignore cursor _)
  · rfl
  · simp [Outcome.bytes, Reject.bytes, Match.bytes]

end ByteOutcome

end Forms

/-- A place is further on exactly when it has fewer bytes left, and when it has fewer characters
left. -/
theorem Cursor.LeadsTo.offset_lt_iff {first second : Cursor} (leads : first.LeadsTo second) :
    first.offset < second.offset ↔ second.rest.length < first.rest.length := by
  obtain ⟨count, rfl⟩ := leads
  have read := Text.byteLength_pos (first.rest.take count)
  rw [List.length_take] at read
  simp only [Cursor.forward, List.length_drop]
  omega

theorem Tree.mem_leavesAll {leaf : Token} {nodes : List Tree} :
    leaf ∈ leavesAll nodes ↔ ∃ node ∈ nodes, leaf ∈ node.leaves := by
  induction nodes with
  | nil => simp [leavesAll]
  | cons node more ih => simp [leavesAll, ih]

/-- The sentinels at a cursor lie in its text. -/
theorem Cursor.liesIn_sentinel (cursor : Cursor) (kind : TokenKind) :
    ∀ leaf ∈ (Tree.token ⟨kind, [], cursor.offset⟩).leaves, leaf.LiesIn cursor.text := by
  intro leaf found
  rw [Tree.leaves, List.mem_singleton] at found
  exact found ▸ cursor.liesIn_forward kind 0

namespace Outcome

variable {cursor : Cursor} {outcome : Outcome}

theorem Proper.after (proper : Proper cursor outcome) : After cursor outcome := by
  cases outcome with
  | ok found => exact proper.1
  | error reject => exact proper

theorem Proper.of_some (proper : Proper cursor outcome) :
    ∀ other ∈ some outcome, Proper cursor other := by
  rintro other ⟨⟩
  exact proper

theorem proper_of_none : ∀ outcome ∈ (none : Option Outcome), Proper cursor outcome :=
  fun _ found => absurd found (Option.not_mem_none _)

theorem proper_emptyAt (cursor : Cursor) : Proper cursor (.ok (.emptyAt cursor)) :=
  ⟨.refl cursor, cursor.liesIn_sentinel .empty⟩

theorem proper_atEnd (cursor : Cursor) : Proper cursor (atEnd cursor) := by
  unfold atEnd
  split
  · exact ⟨.refl cursor, cursor.liesIn_sentinel .eof⟩
  · exact .refl cursor

theorem proper_unique {rules : List Rule} {outcomes : List Outcome}
    (proper : ∀ outcome ∈ outcomes, Proper cursor outcome) :
    Proper cursor (unique cursor rules outcomes) := by
  have after : After cursor (unique cursor rules outcomes) :=
    after_unique fun outcome found => (proper outcome found).after
  cases chosen : unique cursor rules outcomes with
  | ok found => exact proper _ (mem_of_unique chosen)
  | error reject =>
    rw [chosen] at after
    exact after

theorem proper_orEmpty (proper : Proper cursor outcome) :
    Proper cursor (orEmpty cursor outcome) := by
  cases outcome with
  | ok found => exact proper
  | error reject => exact proper_emptyAt cursor

theorem proper_absent (cursor : Cursor) (outcome : Outcome) :
    Proper cursor (absent cursor outcome) := by
  cases outcome with
  | ok found => exact .refl cursor
  | error reject => exact proper_emptyAt cursor

theorem proper_ahead (proper : Proper cursor outcome) : Proper cursor (ahead cursor outcome) := by
  cases outcome with
  | ok found => exact ⟨.refl cursor, proper.2⟩
  | error reject => exact .refl cursor

theorem proper_named {name : String} {applied : Option Outcome}
    (proper : ∀ outcome ∈ applied, Proper cursor outcome) :
    Proper cursor (named name cursor applied) := by
  rcases applied with _ | reject | found
  · exact .refl cursor
  · exact proper (.error reject) rfl
  · exact proper (.ok found) rfl

end Outcome

/-- The trees of rules one after the other and the cursor after them, or the reject of one of
them. -/
abbrev Parts := Except Reject (List Tree × Cursor)

namespace Parts

/-- The parts with the number of bytes before their cursor. -/
def bytes (ignore : List LexRule) : Parts → Except ByteReject (List Tree × ByteCursor)
  | .ok (nodes, next) => .ok (nodes, next.bytes ignore)
  | .error reject => .error (reject.bytes ignore)

/-- The parts end, or fail, at a place that the cursor leads to, and their tokens lie in the
text. -/
def Proper (cursor : Cursor) : Parts → Prop
  | .ok (nodes, next) =>
      cursor.LeadsTo next ∧ ∀ leaf ∈ Tree.leavesAll nodes, leaf.LiesIn cursor.text
  | .error reject => cursor.LeadsTo reject.cursor

theorem proper_cons {cursor next : Cursor} {found : Match} {nodes : List Tree}
    (first : Outcome.Proper cursor (.ok found)) (rest : Proper found.cursor (.ok (nodes, next))) :
    Proper cursor (.ok (found.node :: nodes, next)) := by
  refine ⟨first.1.trans rest.1, fun leaf leaf_mem => ?_⟩
  rcases List.mem_append.mp leaf_mem with here | later
  · exact first.2 leaf here
  · exact first.1.text_eq ▸ rest.2 leaf later

end Parts

namespace Rounds

/-- What a repetition has read, with the number of bytes before its cursor. -/
def bytes (ignore : List LexRule) (rounds : Rounds) : ByteRounds :=
  ⟨rounds.nodes, rounds.cursor.bytes ignore, rounds.failure.map (·.bytes ignore)⟩

/-- The rounds end, and fail if they do, at places that the cursor leads to, and their tokens lie
in the text. -/
structure Proper (cursor : Cursor) (rounds : Rounds) : Prop where
  leads : cursor.LeadsTo rounds.cursor
  failure : ∀ reject ∈ rounds.failure, cursor.LeadsTo reject.cursor
  leaves : ∀ leaf ∈ Tree.leavesAll rounds.nodes, leaf.LiesIn cursor.text

theorem Proper.unfailed {start cursor : Cursor} {nodes : List Tree}
    (leads : start.LeadsTo cursor)
    (leaves : ∀ leaf ∈ Tree.leavesAll nodes, leaf.LiesIn start.text) :
    Proper start ⟨nodes, cursor, none⟩ :=
  ⟨leads, fun _ found => absurd found (Option.not_mem_none _), leaves⟩

theorem outcome_bytes (ignore : List LexRule) (rounds : Rounds) (cursor : Cursor) (rule : Rule)
    (min : Nat) :
    (rounds.bytes ignore).outcome (cursor.bytes ignore) rule min =
      (rounds.outcome cursor rule min).bytes ignore := by
  simp only [ByteRounds.outcome, outcome, bytes]
  by_cases few : rounds.nodes.length < min
  · simp only [few, if_true]
    cases rounds.failure <;> rfl
  · simp only [few, if_false]
    rfl

theorem proper_outcome {cursor : Cursor} {rounds : Rounds} (proper : rounds.Proper cursor)
    (rule : Rule) (min : Nat) : Outcome.Proper cursor (rounds.outcome cursor rule min) := by
  unfold outcome
  split
  · cases failed : rounds.failure with
    | none => exact .refl cursor
    | some reject => exact proper.failure reject failed
  · refine ⟨proper.leads, fun leaf found => proper.leaves leaf ?_⟩
    rw [Tree.leaves, Tree.mem_leavesAll] at found
    obtain ⟨node, node_mem, found⟩ := found
    exact Tree.mem_leavesAll.mpr ⟨node, List.mem_reverse.mp node_mem, found⟩

end Rounds

/-- A relation between computations on byte offsets and computations at cursors. The result of the
first is of the given form in that of the second, which has a property. -/
structure Simulation (m : Type → Type) [Monad m] where
  related : {α β : Type} → (β → α) → (β → Prop) → ByteRun α → m β → Prop
  ofPure : ∀ {α β : Type} {post : β → Prop} (form : β → α) (result : β), post result →
    related form post (pure (form result)) (pure result)
  ofBind : ∀ {α β γ δ : Type} {form : β → α} {post : β → Prop} {last : δ → γ} {done : δ → Prop}
    {first : ByteRun α} {second : m β} {next : α → ByteRun γ} {next' : β → m δ},
    related form post first second →
    (∀ result, post result → related last done (next (form result)) (next' result)) →
    related last done (first >>= next) (second >>= next')

/-- A slice that can be cut changes nothing. -/
@[simp] theorem ByteRun.check_ok {α : Type} (value : α) : check (.ok value) = pure value := rfl

namespace Rounds

variable {m : Type → Type} [Monad m] (simulation : Simulation m) {text : Text}
  {ignore : List LexRule}

/-- Rounds of related computations are related, if there is fuel for every byte on the one side
and for every character on the other. -/
theorem read_simulated {parse : ByteCursor → ByteRun ByteOutcome} {parse' : Cursor → m Outcome}
    (parsed : ∀ cursor, cursor.text = text →
      simulation.related (Outcome.bytes ignore) (Outcome.Proper cursor)
        (parse (cursor.bytes ignore)) (parse' cursor))
    (min : Nat) (max : Option Nat) {fuel fuel' : Nat} {nodes : List Tree} {start cursor : Cursor}
    (here : start.text = text) (proper : Proper start ⟨nodes, cursor, none⟩)
    (enough : cursor.rest.byteLength < fuel) (enough' : cursor.rest.length < fuel') :
    simulation.related (bytes ignore) (Proper start)
      (ByteRounds.read parse min max fuel nodes (cursor.bytes ignore))
      (read parse' min max fuel' nodes cursor) := by
  induction fuel generalizing fuel' nodes cursor with
  | zero => exact absurd enough (Nat.not_lt_zero _)
  | succ fuel ih =>
    obtain ⟨fuel', rfl⟩ : ∃ less, fuel' = less + 1 := ⟨fuel' - 1, by omega⟩
    simp only [ByteRounds.read, read]
    split
    · exact simulation.ofPure _ _ proper
    · refine simulation.ofBind (parsed cursor (proper.leads.text_eq.trans here)) ?_
      intro outcome after
      cases outcome with
      | error reject =>
        refine simulation.ofPure (bytes ignore) ⟨nodes, cursor, some reject⟩
          ⟨proper.leads, ?_, proper.leaves⟩
        rintro other ⟨⟩
        exact proper.leads.trans after
      | ok found =>
        have leads := proper.leads.trans after.1
        have among : ∀ copies, ∀ leaf ∈ Tree.leavesAll (List.replicate copies found.node ++ nodes),
            leaf.LiesIn start.text := by
          intro copies leaf leaf_mem
          obtain ⟨node, node_mem, leaf_mem⟩ := Tree.mem_leavesAll.mp leaf_mem
          rcases List.mem_append.mp node_mem with copy | earlier
          · cases List.eq_of_mem_replicate copy
            exact proper.leads.text_eq ▸ after.2 leaf leaf_mem
          · exact proper.leaves leaf (Tree.mem_leavesAll.mpr ⟨node, earlier, leaf_mem⟩)
        have progress := after.1.offset_lt_iff
        have long := cursor.byteLength_text
        have short := found.cursor.byteLength_text
        rw [after.1.text_eq] at short
        simp only [Outcome.bytes, Match.bytes, Cursor.bytes_offset]
        by_cases further : found.cursor.rest.length < cursor.rest.length
        · simp only [progress.mpr further, further, if_true]
          exact ih (.unfailed leads (among 1)) (by omega) (by omega)
        · simp only [mt progress.mp further, further, if_false]
          exact simulation.ofPure (bytes ignore)
            ⟨List.replicate _ found.node ++ nodes, found.cursor, none⟩ (.unfailed leads (among _))

end Rounds

namespace Rule

variable {m : Type → Type} [Monad m] (simulation : Simulation m) {text : Text}
  {ignore : List LexRule} (lexicon : Lexicon) {setting : ByteSetting}
  {apply : String → Cursor → m (Option Outcome)}
  (tried : ∀ (leaf : Terminal) (cursor : Cursor), cursor.text = text →
    simulation.related (Outcome.bytes ignore) (Outcome.Proper cursor)
      (.check (leaf.evalBytes setting.engine setting.lexicon (cursor.bytes ignore)))
      (pure (leaf.eval lexicon ignore cursor)))
  (applied : ∀ name cursor, cursor.text = text →
    simulation.related (Option.map (Outcome.bytes ignore))
      (fun result => ∀ outcome ∈ result, Outcome.Proper cursor outcome)
      (setting.apply name (cursor.bytes ignore)) (apply name cursor))

include tried applied

set_option linter.unusedSectionVars false

mutual

/-- Where terminals and the applications of productions are related, so are the evaluations of
every rule. -/
theorem evalBytes_simulated : ∀ (rule : Rule) (cursor : Cursor), cursor.text = text →
    simulation.related (Outcome.bytes ignore) (Outcome.Proper cursor)
      (rule.evalBytes setting (cursor.bytes ignore)) (rule.eval ⟨lexicon, ignore, apply⟩ cursor)
  | .endOfText, cursor, _ => by
      rw [evalBytes, ByteOutcome.atEnd_bytes, ByteRun.check_ok]
      exact simulation.ofPure _ _ (Outcome.proper_atEnd cursor)
  | .empty, cursor, _ => by
      rw [evalBytes, ByteOutcome.emptyAt_bytes, ByteRun.check_ok]
      exact simulation.ofPure _ _ (Outcome.proper_emptyAt cursor)
  | .terminal leaf, cursor, here => tried leaf cursor here
  | .sequence rules, cursor, here => by
      refine simulation.ofBind (evalBytesSequence_simulated rules cursor here) ?_
      rintro (reject | ⟨nodes, next⟩) proper
      · exact simulation.ofPure (Outcome.bytes ignore) (.error reject) proper
      · exact simulation.ofPure (Outcome.bytes ignore) (.ok ⟨next, .array nodes⟩) proper
  | .choice rules, cursor, here => by
      refine simulation.ofBind (evalBytesAll_simulated rules cursor here) fun outcomes proper => ?_
      rw [ByteOutcome.unique_bytes]
      exact simulation.ofPure _ _ (Outcome.proper_unique proper)
  | .ordered rules, cursor, here =>
      evalBytesOrdered_simulated rules cursor none here fun _ found =>
        absurd found (Option.not_mem_none _)
  | .optional rule, cursor, here => by
      refine simulation.ofBind (evalBytes_simulated rule cursor here) fun outcome proper => ?_
      rw [ByteOutcome.orEmpty_bytes, ByteRun.check_ok]
      exact simulation.ofPure _ _ (Outcome.proper_orEmpty proper)
  | .repetition rule min max, cursor, here => by
      have long := cursor.byteLength_text
      refine simulation.ofBind (Rounds.read_simulated simulation
        (evalBytes_simulated rule) min max here (.unfailed (.refl cursor) (List.forall_mem_nil _))
        (by simp only [Cursor.bytes_buffer, Cursor.bytes_offset]; omega) (Nat.lt_succ_self _))
        fun rounds proper => ?_
      rw [Rounds.outcome_bytes]
      exact simulation.ofPure _ _ (Rounds.proper_outcome proper rule min)
  | .absent rule, cursor, here => by
      refine simulation.ofBind (evalBytes_simulated rule cursor here) fun outcome proper => ?_
      rw [ByteOutcome.absent_bytes, ByteRun.check_ok]
      exact simulation.ofPure _ _ (Outcome.proper_absent cursor outcome)
  | .ahead rule, cursor, here => by
      refine simulation.ofBind (evalBytes_simulated rule cursor here) fun outcome proper => ?_
      rw [ByteOutcome.ahead_bytes]
      exact simulation.ofPure _ _ (Outcome.proper_ahead proper)
  | .reference name, cursor, here => by
      refine simulation.ofBind (applied name cursor here) fun outcome proper => ?_
      rw [ByteOutcome.named_bytes]
      exact simulation.ofPure _ _ (Outcome.proper_named proper)
  | .veiled rule, cursor, here => evalBytes_simulated rule cursor here

theorem evalBytesSequence_simulated : ∀ (rules : List Rule) (cursor : Cursor),
    cursor.text = text →
    simulation.related (Parts.bytes ignore) (Parts.Proper cursor)
      (evalBytesSequence setting rules (cursor.bytes ignore))
      (evalSequence ⟨lexicon, ignore, apply⟩ rules cursor)
  | [], cursor, _ =>
      simulation.ofPure (Parts.bytes ignore) (.ok ([], cursor))
        ⟨.refl cursor, List.forall_mem_nil _⟩
  | rule :: more, cursor, here => by
      refine simulation.ofBind (evalBytes_simulated rule cursor here) fun outcome proper => ?_
      cases outcome with
      | error reject =>
        exact simulation.ofPure (Parts.bytes ignore) (.error reject) proper
      | ok found =>
        refine simulation.ofBind (evalBytesSequence_simulated more found.cursor
          (proper.1.text_eq.trans here)) fun parts rest => ?_
        rcases parts with reject | ⟨nodes, next⟩
        · exact simulation.ofPure (Parts.bytes ignore) (.error reject) (proper.1.trans rest)
        · exact simulation.ofPure (Parts.bytes ignore) (.ok (found.node :: nodes, next))
            (Parts.proper_cons proper rest)

theorem evalBytesAll_simulated : ∀ (rules : List Rule) (cursor : Cursor), cursor.text = text →
    simulation.related (List.map (Outcome.bytes ignore))
      (fun outcomes => ∀ outcome ∈ outcomes, Outcome.Proper cursor outcome)
      (evalBytesAll setting rules (cursor.bytes ignore))
      (evalAll ⟨lexicon, ignore, apply⟩ rules cursor)
  | [], cursor, _ =>
      simulation.ofPure (List.map (Outcome.bytes ignore)) [] (List.forall_mem_nil _)
  | rule :: more, cursor, here => by
      refine simulation.ofBind (evalBytes_simulated rule cursor here) fun outcome proper => ?_
      refine simulation.ofBind (evalBytesAll_simulated more cursor here) fun outcomes propers => ?_
      exact simulation.ofPure (List.map (Outcome.bytes ignore)) (outcome :: outcomes)
        (List.forall_mem_cons.mpr ⟨proper, propers⟩)

theorem evalBytesOrdered_simulated : ∀ (rules : List Rule) (cursor : Cursor)
    (ambiguity : Option Reject), cursor.text = text →
    (∀ reject ∈ ambiguity, cursor.LeadsTo reject.cursor) →
    simulation.related (Outcome.bytes ignore) (Outcome.Proper cursor)
      (evalBytesOrdered setting rules (cursor.bytes ignore) (ambiguity.map (Reject.bytes ignore)))
      (evalOrdered ⟨lexicon, ignore, apply⟩ rules cursor ambiguity)
  | [], cursor, ambiguity, _, leads => by
      rw [evalBytesOrdered, ByteReject.noAlternative_bytes]
      refine simulation.ofPure (Outcome.bytes ignore) (.error (.noAlternative cursor ambiguity)) ?_
      cases ambiguity with
      | none => exact .refl cursor
      | some reject => exact leads reject rfl
  | rule :: more, cursor, ambiguity, here, leads => by
      refine simulation.ofBind (evalBytes_simulated rule cursor here) fun outcome proper => ?_
      cases outcome with
      | ok found =>
        exact simulation.ofPure (Outcome.bytes ignore) (.ok found) proper
      | error reject =>
        simp only [Outcome.bytes, ByteReject.ambiguity?_bytes, ← Option.map_or]
        refine evalBytesOrdered_simulated more cursor _ here fun other found => ?_
        rcases Option.or_eq_some_iff.mp found with known | ⟨-, ambiguous⟩
        · exact leads other known
        · cases (Option.ite_none_right_eq_some.mp ambiguous).2
          exact proper

end

end Rule

end Packrat
