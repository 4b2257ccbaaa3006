import Packrat.Proofs.Cursor
import Packrat.Rule.Eval

/-! # Comparing evaluations

`Rule.eval` leaves open in which monad productions are applied. A `Comparison` relates
computations in two monads in a way that sequencing respects, and `Rule.eval_related` carries it
from the applications of productions to the evaluation of every rule. What is evaluated never
leads back in the text, which the comparison may use.
-/

namespace Packrat

/-- A relation between computations in two monads whose common result has a property. -/
structure Comparison (m n : Type → Type) [Monad m] [Monad n] where
  related : {α : Type} → (α → Prop) → m α → n α → Prop
  ofPure : ∀ {α : Type} {post : α → Prop} {result : α}, post result →
    related post (pure result) (pure result)
  ofBind : ∀ {α β : Type} {post : α → Prop} {last : β → Prop} {first : m α} {second : n α}
    {next : α → m β} {next' : α → n β}, related post first second →
    (∀ result, post result → related last (next result) (next' result)) →
    related last (first >>= next) (second >>= next')

namespace Outcome

/-- The outcome is a match or a reject at a place that the cursor leads to. -/
def After (cursor : Cursor) : Outcome → Prop
  | .ok found => cursor.LeadsTo found.cursor
  | .error reject => cursor.LeadsTo reject.cursor

theorem After.trans {first second : Cursor} {outcome : Outcome} (leads : first.LeadsTo second)
    (after : After second outcome) : After first outcome := by
  cases outcome with
  | ok found => exact leads.trans after
  | error reject => exact leads.trans after

theorem mem_successes {outcomes : List Outcome} {found : Match} :
    found ∈ successes outcomes ↔ Except.ok found ∈ outcomes := by
  induction outcomes with
  | nil => simp [successes]
  | cons outcome more ih =>
    cases outcome with
    | error reject => simp [successes, ih]
    | ok other => simp [successes, ih]

theorem mem_of_ambiguity {outcomes : List Outcome} {reject : Reject}
    (found : ambiguity? outcomes = some reject) : Except.error reject ∈ outcomes := by
  induction outcomes with
  | nil => simp [ambiguity?] at found
  | cons outcome more ih =>
    cases outcome with
    | ok _ => exact List.mem_cons_of_mem _ (ih found)
    | error other =>
      simp only [ambiguity?] at found
      split at found
      · cases found
        exact List.mem_cons_self ..
      · exact List.mem_cons_of_mem _ (ih found)

/-- The match of a choice is that of one of its rules. -/
theorem mem_of_unique {cursor : Cursor} {rules : List Rule} {outcomes : List Outcome}
    {found : Match} (matched : unique cursor rules outcomes = .ok found) :
    Except.ok found ∈ outcomes := by
  unfold unique at matched
  split at matched
  · cases matched
  · rename_i only
    cases matched
    exact mem_successes.mp (only ▸ List.mem_singleton_self _)
  · cases matched

theorem after_unique {cursor : Cursor} {rules : List Rule} {outcomes : List Outcome}
    (after : ∀ outcome ∈ outcomes, After cursor outcome) :
    After cursor (unique cursor rules outcomes) := by
  unfold unique
  split
  · cases found : ambiguity? outcomes with
    | none => exact .refl cursor
    | some reject => exact after _ (mem_of_ambiguity found)
  · rename_i only
    exact after _ (mem_successes.mp (only ▸ List.mem_singleton.mpr rfl))
  · exact .refl cursor

theorem after_orEmpty {cursor : Cursor} {outcome : Outcome} (after : After cursor outcome) :
    After cursor (orEmpty cursor outcome) := by
  cases outcome with
  | ok found => exact after
  | error reject => exact .refl cursor

theorem after_absent (cursor : Cursor) (outcome : Outcome) :
    After cursor (absent cursor outcome) := by
  cases outcome <;> exact .refl cursor

theorem after_ahead (cursor : Cursor) (outcome : Outcome) :
    After cursor (ahead cursor outcome) := by
  cases outcome <;> exact .refl cursor

theorem after_named {name : String} {cursor : Cursor} {applied : Option Outcome}
    (after : ∀ outcome ∈ applied, After cursor outcome) :
    After cursor (named name cursor applied) := by
  match applied, after with
  | none, _ => exact .refl cursor
  | some (.ok found), after => exact after (.ok found) rfl
  | some (.error reject), after => exact after (.error reject) rfl

theorem after_atEnd (cursor : Cursor) : After cursor (atEnd cursor) := by
  unfold atEnd
  split <;> exact .refl cursor

end Outcome

namespace Terminal

theorem after_tryRule (terminal : Terminal) (ignore : List LexRule) (name : String)
    (rule : LexRule) (caseless : Bool) (cursor : Cursor) :
    Outcome.After cursor (terminal.tryRule ignore name rule caseless cursor) := by
  have leads := cursor.leadsTo_scan ignore name rule caseless
  unfold tryRule
  dsimp only
  split
  · exact leads
  · exact .refl cursor

theorem after_eval (lexicon : Lexicon) (ignore : List LexRule) (terminal : Terminal)
    (cursor : Cursor) : Outcome.After cursor (terminal.eval lexicon ignore cursor) := by
  unfold eval
  split
  · split
    · exact after_tryRule ..
    · exact .refl cursor
  · exact after_tryRule ..

end Terminal

namespace Rounds

/-- The rounds end, and fail if they do, at places that the cursor leads to. -/
def After (cursor : Cursor) (rounds : Rounds) : Prop :=
  cursor.LeadsTo rounds.cursor ∧ ∀ reject ∈ rounds.failure, cursor.LeadsTo reject.cursor

theorem after_outcome {cursor : Cursor} {rounds : Rounds} (after : rounds.After cursor)
    (rule : Rule) (min : Nat) : Outcome.After cursor (rounds.outcome cursor rule min) := by
  unfold outcome
  split
  · cases failed : rounds.failure with
    | none => exact .refl cursor
    | some reject => exact after.2 reject failed
  · exact after.1

variable {m n : Type → Type} [Monad m] [Monad n] (comparison : Comparison m n) {text : Text}

/-- Rounds of related computations are related. -/
theorem read_related {parse : Cursor → m Outcome} {parse' : Cursor → n Outcome}
    (parsed : ∀ cursor, cursor.text = text →
      comparison.related (Outcome.After cursor) (parse cursor) (parse' cursor))
    (min : Nat) (max : Option Nat) (fuel : Nat) (nodes : List Tree) {start cursor : Cursor}
    (here : cursor.text = text) (leads : start.LeadsTo cursor) :
    comparison.related (After start) (read parse min max fuel nodes cursor)
      (read parse' min max fuel nodes cursor) := by
  induction fuel generalizing nodes cursor with
  | zero => exact comparison.ofPure ⟨leads, nofun⟩
  | succ fuel ih =>
    simp only [read]
    split
    · exact comparison.ofPure ⟨leads, nofun⟩
    · refine comparison.ofBind (parsed cursor here) fun outcome after => ?_
      cases outcome with
      | error reject =>
        refine comparison.ofPure ⟨leads, fun other same => ?_⟩
        cases same
        exact leads.trans after
      | ok found =>
        dsimp only
        split
        · exact ih _ (after.text_eq.trans here) (leads.trans after)
        · exact comparison.ofPure ⟨leads.trans after, nofun⟩

end Rounds

namespace Rule

variable {m n : Type → Type} [Monad m] [Monad n] (comparison : Comparison m n) {text : Text}
  {lexicon : Lexicon} {ignore : List LexRule} {apply : String → Cursor → m (Option Outcome)}
  {apply' : String → Cursor → n (Option Outcome)}
  (applied : ∀ name cursor, cursor.text = text →
    comparison.related (fun result => ∀ outcome ∈ result, Outcome.After cursor outcome)
      (apply name cursor) (apply' name cursor))

include applied

set_option linter.unusedSectionVars false

mutual

/-- Where the applications of productions are related, so are the evaluations of every rule. -/
theorem eval_related : ∀ (rule : Rule) (cursor : Cursor), cursor.text = text →
    comparison.related (Outcome.After cursor) (rule.eval ⟨lexicon, ignore, apply⟩ cursor)
      (rule.eval ⟨lexicon, ignore, apply'⟩ cursor)
  | .endOfText, cursor, _ => comparison.ofPure (Outcome.after_atEnd cursor)
  | .empty, cursor, _ => comparison.ofPure (.refl cursor)
  | .terminal leaf, cursor, _ => comparison.ofPure (Terminal.after_eval ..)
  | .sequence rules, cursor, here => by
      refine comparison.ofBind (evalSequence_related rules cursor here) fun result after => ?_
      refine comparison.ofPure ?_
      cases result with
      | ok pair => exact after
      | error reject => exact after
  | .choice rules, cursor, here =>
      comparison.ofBind (evalAll_related rules cursor here) fun _ after =>
        comparison.ofPure (Outcome.after_unique after)
  | .ordered rules, cursor, here => evalOrdered_related rules cursor none here nofun
  | .optional rule, cursor, here =>
      comparison.ofBind (eval_related rule cursor here) fun _ after =>
        comparison.ofPure (Outcome.after_orEmpty after)
  | .repetition rule min max, cursor, here =>
      comparison.ofBind (Rounds.read_related comparison (eval_related rule) min max _ _ here
        (.refl cursor)) fun _ after => comparison.ofPure (Rounds.after_outcome after rule min)
  | .absent rule, cursor, here =>
      comparison.ofBind (eval_related rule cursor here) fun outcome _ =>
        comparison.ofPure (Outcome.after_absent cursor outcome)
  | .ahead rule, cursor, here =>
      comparison.ofBind (eval_related rule cursor here) fun outcome _ =>
        comparison.ofPure (Outcome.after_ahead cursor outcome)
  | .reference name, cursor, here =>
      comparison.ofBind (applied name cursor here) fun _ after =>
        comparison.ofPure (Outcome.after_named after)
  | .veiled rule, cursor, here => eval_related rule cursor here

theorem evalSequence_related : ∀ (rules : List Rule) (cursor : Cursor), cursor.text = text →
    comparison.related
      (fun result => match result with
        | .ok pair => cursor.LeadsTo pair.2
        | .error reject => cursor.LeadsTo reject.cursor)
      (evalSequence ⟨lexicon, ignore, apply⟩ rules cursor)
      (evalSequence ⟨lexicon, ignore, apply'⟩ rules cursor)
  | [], cursor, _ => comparison.ofPure (.refl cursor)
  | rule :: more, cursor, here => by
      refine comparison.ofBind (eval_related rule cursor here) fun outcome after => ?_
      cases outcome with
      | error reject => exact comparison.ofPure after
      | ok found =>
        have rest := evalSequence_related more found.cursor (after.text_eq.trans here)
        refine comparison.ofBind rest fun result leads => comparison.ofPure ?_
        cases result with
        | ok pair => exact Cursor.LeadsTo.trans after leads
        | error reject => exact Cursor.LeadsTo.trans after leads

theorem evalAll_related : ∀ (rules : List Rule) (cursor : Cursor), cursor.text = text →
    comparison.related (fun outcomes => ∀ outcome ∈ outcomes, Outcome.After cursor outcome)
      (evalAll ⟨lexicon, ignore, apply⟩ rules cursor)
      (evalAll ⟨lexicon, ignore, apply'⟩ rules cursor)
  | [], _, _ => comparison.ofPure nofun
  | rule :: more, cursor, here =>
      comparison.ofBind (eval_related rule cursor here) fun _ after =>
        comparison.ofBind (evalAll_related more cursor here) fun _ rest =>
          comparison.ofPure (List.forall_mem_cons.mpr ⟨after, rest⟩)

theorem evalOrdered_related : ∀ (rules : List Rule) (cursor : Cursor)
    (ambiguity : Option Reject), cursor.text = text →
    (∀ reject ∈ ambiguity, cursor.LeadsTo reject.cursor) →
    comparison.related (Outcome.After cursor)
      (evalOrdered ⟨lexicon, ignore, apply⟩ rules cursor ambiguity)
      (evalOrdered ⟨lexicon, ignore, apply'⟩ rules cursor ambiguity)
  | [], cursor, ambiguity, _, known => by
      refine comparison.ofPure ?_
      cases ambiguity with
      | none => exact .refl cursor
      | some reject => exact known reject rfl
  | rule :: more, cursor, ambiguity, here, known => by
      refine comparison.ofBind (eval_related rule cursor here) fun outcome after => ?_
      cases outcome with
      | ok found => exact comparison.ofPure after
      | error reject =>
        refine evalOrdered_related more cursor _ here fun other found => ?_
        cases ambiguity with
        | some first => exact known other found
        | none =>
          dsimp only [Option.or] at found
          split at found
          · cases found
            exact after
          · cases found

end

end Rule

end Packrat
