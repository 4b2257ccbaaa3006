import Packrat.Proofs.Memoization

/-! # Which bodies are evaluated

`Grammar.applyTraced` applies productions with the table and besides writes down every application
that is asked for and every body that is evaluated. Without what it writes down it is the
application with the table (`Environment.Reaches.traced`), so the trace of calls on an
environment tells what happened in them.
-/

namespace Packrat

/-- The applications that were asked for and the bodies that were evaluated, by the name of the
production and the offset, the last first. -/
structure Trace where
  asked : List (String × Nat)
  evaluated : List (String × Nat)

namespace Trace

/-- Nothing asked for yet. -/
def empty : Trace := ⟨[], []⟩

/-- Writes down that an application is asked for. -/
def ask (trace : Trace) (name : String) (offset : Nat) : Trace :=
  { trace with asked := (name, offset) :: trace.asked }

/-- Writes down that the body of a production is evaluated. -/
def evaluate (trace : Trace) (name : String) (offset : Nat) : Trace :=
  { trace with evaluated := (name, offset) :: trace.evaluated }

/-- The number of applications asked for of productions that the grammar has. -/
def applications (trace : Trace) (grammar : Grammar) : Nat :=
  trace.asked.countP fun site => grammar.productions.contains site.1

end Trace

/-- A computation that uses the table and writes down what happens. -/
abbrev Traced := StateT Trace Memoized

namespace Traced

/-- Reading the table leaves it and the trace. -/
theorem run_getMemo (trace : Trace) (memo : Memo) :
    ((getThe Memo : Traced Memo).run trace).run memo = some ((memo, trace), memo) := rfl

/-- Changing the table leaves the trace. -/
theorem run_modifyMemo (change : Memo → Memo) (trace : Trace) (memo : Memo) :
    ((modifyThe Memo change : Traced PUnit).run trace).run memo =
      some ((⟨⟩, trace), change memo) := rfl

end Traced

namespace Grammar

/-- Applies a production with applications nested at most `depth` deep, unless the table has the
outcome, and writes down what happens. -/
def applyTraced (grammar : Grammar) : Nat → String → Cursor → Traced (Option Outcome)
  | 0, _, _ => failure
  | depth + 1, name, cursor => do
      modify (·.ask name cursor.offset)
      match grammar.productions.find? name with
      | none => return none
      | some rule =>
          match (← getThe Memo).outcome? name cursor.offset with
          | some outcome =>
              modifyThe Memo Memo.hit
              return some outcome
          | none =>
              modifyThe Memo Memo.miss
              modify (·.evaluate name cursor.offset)
              let outcome ← rule.eval
                ⟨grammar.lexicon, grammar.ignore, grammar.applyTraced depth⟩ cursor
              modifyThe Memo (·.store name cursor.offset outcome)
              return some outcome

variable {grammar : Grammar} {depth : Nat} {name : String} {cursor : Cursor} {rule : Rule}
  {trace : Trace} {memo : Memo}

/-- The run of an application of a production that the grammar does not have. -/
theorem applyTraced_missing (missing : grammar.productions.find? name = none) :
    ((grammar.applyTraced (depth + 1) name cursor).run trace).run memo =
      some ((none, trace.ask name cursor.offset), memo) := by
  simp only [applyTraced, missing]
  rfl

/-- The run of an application whose outcome the table has. -/
theorem applyTraced_hit {outcome : Outcome} (defined : grammar.productions.find? name = some rule)
    (stored : memo.outcome? name cursor.offset = some outcome) :
    ((grammar.applyTraced (depth + 1) name cursor).run trace).run memo =
      some ((some outcome, trace.ask name cursor.offset), memo.hit) := by
  simp only [applyTraced, defined, StateT.run_bind, StateT.run_modify, pure_bind,
    Traced.run_getMemo, Option.bind_eq_bind, Option.bind_some, stored, Traced.run_modifyMemo]
  rfl

/-- The run of an application whose outcome the table does not have. -/
theorem applyTraced_miss (defined : grammar.productions.find? name = some rule)
    (absent : memo.outcome? name cursor.offset = none) :
    ((grammar.applyTraced (depth + 1) name cursor).run trace).run memo =
      (((rule.eval ⟨grammar.lexicon, grammar.ignore, grammar.applyTraced depth⟩ cursor).run
        ((trace.ask name cursor.offset).evaluate name cursor.offset)).run memo.miss).map
          fun ((outcome, trace'), memo') =>
            ((some outcome, trace'), memo'.store name cursor.offset outcome) := by
  simp only [applyTraced, defined, StateT.run_bind, StateT.run_modify, pure_bind,
    Traced.run_getMemo, Option.bind_eq_bind, Option.bind_some, absent, Traced.run_modifyMemo]
  cases ((rule.eval ⟨grammar.lexicon, grammar.ignore, grammar.applyTraced depth⟩ cursor).run
    ((trace.ask name cursor.offset).evaluate name cursor.offset)).run memo.miss <;> rfl

end Grammar

namespace Comparison

/-- The first computation is the second but for what it writes down, and the table stays
sound. -/
def erasing (grammar : Grammar) (text : Text) : Comparison Traced Memoized where
  related post first second := ∀ memo : Memo, memo.Sound grammar text → ∀ trace : Trace,
    (((first.run trace).run memo).map fun ((result, _), memo') => (result, memo')) =
        second.run memo ∧
      ∀ result memo', second.run memo = some (result, memo') →
        post result ∧ memo'.Sound grammar text
  ofPure holds memo sound trace := by
    refine ⟨rfl, fun result memo' ran => ?_⟩
    cases ran
    exact ⟨holds, sound⟩
  ofBind {α β post last first second next next'} related following memo sound trace := by
    obtain ⟨erased, holds⟩ := related memo sound trace
    rw [StateT.run_bind, StateT.run_bind, StateT.run_bind, ← erased]
    rw [← erased] at holds
    cases ran : (first.run trace).run memo with
    | none =>
      refine ⟨rfl, fun result memo' ran => ?_⟩
      cases ran
    | some state =>
      obtain ⟨⟨middle, trace'⟩, memo'⟩ := state
      obtain ⟨between, sound'⟩ := holds middle memo' (by rw [ran]; rfl)
      exact following middle between memo' sound' trace'

end Comparison

namespace Grammar

variable {grammar : Grammar} {text : Text}

/-- An application is the same with and without writing down what happens. -/
theorem applyTraced_erases (depth : Nat) (name : String) (cursor : Cursor)
    (here : cursor.text = text) :
    (Comparison.erasing grammar text).related
      (fun result => ∀ outcome ∈ result, Outcome.After cursor outcome)
      (grammar.applyTraced depth name cursor) (grammar.applyMemoized depth name cursor) := by
  induction depth generalizing name cursor with
  | zero =>
    intro memo sound trace
    refine ⟨rfl, fun result memo' ran => ?_⟩
    cases ran
  | succ depth ih =>
    intro memo sound trace
    refine ⟨?_, fun result memo' ran =>
      (applyMemoized_direct _ name cursor here memo sound result memo' ran).2⟩
    cases defined : grammar.productions.find? name with
    | none =>
      rw [applyTraced_missing defined, applyMemoized, defined]
      rfl
    | some rule =>
      cases stored : memo.outcome? name cursor.offset with
      | some outcome =>
        rw [applyTraced_hit defined stored, applyMemoized_hit defined stored]
        rfl
      | none =>
        rw [applyTraced_miss defined stored, applyMemoized_miss defined stored]
        have erased := (@Rule.eval_related _ _ _ _ (Comparison.erasing grammar text) text
          grammar.lexicon grammar.ignore _ _ ih rule cursor here memo.miss sound.miss
          ((trace.ask name cursor.offset).evaluate name cursor.offset)).1
        rw [← erased, Option.map_map, Option.map_map]
        rfl

end Grammar

namespace Environment

/-- Makes calls on an environment one after the other and writes down what happens. -/
def traced? (environment : Environment) : List Call → Trace → Option (Trace × Environment)
  | [], trace => some (trace, environment)
  | call :: calls, trace => do
      let grammar := environment.grammar
      let ((_, trace), memo) ← ((call.make ⟨grammar.lexicon, grammar.ignore,
        grammar.applyTraced (grammar.depthLimit call.cursor.text.length)⟩).run trace).run
          environment.memo
      traced? { environment with memo } calls trace

/-- What calls lead to they lead to while one writes down what happens. -/
theorem Reaches.traced {environment last : Environment} {calls : List Call} {text : Text}
    (reaches : Reaches environment calls last)
    (texts : ∀ call ∈ calls, call.cursor.text = text)
    (sound : environment.memo.Sound environment.grammar text) (trace : Trace) :
    ∃ trace', environment.traced? calls trace = some (trace', last) := by
  induction reaches generalizing trace with
  | nil environment => exact ⟨trace, rfl⟩
  | @cons environment next last call calls result made rest ih =>
    obtain ⟨here, texts⟩ := List.forall_mem_cons.mp texts
    rw [Call.on?_eq] at made
    obtain ⟨⟨result, memo⟩, ran, same⟩ := Option.map_eq_some_iff.mp made
    cases same
    obtain ⟨erased, holds⟩ := Call.make_related (Comparison.erasing environment.grammar text)
      (Grammar.applyTraced_erases _) call here environment.memo sound trace
    rw [ran] at erased
    obtain ⟨⟨⟨result, trace'⟩, memo'⟩, ran', same⟩ := Option.map_eq_some_iff.mp erased
    cases same
    obtain ⟨last', traced⟩ := ih texts (holds _ _ ran).2 trace'
    exact ⟨last', Option.bind_eq_some_iff.mpr ⟨_, ran', traced⟩⟩

end Environment

end Packrat
