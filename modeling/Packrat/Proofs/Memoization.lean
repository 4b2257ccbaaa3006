import Packrat.Grammar.Environment
import Packrat.Proofs.Depth

/-! # The table never changes an outcome

An environment answers calls that apply productions and rules at places of one text. After any
calls its table holds only what applications without a table give (`Memo.Sound`), also where the
entry was made for an alternative or a lookahead that was given up. Every further call therefore
ends exactly when it ends without a table, with the same outcome.
-/

namespace Packrat

/-- Every outcome in the table is the one that its production has at that place of the text when
it is applied without a table. -/
def Memo.Sound (grammar : Grammar) (text : Text) (memo : Memo) : Prop :=
  ∀ name cursor outcome, cursor.text = text → memo.outcome? name cursor.offset = some outcome →
    grammar.applyAt? name cursor = some (some outcome)

namespace Memo.Sound

variable {grammar : Grammar} {text : Text} {memo : Memo}

theorem empty (grammar : Grammar) (text : Text) : Memo.empty.Sound grammar text := by
  intro name cursor outcome _ found
  simp [Memo.outcome?, Memo.empty] at found

theorem hit (sound : memo.Sound grammar text) : memo.hit.Sound grammar text := sound

theorem miss (sound : memo.Sound grammar text) : memo.miss.Sound grammar text := sound

/-- Storing what an application gives keeps the table sound, because no other place of the text
has the offset. -/
theorem store (sound : memo.Sound grammar text) {name : String} {cursor : Cursor}
    {outcome : Outcome} (here : cursor.text = text)
    (applied : grammar.applyAt? name cursor = some (some outcome)) :
    (memo.store name cursor.offset outcome).Sound grammar text := by
  intro other place found there stored
  rw [Memo.outcome?_store] at stored
  split at stored
  · rename_i same
    obtain ⟨rfl, offset⟩ := Prod.mk.inj same
    cases stored
    exact Cursor.eq_of_offset (here.trans there.symm) offset ▸ applied
  · exact sound other place found there stored

end Memo.Sound

namespace Comparison

/-- What ends with a sound table ends without one, with the same result, and leaves the table
sound. -/
def tableToDirect (grammar : Grammar) (text : Text) : Comparison Memoized Option where
  related post first second := ∀ memo : Memo, memo.Sound grammar text → ∀ result memo',
    first.run memo = some (result, memo') →
      second = some result ∧ post result ∧ memo'.Sound grammar text
  ofPure holds memo sound result memo' ran := by
    cases ran
    exact ⟨rfl, holds, sound⟩
  ofBind related next memo sound result memo' ran := by
    obtain ⟨⟨middle, between⟩, first, ran⟩ := Option.bind_eq_some_iff.mp ran
    obtain ⟨rfl, holds, sound⟩ := related memo sound middle between first
    exact next middle holds between sound result memo' ran

/-- What ends without a table ends with a sound one, with the same result, and leaves the table
sound. -/
def directToTable (grammar : Grammar) (text : Text) : Comparison Memoized Option where
  related post first second := ∀ memo : Memo, memo.Sound grammar text → ∀ result,
    second = some result →
      post result ∧ ∃ memo', first.run memo = some (result, memo') ∧ memo'.Sound grammar text
  ofPure holds memo sound result ended := by
    cases ended
    exact ⟨holds, memo, rfl, sound⟩
  ofBind related next memo sound result ended := by
    obtain ⟨middle, first, ended⟩ := Option.bind_eq_some_iff.mp ended
    obtain ⟨holds, between, ran, sound⟩ := related memo sound middle first
    obtain ⟨last, memo', ran', sound⟩ := next middle holds between sound result ended
    exact ⟨last, memo', Option.bind_eq_some_iff.mpr ⟨_, ran, ran'⟩, sound⟩

end Comparison

namespace Grammar

variable {grammar : Grammar} {text : Text}

/-- The run of an application whose outcome the table has. -/
theorem applyMemoized_hit {depth : Nat} {name : String} {cursor : Cursor} {rule : Rule}
    {memo : Memo} {outcome : Outcome} (defined : grammar.productions.find? name = some rule)
    (stored : memo.outcome? name cursor.offset = some outcome) :
    (grammar.applyMemoized (depth + 1) name cursor).run memo =
      some (some outcome, memo.hit) := by
  simp only [applyMemoized, defined, StateT.run_bind, StateT.run_get, pure_bind, stored]
  rfl

/-- The run of an application whose outcome the table does not have. -/
theorem applyMemoized_miss {depth : Nat} {name : String} {cursor : Cursor} {rule : Rule}
    {memo : Memo} (defined : grammar.productions.find? name = some rule)
    (absent : memo.outcome? name cursor.offset = none) :
    (grammar.applyMemoized (depth + 1) name cursor).run memo =
      ((rule.eval ⟨grammar.lexicon, grammar.ignore, grammar.applyMemoized depth⟩ cursor).run
        memo.miss).map fun (outcome, memo') =>
          (some outcome, memo'.store name cursor.offset outcome) := by
  simp only [applyMemoized, defined, StateT.run_bind, StateT.run_get, pure_bind, absent,
    StateT.run_modify, StateT.run_pure]
  cases (rule.eval ⟨grammar.lexicon, grammar.ignore, grammar.applyMemoized depth⟩ cursor).run
    memo.miss <;> rfl

/-- An application that ends with a sound table ends without one. -/
theorem applyMemoized_direct (depth : Nat) (name : String) (cursor : Cursor)
    (here : cursor.text = text) :
    (Comparison.tableToDirect grammar text).related
      (fun result => ∀ outcome ∈ result, Outcome.After cursor outcome)
      (grammar.applyMemoized depth name cursor) (grammar.applyAt? name cursor) := by
  induction depth generalizing name cursor with
  | zero => exact fun _ _ _ _ ran => nomatch ran
  | succ depth ih =>
    intro memo sound result memo' ran
    suffices ended : grammar.applyAt? name cursor = some result ∧ memo'.Sound grammar text from
      ⟨ended.1, applyAt?_after ended.1, ended.2⟩
    cases defined : grammar.productions.find? name with
    | none =>
      rw [applyMemoized, defined] at ran
      cases ran
      exact ⟨by rw [applyAt?_eq, defined], sound⟩
    | some rule =>
      cases stored : memo.outcome? name cursor.offset with
      | some outcome =>
        rw [applyMemoized_hit defined stored] at ran
        cases ran
        exact ⟨sound name cursor outcome here stored, sound.hit⟩
      | none =>
        rw [applyMemoized_miss defined stored] at ran
        obtain ⟨⟨outcome, between⟩, evaluated, same⟩ := Option.map_eq_some_iff.mp ran
        cases same
        have related := Rule.eval_related (Comparison.tableToDirect grammar text) ih rule cursor
          here memo.miss sound.miss outcome between evaluated
        have applied : grammar.applyAt? name cursor = some (some outcome) := by
          rw [applyAt?_eq, defined]
          exact congrArg (Option.map some) related.1
        exact ⟨applied, related.2.2.store here applied⟩

/-- An application that ends without a table ends with a sound one of the same bound. -/
theorem applyMemoized_of_direct (depth : Nat) (name : String) (cursor : Cursor)
    (here : cursor.text = text) :
    (Comparison.directToTable grammar text).related
      (fun result => ∀ outcome ∈ result, Outcome.After cursor outcome)
      (grammar.applyMemoized depth name cursor) (grammar.applyWithin? depth name cursor) := by
  induction depth generalizing name cursor with
  | zero => exact fun _ _ _ ended => nomatch ended
  | succ depth ih =>
    intro memo sound result ended
    refine ⟨(applyWithin?_succ _ _ _ _ ended).2, ?_⟩
    have applied := applyAt?_eq_some_iff.mpr ⟨_, ended⟩
    cases defined : grammar.productions.find? name with
    | none =>
      rw [applyWithin?, defined] at ended
      cases ended
      rw [applyMemoized, defined]
      exact ⟨memo, rfl, sound⟩
    | some rule =>
      cases stored : memo.outcome? name cursor.offset with
      | some outcome =>
        have same := applied.symm.trans (sound name cursor outcome here stored)
        cases same
        exact ⟨_, applyMemoized_hit defined stored, sound.hit⟩
      | none =>
        rw [applyWithin?, defined] at ended
        obtain ⟨outcome, evaluated, rfl⟩ := Option.map_eq_some_iff.mp ended
        obtain ⟨-, memo', ran, sound⟩ := Rule.eval_related
          (Comparison.directToTable grammar text) ih rule cursor here memo.miss sound.miss
          outcome evaluated
        rw [applyMemoized_miss defined stored, ran]
        exact ⟨_, rfl, sound.store here applied⟩

end Grammar

/-- A call on an environment: the application of a production or of a rule at a place. -/
inductive Call where
  | apply (name : String) (cursor : Cursor)
  | parse (rule : Rule) (cursor : Cursor)

namespace Call

/-- Where the call is made. -/
def cursor : Call → Cursor
  | .apply _ cursor | .parse _ cursor => cursor

/-- Makes a call with the given applications of productions. -/
def make {m : Type → Type} [Monad m] (setting : Setting m) : Call → m (Option Outcome)
  | .apply name cursor => setting.apply name cursor
  | .parse rule cursor => return some (← rule.eval setting cursor)

/-- Makes a call without a table, with applications nested at most `depth` deep. -/
def within? (call : Call) (grammar : Grammar) (depth : Nat) : Option (Option Outcome) :=
  call.make ⟨grammar.lexicon, grammar.ignore, grammar.applyWithin? depth⟩

/-- Makes a call with the table of an environment and applications nested at most `depth`
deep. -/
def memoized? (call : Call) (environment : Environment) (depth : Nat) :
    Option (Option Outcome × Environment) :=
  environment.run (call.make ⟨environment.grammar.lexicon, environment.grammar.ignore,
    environment.grammar.applyMemoized depth⟩)

/-- Makes a call without a table. -/
def direct? (call : Call) (grammar : Grammar) : Option (Option Outcome) :=
  match call with
  | .apply name cursor => grammar.applyAt? name cursor
  | .parse rule cursor => (grammar.evalAt? rule cursor).map some

/-- Makes a call on an environment. -/
def on? (call : Call) (environment : Environment) : Option (Option Outcome × Environment) :=
  match call with
  | .apply name cursor => environment.applyAt? name cursor
  | .parse rule cursor =>
      (environment.evalAt? rule cursor).map fun (outcome, after) => (some outcome, after)

theorem on?_eq (call : Call) (environment : Environment) :
    call.on? environment =
      call.memoized? environment (environment.grammar.depthLimit call.cursor.text.length) := by
  cases call with
  | apply name cursor => rfl
  | parse rule cursor =>
    simp only [on?, Environment.evalAt?, memoized?, Environment.run, make, Call.cursor]
    simp only [StateT.run, bind, StateT.bind]
    cases rule.eval ⟨environment.grammar.lexicon, environment.grammar.ignore,
      environment.grammar.applyMemoized (environment.grammar.depthLimit cursor.text.length)⟩
      cursor environment.memo <;> rfl

theorem direct?_eq_within? (call : Call) (grammar : Grammar) :
    call.direct? grammar =
      call.within? grammar (grammar.depthLimit call.cursor.text.length) := by
  cases call with
  | apply name cursor => rfl
  | parse rule cursor =>
    simp only [direct?, Grammar.evalAt?, within?, make, Call.cursor]
    cases rule.eval ⟨grammar.lexicon, grammar.ignore,
      grammar.applyWithin? (grammar.depthLimit cursor.text.length)⟩ cursor <;> rfl

theorem direct?_eq (call : Call) (grammar : Grammar) :
    call.direct? grammar = call.make grammar.direct := by
  cases call with
  | apply name cursor => rfl
  | parse rule cursor =>
    simp only [direct?, make, Grammar.evalAt?_eq]
    cases rule.eval grammar.direct cursor <;> rfl

/-- A call is related like the applications of productions are. -/
theorem make_related {m n : Type → Type} [Monad m] [Monad n] (comparison : Comparison m n)
    {text : Text} {lexicon : Lexicon} {ignore : List LexRule}
    {apply : String → Cursor → m (Option Outcome)} {apply' : String → Cursor → n (Option Outcome)}
    (applied : ∀ name cursor, cursor.text = text →
      comparison.related (fun result => ∀ outcome ∈ result, Outcome.After cursor outcome)
        (apply name cursor) (apply' name cursor))
    (call : Call) (here : call.cursor.text = text) :
    comparison.related (fun result => ∀ outcome ∈ result, Outcome.After call.cursor outcome)
      (call.make ⟨lexicon, ignore, apply⟩) (call.make ⟨lexicon, ignore, apply'⟩) := by
  cases call with
  | apply name cursor => exact applied name cursor here
  | parse rule cursor =>
    refine comparison.ofBind (Rule.eval_related comparison applied rule cursor here)
      fun outcome after => comparison.ofPure ?_
    rintro other ⟨⟩
    exact after

end Call

namespace Environment

/-- The environment is reached from the first by the calls, all of which end. -/
inductive Reaches : Environment → List Call → Environment → Prop
  | nil (environment : Environment) : Reaches environment [] environment
  | cons {environment next last : Environment} {call : Call} {calls : List Call}
      {result : Option Outcome} (made : call.on? environment = some (result, next))
      (rest : Reaches next calls last) : Reaches environment (call :: calls) last

variable {environment next : Environment} {call : Call} {text : Text} {result : Option Outcome}

/-- A call that ends with a sound table ends without one and leaves the table sound. -/
theorem direct?_of_memoized? (sound : environment.memo.Sound environment.grammar text)
    (here : call.cursor.text = text) {depth : Nat}
    (made : call.memoized? environment depth = some (result, next)) :
    call.direct? environment.grammar = some result ∧ next.grammar = environment.grammar ∧
      next.memo.Sound environment.grammar text := by
  obtain ⟨⟨result, memo⟩, ran, same⟩ := Option.map_eq_some_iff.mp made
  cases same
  have related := Call.make_related (Comparison.tableToDirect environment.grammar text)
    (Grammar.applyMemoized_direct depth) call here environment.memo sound result memo ran
  exact ⟨(call.direct?_eq _).trans related.1, rfl, related.2.2⟩

/-- A call that ends without a table ends with a sound one. -/
theorem memoized?_of_within? (sound : environment.memo.Sound environment.grammar text)
    (here : call.cursor.text = text) {depth : Nat}
    (ended : call.within? environment.grammar depth = some result) :
    ∃ next, call.memoized? environment depth = some (result, next) := by
  obtain ⟨-, memo, ran, -⟩ := Call.make_related
    (Comparison.directToTable environment.grammar text)
    (Grammar.applyMemoized_of_direct depth) call here environment.memo sound result ended
  exact ⟨⟨environment.grammar, memo⟩, Option.map_eq_some_iff.mpr ⟨_, ran, rfl⟩⟩

/-- Calls at places of a text keep the table of an environment sound. -/
theorem Reaches.sound {last : Environment} {calls : List Call}
    (reaches : Reaches environment calls last)
    (texts : ∀ call ∈ calls, call.cursor.text = text)
    (sound : environment.memo.Sound environment.grammar text) :
    last.grammar = environment.grammar ∧ last.memo.Sound environment.grammar text := by
  induction reaches with
  | nil => exact ⟨rfl, sound⟩
  | @cons environment next last call calls result made rest ih =>
    obtain ⟨here, texts⟩ := List.forall_mem_cons.mp texts
    obtain ⟨-, grammar, sound⟩ := direct?_of_memoized? sound here (call.on?_eq _ ▸ made)
    exact grammar ▸ ih texts (grammar ▸ sound)

end Environment

namespace Call

variable {grammar : Grammar} {text : Text} {call : Call}

/-- A call without a table ends exactly when it does within some bound. -/
theorem direct?_eq_some_iff {result : Option Outcome} :
    call.direct? grammar = some result ↔ ∃ depth, call.within? grammar depth = some result := by
  constructor
  · exact fun ended => ⟨_, direct?_eq_within? call grammar ▸ ended⟩
  · rintro ⟨depth, ended⟩
    rw [direct?_eq]
    refine (make_related Comparison.extending (fun name cursor _ result ended => ?_) call rfl
      result ended).1
    have applied := Grammar.applyAt?_eq_some_iff.mpr ⟨depth, ended⟩
    exact ⟨applied, Grammar.applyAt?_after applied⟩

/-- With a sound table a call ends exactly when it does without, with the same result. -/
theorem memoized?_iff {environment : Environment} {result : Option Outcome}
    (sound : environment.memo.Sound environment.grammar text) (here : call.cursor.text = text) :
    (∃ depth next, call.memoized? environment depth = some (result, next)) ↔
      call.direct? environment.grammar = some result := by
  constructor
  · rintro ⟨depth, next, made⟩
    exact (Environment.direct?_of_memoized? sound here made).1
  · intro ended
    obtain ⟨depth, ended⟩ := direct?_eq_some_iff.mp ended
    exact ⟨depth, Environment.memoized?_of_within? sound here ended⟩

/-- On a sound table a call has the result that it has without a table. -/
theorem map_on? {environment : Environment}
    (sound : environment.memo.Sound environment.grammar text) (here : call.cursor.text = text) :
    (call.on? environment).map Prod.fst = call.direct? environment.grammar := by
  cases made : call.on? environment with
  | some pair =>
    exact (Environment.direct?_of_memoized? sound here (call.on?_eq _ ▸ made)).1.symm
  | none =>
    cases ended : call.direct? environment.grammar with
    | none => rfl
    | some result =>
      rw [direct?_eq_within?] at ended
      obtain ⟨next, ran⟩ := Environment.memoized?_of_within? sound here ended
      rw [on?_eq, ran] at made
      cases made

end Call

namespace Environment

/-- Calls that end without a table can be made one after the other on an environment. -/
theorem exists_reaches {text : Text} {environment : Environment} {calls : List Call}
    (sound : environment.memo.Sound environment.grammar text)
    (texts : ∀ call ∈ calls, call.cursor.text = text)
    (ended : ∀ call ∈ calls, (call.direct? environment.grammar).isSome) :
    ∃ last, environment.Reaches calls last := by
  induction calls generalizing environment with
  | nil => exact ⟨environment, .nil environment⟩
  | cons call calls ih =>
    obtain ⟨here, texts⟩ := List.forall_mem_cons.mp texts
    obtain ⟨ends, ended⟩ := List.forall_mem_cons.mp ended
    obtain ⟨result, direct⟩ := Option.isSome_iff_exists.mp ends
    obtain ⟨⟨result, next⟩, made, -⟩ :=
      Option.map_eq_some_iff.mp ((Call.map_on? sound here).trans direct)
    obtain ⟨-, same, sound⟩ := direct?_of_memoized? sound here (call.on?_eq _ ▸ made)
    obtain ⟨last, rest⟩ := ih (same ▸ sound) texts (same ▸ ended)
    exact ⟨last, .cons made rest⟩

/-- In an environment that calls at places of the text have led to, a call has the result that it
has without a table. -/
theorem Reaches.map_on? {grammar : Grammar} {text : Text} {history : List Call}
    {environment : Environment} (reached : (start grammar).Reaches history environment)
    (texts : ∀ call ∈ history, call.cursor.text = text) (call : Call)
    (here : call.cursor.text = text) :
    (call.on? environment).map Prod.fst = call.direct? grammar := by
  obtain ⟨same, sound⟩ := reached.sound texts (.empty grammar text)
  change environment.grammar = grammar at same
  change environment.memo.Sound grammar text at sound
  subst same
  exact Call.map_on? sound here

/-- In such an environment a rule has the outcome that it has without a table. -/
theorem Reaches.map_evalAt? {grammar : Grammar} {text : Text} {history : List Call}
    {environment : Environment} (reached : (start grammar).Reaches history environment)
    (texts : ∀ call ∈ history, call.cursor.text = text) (rule : Rule) {cursor : Cursor}
    (here : cursor.text = text) :
    (environment.evalAt? rule cursor).map Prod.fst = grammar.evalAt? rule cursor := by
  have unaffected := reached.map_on? texts (.parse rule cursor) here
  rw [Call.on?, Option.map_map] at unaffected
  refine Option.map_injective (Option.some_injective _) ?_
  rw [Option.map_map]
  exact unaffected

end Environment

namespace Call

/-- After any calls on an environment that ended, at any places of one text and in any order, a
further call has the result that it has on a fresh environment and without a table, and it ends
with the table exactly when it ends without, however deep applications may be nested. -/
theorem result_unaffected_by_table (grammar : Grammar) (text : Text) (history : List Call)
    (texts : ∀ call ∈ history, call.cursor.text = text) (environment : Environment)
    (reached : (Environment.start grammar).Reaches history environment) (call : Call)
    (here : call.cursor.text = text) :
    (call.on? environment).map Prod.fst = call.direct? grammar ∧
      (call.on? (Environment.start grammar)).map Prod.fst = call.direct? grammar ∧
      ∀ result,
        ((∃ depth next, call.memoized? environment depth = some (result, next)) ↔
          ∃ depth, call.within? grammar depth = some result) ∧
        (call.direct? grammar = some result ↔
          ∃ depth, call.within? grammar depth = some result) := by
  have fresh : (Environment.start grammar).memo.Sound grammar text := .empty grammar text
  obtain ⟨same, sound⟩ := reached.sound texts fresh
  change environment.grammar = grammar at same
  change environment.memo.Sound grammar text at sound
  subst same
  refine ⟨map_on? sound here, map_on? fresh here, fun result => ⟨?_, direct?_eq_some_iff⟩⟩
  rw [memoized?_iff sound here]
  exact direct?_eq_some_iff

/-- A lookahead at the first character of `xx` fills the table for the second, where the reference
is then answered from it. -/
theorem result_unaffected_by_table_after_lookahead :
    let rule : Rule := .ordered [.sequence [.text "x", .reference "run"], .text "x"]
    let grammar : Grammar := ⟨.ofList [("run", rule)], .empty, []⟩
    let early : Call := .parse (.ahead (.reference "run")) (.start ['x', 'x'])
    let late : Call := .apply "run" ((Cursor.start ['x', 'x']).forward 1)
    ∃ environment, (Environment.start grammar).Reaches [early] environment ∧
      (late.on? environment).map Prod.fst = late.direct? grammar ∧
      (late.direct? grammar).isSome := by
  intro rule grammar early late
  obtain ⟨result, ended⟩ := Option.isSome_iff_exists.mp
    (show (early.direct? grammar).isSome by decide +kernel)
  have early_on : (early.on? (.start grammar)).map Prod.fst = early.direct? grammar :=
    map_on? (.empty grammar ['x', 'x']) rfl
  obtain ⟨⟨result, environment⟩, made, -⟩ := Option.map_eq_some_iff.mp (early_on.trans ended)
  have reached : (Environment.start grammar).Reaches [early] environment := .cons made (.nil _)
  have texts : ∀ call ∈ [early], call.cursor.text = ['x', 'x'] := by
    simp [early, cursor]
  exact ⟨environment, reached, (result_unaffected_by_table grammar ['x', 'x'] [early] texts
    environment reached late rfl).1, by decide +kernel⟩

end Call

end Packrat
