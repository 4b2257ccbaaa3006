import Packrat.Proofs.Memoization
import Packrat.Proofs.Termination

/-! # Repetitions as plain loops

A repetition is meant to apply its rule again and again, each time where the match before ends
(`Successive`). It does so without following a match of nothing, which would come again for ever,
and puts in copies of its tree instead. `Repeated.plain` says that the rounds are those of the loop
all the same and why they end, and `Environment.Reaches.repetition_plain` what that makes of the
repetition, whatever the table of the environment holds.
-/

namespace Packrat

/-- Matches one after the other, each where the one before ends, with their trees. -/
inductive Successive (holds : Cursor → Outcome → Prop) : Cursor → List Tree → Cursor → Prop where
  | nil {cursor} : Successive holds cursor [] cursor
  | cons {cursor found nodes last} (here : holds cursor (.ok found))
      (rest : Successive holds found.cursor nodes last) :
      Successive holds cursor (found.node :: nodes) last

/-- Why matches from a cursor on are not followed by one more. -/
inductive Stops (holds : Cursor → Outcome → Prop) (max : Option Nat) (cursor : Cursor) :
    List Tree → Cursor → Prop where
  | rejected {nodes last reject} (here : holds last (.error reject)) :
      Stops holds max cursor nodes last
  /-- The last match begins where it ends. -/
  | still {nodes node last} (before : Successive holds cursor nodes last)
      (here : holds last (.ok ⟨last, node⟩)) : Stops holds max cursor (nodes ++ [node]) last
  | full {nodes last} (many : max = some nodes.length) : Stops holds max cursor nodes last

namespace Successive

variable {holds : Cursor → Outcome → Prop} {cursor middle last last' : Cursor}
  {nodes nodes' : List Tree}

theorem append (first : Successive holds cursor nodes middle)
    (second : Successive holds middle nodes' last) :
    Successive holds cursor (nodes ++ nodes') last := by
  induction first with
  | nil => exact second
  | cons here _ ih => exact .cons here (ih second)

/-- A match of nothing can be followed by itself any number of times. -/
theorem replicate {node : Tree} (here : holds cursor (.ok ⟨cursor, node⟩)) (count : Nat) :
    Successive holds cursor (List.replicate count node) cursor := by
  induction count with
  | zero => exact .nil
  | succ count ih => exact .cons here ih

/-- The first of successive matches are successive. -/
theorem take (successive : Successive holds cursor nodes last) (count : Nat) :
    ∃ middle, Successive holds cursor (nodes.take count) middle := by
  induction successive generalizing count with
  | @nil place =>
    rw [List.take_nil]
    exact ⟨place, .nil⟩
  | cons here _ ih =>
    cases count with
    | zero => exact ⟨_, .nil⟩
    | succ count =>
      obtain ⟨middle, first⟩ := ih count
      exact ⟨middle, .cons here first⟩

variable (functional : ∀ place outcome outcome', holds place outcome → holds place outcome' →
  outcome = outcome')

include functional

/-- Where a rule has one outcome at each place, as many successive matches end at one place. -/
theorem last_unique (first : Successive holds cursor nodes last)
    (second : Successive holds cursor nodes' last') (long : nodes.length = nodes'.length) :
    last = last' := by
  induction first generalizing nodes' with
  | nil =>
    cases second with
    | nil => rfl
    | cons => cases long
  | cons here _ ih =>
    cases second with
    | nil => cases long
    | cons here' rest =>
      obtain rfl := Except.ok.inj (functional _ _ _ here here')
      exact ih rest (Nat.succ.inj long)

/-- No more matches are successive than there are up to a reject. -/
theorem length_le_of_rejected {reject : Reject} (first : Successive holds cursor nodes last)
    (rejected : holds last (.error reject)) (second : Successive holds cursor nodes' last') :
    nodes'.length ≤ nodes.length := by
  induction first generalizing nodes' with
  | nil =>
    cases second with
    | nil => exact Nat.le_refl 0
    | cons here => cases functional _ _ _ rejected here
  | cons here _ ih =>
    cases second with
    | nil => exact Nat.zero_le _
    | cons here' rest =>
      obtain rfl := Except.ok.inj (functional _ _ _ here here')
      exact Nat.succ_le_succ (ih rejected rest)

end Successive

/-- What can be said of rounds that started at a cursor: they are successive, no more than allowed,
and they end at a reject, or there are enough of them and a reason to stop. -/
structure Rounds.Plain (holds : Cursor → Outcome → Prop) (min : Nat) (max : Option Nat)
    (cursor : Cursor) (rounds : Rounds) : Prop where
  successive : Successive holds cursor rounds.nodes.reverse rounds.cursor
  fits : ∀ most ∈ max, rounds.nodes.length ≤ most
  ends : (∃ reject, rounds.failure = some reject ∧ holds rounds.cursor (.error reject)) ∨
    min ≤ rounds.nodes.length ∧ Stops holds max cursor rounds.nodes.reverse rounds.cursor

/-- With fuel for every character that is left, rounds are those of a plain loop. -/
theorem Repeated.plain {holds : Cursor → Outcome → Prop} {min fuel : Nat} {max : Option Nat}
    {nodes : List Tree} {cursor : Cursor} {rounds : Rounds}
    (repeated : Repeated holds min max fuel nodes cursor rounds)
    (onward : ∀ place found, holds place (.ok found) → place.LeadsTo found.cursor)
    (bounds : ∀ most ∈ max, min ≤ most) (enough : cursor.rest.length < fuel) {start : Cursor}
    (before : Successive holds start nodes.reverse cursor)
    (fits : ∀ most ∈ max, nodes.length ≤ most) : rounds.Plain holds min max start := by
  induction repeated with
  | spent => exact absurd enough (Nat.not_lt_zero _)
  | @full _ nodes _ many =>
    obtain ⟨most, rfl⟩ : ∃ most, max = some most := by
      cases max with
      | none => cases many
      | some most => exact ⟨most, rfl⟩
    have long : nodes.length = most := Nat.le_antisymm (fits most rfl) (by simpa using many)
    refine ⟨before, fits, .inr ⟨long ▸ bounds most rfl, .full ?_⟩⟩
    rw [List.length_reverse, long]
  | reject _ here => exact ⟨before, fits, .inl ⟨_, rfl, here⟩⟩
  | @next _ nodes _ found _ room here shorter _ ih =>
    refine ih (by omega) ?_ fun most member => ?_
    · rw [List.reverse_cons]
      exact before.append (.cons here .nil)
    · cases member
      have short : nodes.length < most := by simpa using room
      exact Nat.succ_le_of_lt short
  | @still _ nodes cursor found room here same =>
    obtain ⟨next, node⟩ := found
    -- a match that leaves as much text as there was ends where it began
    obtain rfl : next = cursor := (onward _ _ here).eq_of_length (Nat.not_lt.mp same)
    have copied : 1 ≤ Nat.max (min - nodes.length) 1 ∧
        min - nodes.length ≤ Nat.max (min - nodes.length) 1 ∧
        ∀ most ∈ max, Nat.max (min - nodes.length) 1 ≤ most - nodes.length := by
      refine ⟨Nat.le_max_right .., Nat.le_max_left .., fun most member => ?_⟩
      cases member
      have few := bounds most rfl
      have short : nodes.length < most := by simpa using room
      exact Nat.max_le.mpr ⟨by omega, by omega⟩
    generalize Nat.max (min - nodes.length) 1 = copies at copied
    obtain ⟨some, padded, few⟩ := copied
    obtain ⟨more, rfl⟩ := Nat.exists_eq_add_of_le' some
    have long : (List.replicate (more + 1) node ++ nodes).length = more + 1 + nodes.length := by
      rw [List.length_append, List.length_replicate]
    have turned : (List.replicate (more + 1) node ++ nodes).reverse =
        nodes.reverse ++ List.replicate more node ++ [node] := by
      rw [List.reverse_append, List.reverse_replicate, List.replicate_succ', List.append_assoc]
    refine ⟨?_, fun most member => ?_, .inr ⟨?_, ?_⟩⟩
    · rw [List.reverse_append, List.reverse_replicate]
      exact before.append (.replicate here _)
    · have fewer := few most member
      rw [long]
      omega
    · rw [long]
      omega
    · rw [turned]
      exact .still (before.append (.replicate here more)) here

namespace Rounds

/-- Rounds of a plain loop make a match of the repetition, unless they end too early, at a
reject. -/
theorem Plain.outcome {holds : Cursor → Outcome → Prop} {min : Nat} {max : Option Nat}
    {cursor : Cursor} {rounds : Rounds} (plain : rounds.Plain holds min max cursor)
    (rule : Rule) :
    (min ≤ rounds.nodes.length ∧ Stops holds max cursor rounds.nodes.reverse rounds.cursor ∧
      rounds.outcome cursor rule min = .ok ⟨rounds.cursor, .array rounds.nodes.reverse⟩) ∨
    (rounds.nodes.length < min ∧ ∃ reject, holds rounds.cursor (.error reject) ∧
      rounds.outcome cursor rule min = .error reject) := by
  rcases plain.ends with ⟨reject, failed, here⟩ | ⟨enough, stops⟩
  · rcases Nat.lt_or_ge rounds.nodes.length min with few | enough
    · refine .inr ⟨few, reject, here, ?_⟩
      rw [Rounds.outcome, if_pos few, failed]
      rfl
    · exact .inl ⟨enough, .rejected here, if_neg (Nat.not_lt.mpr enough)⟩
  · exact .inl ⟨enough, stops, if_neg (Nat.not_lt.mpr enough)⟩

variable {m : Type → Type} [Monad m]

/-- Applies a rule and counts the application. -/
def counted (parse : Cursor → m Outcome) (cursor : Cursor) : StateT Nat m Outcome := do
  modify (· + 1)
  parse cursor

/-- Rounds are the same with and without counting. -/
theorem read_counted [LawfulMonad m] (parse : Cursor → m Outcome) (min : Nat) (max : Option Nat)
    (fuel : Nat) (nodes : List Tree) (cursor : Cursor) (applied : Nat) :
    Prod.fst <$> (read (counted parse) min max fuel nodes cursor).run applied =
      read parse min max fuel nodes cursor := by
  induction fuel generalizing nodes cursor applied with
  | zero => simp [read]
  | succ fuel ih =>
    rw [read, read]
    split
    · simp
    · simp only [counted, bind_assoc, StateT.run_bind, StateT.run_modify, pure_bind, map_bind,
        StateT.run_monadLift, monadLift_self]
      refine bind_congr fun outcome => ?_
      cases outcome with
      | error reject => simp
      | ok found =>
        dsimp only
        split
        · exact ih (found.node :: nodes) found.cursor (applied + 1)
        · simp

/-- Every round applies the rule once at most. -/
theorem applied_le {parse : Cursor → Memoized Outcome} {min : Nat} {max : Option Nat} {fuel : Nat}
    {nodes : List Tree} {cursor : Cursor} {before after : Nat} {memo memo' : Memo}
    {rounds : Rounds}
    (ran : ((read (counted parse) min max fuel nodes cursor).run before).run memo =
      some ((rounds, after), memo')) : after ≤ before + fuel := by
  induction fuel generalizing nodes cursor before memo with
  | zero =>
    cases ran
    exact Nat.le_refl _
  | succ fuel ih =>
    rw [read] at ran
    split at ran
    · cases ran
      exact Nat.le_add_right ..
    · simp only [counted, bind_assoc, StateT.run_bind, StateT.run_modify, pure_bind,
        StateT.run_monadLift, monadLift_self] at ran
      obtain ⟨⟨outcome, between⟩, -, ran⟩ := Option.bind_eq_some_iff.mp ran
      cases outcome with
      | error reject =>
        cases ran
        omega
      | ok found =>
        dsimp only at ran
        split at ran
        · have bound := ih ran
          omega
        · cases ran
          omega

end Rounds

/-- The repetition of a rule that ends everywhere in a text ends there, and its rounds are those of
a plain loop. -/
theorem Grammar.exists_plain {grammar : Grammar} {text : Text} {rule : Rule}
    (ends : ∀ place : Cursor, place.text = text → ∃ outcome, grammar.Gives rule place outcome)
    {min : Nat} {max : Option Nat} (bounds : ∀ most ∈ max, min ≤ most) {cursor : Cursor}
    (here : cursor.text = text) :
    ∃ rounds : Rounds, rounds.Plain (grammar.Gives rule) min max cursor ∧
      grammar.Gives (.repetition rule min max) cursor (rounds.outcome cursor rule min) := by
  have parsed (place : Cursor) (inside : place.text = text) :
      ∃ outcome, rule.eval grammar.direct place = some outcome ∧
        ∀ found, outcome = .ok found → found.cursor.text = text := by
    obtain ⟨outcome, gives⟩ := ends place inside
    refine ⟨outcome, gives, ?_⟩
    rintro found rfl
    exact (show place.LeadsTo found.cursor from eval_after gives).text_eq.trans inside
  obtain ⟨rounds, read⟩ := Rounds.read_isSome parsed min max here
  obtain ⟨outcome, gives⟩ : ∃ outcome, grammar.Gives (.repetition rule min max) cursor outcome :=
    ⟨_, Option.bind_eq_some_iff.mpr ⟨rounds, read, rfl⟩⟩
  cases gives_iff.mp gives with
  | @repetition _ _ _ _ rounds repeated =>
    have onward (place : Cursor) (found : Match) (holds : grammar.Gives rule place (.ok found)) :
        place.LeadsTo found.cursor := eval_after holds
    exact ⟨rounds, repeated.plain onward bounds (Nat.lt_succ_self _) .nil
      fun _ _ => Nat.zero_le _, gives⟩

namespace Environment

/-- Applies a repetition at a cursor and counts how often it applies its rule. -/
def repetitionCounted? (environment : Environment) (rule : Rule) (min : Nat) (max : Option Nat)
    (cursor : Cursor) : Option ((Outcome × Nat) × Environment) :=
  let grammar := environment.grammar
  let parse := rule.eval ⟨grammar.lexicon, grammar.ignore,
    grammar.applyMemoized (grammar.depthLimit cursor.text.length)⟩
  environment.run do
    let (rounds, applied) ←
      (Rounds.read (Rounds.counted parse) min max (cursor.rest.length + 1) [] cursor).run 0
    return (rounds.outcome cursor rule min, applied)

/-- A repetition ends alike with and without counting, after one application for every character
that is left and one more at most. -/
theorem exists_counted {environment next : Environment} {rule : Rule} {min : Nat}
    {max : Option Nat} {cursor : Cursor} {outcome : Outcome}
    (ended : environment.evalAt? (.repetition rule min max) cursor = some (outcome, next)) :
    ∃ applied ≤ cursor.rest.length + 1,
      environment.repetitionCounted? rule min max cursor = some ((outcome, applied), next) := by
  obtain ⟨⟨outcome, memo⟩, ran, same⟩ := Option.map_eq_some_iff.mp ended
  cases same
  rw [Rule.eval, ← Rounds.read_counted _ min max _ [] cursor 0] at ran
  obtain ⟨⟨rounds, between⟩, erased, last⟩ := Option.bind_eq_some_iff.mp ran
  obtain ⟨⟨⟨rounds, applied⟩, between⟩, read, same⟩ := Option.bind_eq_some_iff.mp erased
  cases same
  cases last
  refine ⟨applied, Nat.zero_add (cursor.rest.length + 1) ▸ Rounds.applied_le read, ?_⟩
  refine Option.map_eq_some_iff.mpr ⟨_, Option.bind_eq_some_iff.mpr ⟨_, read, rfl⟩, rfl⟩

/-- On an environment that calls at places of a text have led to, the repetition of a rule that
ends everywhere in the text is a plain loop, which applies the rule once for every byte that is
left and once more at most. It matches exactly if the rule does as often as there must be rounds,
and its reject is that of the first application that fails. Its match has the trees of successive
matches, within the bounds and up to a place where there is a reason to stop. -/
theorem Reaches.repetition_plain {grammar : Grammar} {text : Text} {history : List Call}
    {environment : Environment} (reached : (start grammar).Reaches history environment)
    (texts : ∀ call ∈ history, call.cursor.text = text) {rule : Rule}
    (ends : ∀ place : Cursor, place.text = text → (grammar.evalAt? rule place).isSome = true)
    {min : Nat} {max : Option Nat} (bounds : ∀ most ∈ max, min ≤ most) {cursor : Cursor}
    (here : cursor.text = text) :
    let holds (place : Cursor) (outcome : Outcome) := grammar.evalAt? rule place = some outcome
    ∃ outcome next, environment.evalAt? (.repetition rule min max) cursor = some (outcome, next) ∧
      (∃ applied ≤ text.byteLength - cursor.offset + 1,
        environment.repetitionCounted? rule min max cursor =
          some ((outcome, applied), next)) ∧
      ((∃ found, outcome = .ok found) ↔
        ∃ nodes last, nodes.length = min ∧ Successive holds cursor nodes last) ∧
      (∀ reject, outcome = .error reject ↔
        ∃ nodes last, nodes.length < min ∧ Successive holds cursor nodes last ∧
          holds last (.error reject)) ∧
      ∀ found, outcome = .ok found → ∃ nodes, found.node = .array nodes ∧
        min ≤ nodes.length ∧ (∀ most ∈ max, nodes.length ≤ most) ∧
        Successive holds cursor nodes found.cursor ∧
        Stops holds max cursor nodes found.cursor := by
  intro holds
  have gives : holds = grammar.Gives rule := by
    funext place outcome
    exact congrArg (· = some outcome) (grammar.evalAt?_eq rule place)
  have functional (place : Cursor) (outcome outcome' : Outcome) (first : holds place outcome)
      (second : holds place outcome') : outcome = outcome' :=
    Option.some.inj (first.symm.trans second)
  obtain ⟨rounds, plain, given⟩ := Grammar.exists_plain (fun place inside =>
    Option.isSome_iff_exists.mp (grammar.evalAt?_eq rule place ▸ ends place inside)) bounds here
  rw [← gives] at plain
  obtain ⟨⟨outcome, next⟩, ended, same⟩ := Option.map_eq_some_iff.mp
    ((reached.map_evalAt? texts (.repetition rule min max) here).trans
      ((grammar.evalAt?_eq _ cursor).trans given))
  obtain rfl : outcome = rounds.outcome cursor rule min := same
  obtain ⟨applied, few, counted⟩ := exists_counted ended
  refine ⟨_, next, ended, ⟨applied, few.trans ?_, counted⟩, ?_⟩
  · have chars := Text.length_le_byteLength cursor.rest
    rw [← here, cursor.byteLength_text]
    omega
  have successive := plain.successive
  have long : rounds.nodes.reverse.length = rounds.nodes.length := List.length_reverse
  rcases plain.outcome rule with ⟨enough, stops, matched⟩ | ⟨short, reject, failed, rejected⟩
  · rw [matched]
    refine ⟨⟨fun _ => ?_, fun _ => ⟨_, rfl⟩⟩, fun reject => ⟨nofun, ?_⟩, ?_⟩
    · obtain ⟨last, first⟩ := successive.take min
      exact ⟨_, last, by rw [List.length_take]; omega, first⟩
    · rintro ⟨nodes, last, short, successive', failed⟩
      have bound := successive'.length_le_of_rejected functional failed successive
      omega
    · rintro found ⟨⟩
      exact ⟨_, rfl, long ▸ enough, long ▸ plain.fits, successive, stops⟩
  · rw [rejected]
    refine ⟨⟨?_, ?_⟩, fun other => ⟨?_, ?_⟩, nofun⟩
    · rintro ⟨found, ⟨⟩⟩
    · rintro ⟨nodes, last, many, successive'⟩
      have bound := successive.length_le_of_rejected functional failed successive'
      omega
    · rintro ⟨⟩
      exact ⟨_, _, long ▸ short, successive, failed⟩
    · rintro ⟨nodes, last, -, successive', failed'⟩
      have bound := successive.length_le_of_rejected functional failed successive'
      have bound' := successive'.length_le_of_rejected functional failed' successive
      obtain rfl := successive.last_unique functional successive' (Nat.le_antisymm bound' bound)
      exact functional _ _ _ failed failed'

/-- Three to four rounds of an optional letter before `ab`, after the table was filled at the second
letter: one takes the first letter, and the next, which takes nothing, stands for two. -/
theorem Reaches.repetition_plain_padded :
    let grammar : Grammar := ⟨.ofList [("maybe", .optional (.text "a"))], .empty, []⟩
    let early : Call := .apply "maybe" ((Cursor.start ['a', 'b']).forward 1)
    ∃ environment, (start grammar).Reaches [early] environment ∧
      ∃ found next, environment.evalAt? (.repetition (.reference "maybe") 3 (some 4))
          (.start ['a', 'b']) = some (.ok found, next) ∧
        ∃ nodes, found.node = .array nodes ∧ nodes.length ∈ [3, 4] := by
  intro grammar early
  have fresh : (start grammar).memo.Sound grammar ['a', 'b'] := .empty grammar _
  have texts : ∀ call ∈ [early], call.cursor.text = ['a', 'b'] := by simp [early, Call.cursor]
  obtain ⟨environment, reached⟩ := exists_reaches fresh texts
    (show ∀ call ∈ [early], (call.direct? grammar).isSome = true by decide +kernel)
  have ranked : grammar.Ranked _ := @Grammar.ranked_of_order grammar [] (by decide +kernel)
  have ends (place : Cursor) (_ : place.text = ['a', 'b']) :
      (grammar.evalAt? (.reference "maybe") place).isSome = true := by
    rw [Grammar.evalAt?_eq]
    exact Option.isSome_iff_exists.mpr (Grammar.exists_gives ranked _ place)
  obtain ⟨outcome, next, ended, -, succeeds, -, matched⟩ :=
    @Reaches.repetition_plain grammar _ _ _ reached texts _ ends 3 (some 4) (by simp) _
      (Cursor.text_start ['a', 'b'])
  obtain ⟨found, rfl⟩ := succeeds.mpr ⟨_, _, rfl, .cons rfl (.cons rfl (.cons rfl .nil))⟩
  obtain ⟨nodes, node, many, few, -⟩ := matched found rfl
  have bound := few 4 rfl
  refine ⟨environment, reached, found, next, ended, nodes, node, ?_⟩
  simp only [List.mem_cons, List.not_mem_nil, or_false]
  omega

end Environment

end Packrat
