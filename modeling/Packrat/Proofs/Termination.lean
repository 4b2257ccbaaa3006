import Packrat.Proofs.Pattern.Spelling
import Packrat.Proofs.Terminal
import Packrat.Proofs.Unfolding

/-! # Termination

A rule that takes a character wherever it matches puts the productions behind it at a later place
of the text. The others that a rule begins with are its heads. If every head of a production has a
smaller rank than the production, no application leads back to itself
(`Grammar.applyAt?_isSome`), because along nested applications the text left to read gets shorter
or the rank does.
-/

namespace Packrat

namespace LexRule

/-- Whether every match of the rule is seen to take a character. -/
def advances : LexRule → Bool
  | .literal text => !text.isEmpty
  | .pattern tried => tried.regex.anchored && tried.regex.LoopsAdvance && tried.regex.advances

theorem count_pos {rule : LexRule} (advances : rule.advances = true) {caseless : Bool}
    {text : Text} {count : Nat} (taken : rule.matchCount? caseless text = some count) :
    0 < count := by
  cases rule with
  | literal expected =>
    simp only [matchCount?, Option.ite_none_right_eq_some, Option.some.injEq] at taken
    rw [← taken.2]
    simpa [LexRule.advances, List.length_pos_iff] using advances
  | pattern tried =>
    simp only [LexRule.advances, Bool.and_eq_true] at advances
    exact Pattern.matchCount?_pos advances.1.1 advances.1.2 advances.2 taken

end LexRule

namespace Rule

mutual

/-- Whether every match of the rule is seen to take a character. -/
def advances : Rule → Bool
  | .terminal (.inline _ rule _) => rule.advances
  | .sequence rules => anyAdvances rules
  | .choice rules | .ordered rules => allAdvance rules
  | .repetition rule min _ => 0 < min && rule.advances
  | .veiled rule => rule.advances
  | .endOfText | .empty | .terminal (.listed _) | .optional _ | .absent _ | .ahead _
  | .reference _ => false

/-- Whether one of several rules advances. -/
def anyAdvances : List Rule → Bool
  | [] => false
  | rule :: more => rule.advances || anyAdvances more

/-- Whether all of several rules advance. -/
def allAdvance : List Rule → Bool
  | [] => true
  | rule :: more => rule.advances && allAdvance more

end

mutual

/-- The names of the productions that a rule may apply before it takes a character. -/
def heads : Rule → List String
  | .sequence rules => sequenceHeads rules
  | .choice rules | .ordered rules => allHeads rules
  | .optional rule | .repetition rule _ _ | .absent rule | .ahead rule | .veiled rule =>
      rule.heads
  | .reference name => [name]
  | .endOfText | .empty | .terminal _ => []

/-- The heads of rules one after the other: those up to the first that advances. -/
def sequenceHeads : List Rule → List String
  | [] => []
  | rule :: more => rule.heads ++ if rule.advances then [] else sequenceHeads more

/-- The heads of several rules. -/
def allHeads : List Rule → List String
  | [] => []
  | rule :: more => rule.heads ++ allHeads more

end

theorem advances_of_mem {rules : List Rule} (all : allAdvance rules = true) {rule : Rule}
    (member : rule ∈ rules) : rule.advances = true := by
  induction rules with
  | nil => cases member
  | cons head more ih =>
    simp only [allAdvance, Bool.and_eq_true] at all
    rcases List.mem_cons.mp member with rfl | member
    · exact all.1
    · exact ih all.2 member

end Rule

/-- A terminal that advances takes a character where it matches. -/
theorem Terminal.shorter_of_advances {leaf : Terminal} {lexicon : Lexicon} {ignore : List LexRule}
    {cursor : Cursor} {found : Match} (advances : (Rule.terminal leaf).advances = true)
    (matched : leaf.eval lexicon ignore cursor = .ok found) :
    found.cursor.rest.length < cursor.rest.length := by
  obtain ⟨name, rule, caseless, count, lexical, left, counted, rfl⟩ :=
    Terminal.eval_eq_ok_iff.mp matched
  cases leaf with
  | listed name => cases advances
  | inline name rule caseless =>
    cases lexical
    have skipped := (cursor.leadsTo_skip ignore).length_le
    have positive := LexRule.count_pos advances counted
    have more := List.length_pos_iff.mpr left
    simp only [Terminal.taken, Cursor.rest_forward, List.length_drop]
    omega

/-- Rounds end if each of them does and leads to a place where the next one does. -/
theorem Rounds.read_isSome {parse : Cursor → Option Outcome} {within : Cursor → Prop}
    (parsed : ∀ cursor, within cursor → ∃ outcome, parse cursor = some outcome ∧
      ∀ found, outcome = .ok found → within found.cursor)
    (min : Nat) (max : Option Nat) {fuel : Nat} {nodes : List Tree} {cursor : Cursor}
    (here : within cursor) : ∃ rounds, read parse min max fuel nodes cursor = some rounds := by
  induction fuel generalizing nodes cursor with
  | zero => exact ⟨_, rfl⟩
  | succ fuel ih =>
    rw [read]
    split
    · exact ⟨_, rfl⟩
    · obtain ⟨outcome, ended, onward⟩ := parsed cursor here
      cases outcome with
      | error reject => exact ⟨_, Option.bind_eq_some_iff.mpr ⟨_, ended, rfl⟩⟩
      | ok found =>
        by_cases shorter : found.cursor.rest.length < cursor.rest.length
        · obtain ⟨rounds, rest⟩ := @ih (found.node :: nodes) found.cursor (onward found rfl)
          refine ⟨rounds, Option.bind_eq_some_iff.mpr ⟨_, ended, ?_⟩⟩
          dsimp only
          rwa [if_pos shorter]
        · simp only [ended, Option.bind_eq_bind, Option.bind_some, if_neg shorter]
          exact ⟨_, rfl⟩

namespace Grammar

variable {grammar : Grammar}

/-- A match of a rule is at a place that is not further back. -/
theorem gives_length_le {rule : Rule} {cursor : Cursor} {found : Match}
    (gives : grammar.Gives rule cursor (.ok found)) :
    found.cursor.rest.length ≤ cursor.rest.length :=
  (show cursor.LeadsTo found.cursor from eval_after gives).length_le

/-- A match of a rule that advances takes a character. -/
private def Shortens (rule : Rule) (cursor : Cursor) (outcome : Outcome) : Prop :=
  rule.advances = true → ∀ found, outcome = .ok found →
    found.cursor.rest.length < cursor.rest.length

private theorem sequenced_length_le {rules : List Rule} {cursor : Cursor}
    {result : Except Reject (List Tree × Cursor)}
    (sequenced : Sequenced grammar.Gives rules cursor result) {nodes : List Tree} {next : Cursor}
    (matched : result = .ok (nodes, next)) : next.rest.length ≤ cursor.rest.length := by
  induction sequenced generalizing nodes with
  | nil => cases matched; exact Nat.le_refl _
  | reject => cases matched
  | @next _ _ _ found result here rest ih =>
    have first := gives_length_le here
    cases result with
    | error reject => cases matched
    | ok pair =>
      cases matched
      have := ih rfl
      omega

private theorem sequenced_shorter {rules : List Rule} {cursor : Cursor}
    {result : Except Reject (List Tree × Cursor)}
    (sequenced : Sequenced (fun rule cursor outcome =>
      grammar.Gives rule cursor outcome ∧ Shortens rule cursor outcome) rules cursor result)
    (advances : Rule.anyAdvances rules = true) {nodes : List Tree} {next : Cursor}
    (matched : result = .ok (nodes, next)) : next.rest.length < cursor.rest.length := by
  induction sequenced generalizing nodes with
  | nil => cases advances
  | reject => cases matched
  | @next rule more cursor found result here rest ih =>
    have first := gives_length_le here.1
    cases result with
    | error reject => cases matched
    | ok pair =>
      cases matched
      have others := sequenced_length_le (rest.mono fun _ _ _ => And.left) rfl
      simp only [Rule.anyAdvances, Bool.or_eq_true] at advances
      rcases advances with advances | advances
      · have := here.2 advances found rfl
        omega
      · have := ih advances rfl
        omega

private theorem tried_shorter {cursor : Cursor} {rules : List Rule} {ambiguity : Option Reject}
    {outcome : Outcome}
    (tried : Tried (fun rule cursor outcome =>
      grammar.Gives rule cursor outcome ∧ Shortens rule cursor outcome)
      cursor rules ambiguity outcome)
    (advances : Rule.allAdvance rules = true) {found : Match} (matched : outcome = .ok found) :
    found.cursor.rest.length < cursor.rest.length := by
  induction tried with
  | nil => cases matched
  | found here =>
    cases matched
    simp only [Rule.allAdvance, Bool.and_eq_true] at advances
    exact here.2 advances.1 found rfl
  | next here rest ih =>
    simp only [Rule.allAdvance, Bool.and_eq_true] at advances
    exact ih advances.2 matched

private theorem repeated_shorter {rule : Rule} {min fuel : Nat} {max : Option Nat}
    {nodes : List Tree} {cursor : Cursor} {rounds : Rounds}
    (repeated : Repeated (fun cursor outcome =>
      grammar.Gives rule cursor outcome ∧ Shortens rule cursor outcome)
      min max fuel nodes cursor rounds)
    (advances : rule.advances = true) :
    rounds.cursor.rest.length ≤ cursor.rest.length ∧
      (nodes.length < rounds.nodes.length →
        rounds.cursor.rest.length < cursor.rest.length) := by
  induction repeated with
  | spent => exact ⟨Nat.le_refl _, fun more => absurd more (Nat.lt_irrefl _)⟩
  | full enough => exact ⟨Nat.le_refl _, fun more => absurd more (Nat.lt_irrefl _)⟩
  | reject room here => exact ⟨Nat.le_refl _, fun more => absurd more (Nat.lt_irrefl _)⟩
  | next room here shorter rest ih => exact ⟨by omega, fun _ => by omega⟩
  | still room here same => exact absurd (here.2 advances _ rfl) same

/-- A rule that advances takes a character wherever it matches. -/
theorem shorter_of_advances {rule : Rule} {cursor : Cursor} {found : Match}
    (gives : grammar.Gives rule cursor (.ok found)) (advances : rule.advances = true) :
    found.cursor.rest.length < cursor.rest.length := by
  suffices closed : ∀ rule cursor outcome, grammar.Unfolds (fun rule cursor outcome =>
      grammar.Gives rule cursor outcome ∧ Shortens rule cursor outcome) rule cursor outcome →
      Shortens rule cursor outcome from
    eval_induct closed gives advances found rfl
  intro rule cursor outcome unfolds advances found matched
  cases unfolds with
  | endOfText | empty | optional | absent | ahead | missing | reference => cases advances
  | terminal => exact Terminal.shorter_of_advances advances matched
  | @sequence rules _ result members =>
    rw [Rule.advances] at advances
    cases result with
    | error reject => cases matched
    | ok pair =>
      cases matched
      exact sequenced_shorter members advances rfl
  | @choice rules _ outcomes all =>
    rw [Rule.advances] at advances
    obtain ⟨rule, member, here⟩ := exists_rule_of_mem all (Outcome.mem_of_unique matched)
    exact here.2 (Rule.advances_of_mem advances member) found rfl
  | ordered tried =>
    rw [Rule.advances] at advances
    exact tried_shorter tried advances matched
  | @repetition rule min max _ rounds repeated =>
    simp only [Rule.advances, Bool.and_eq_true, decide_eq_true_eq] at advances
    have shorter := (repeated_shorter repeated advances.2).2
    unfold Rounds.outcome at matched
    split at matched
    · cases matched
    · cases matched
      exact shorter (by simp only [List.length_nil]; omega)
  | veiled here => exact here.2 advances found matched

/-- Every application of the production with no more text left ends. -/
def EndsWithin (grammar : Grammar) (length : Nat) (name : String) : Prop :=
  ∀ cursor : Cursor, cursor.rest.length ≤ length → (grammar.applyAt? name cursor).isSome = true

theorem EndsWithin.mono {length shorter : Nat} {name : String}
    (ends : grammar.EndsWithin length name) (below : shorter ≤ length) :
    grammar.EndsWithin shorter name :=
  fun cursor short => ends cursor (Nat.le_trans short below)

mutual

/-- A rule ends if the productions do that it may apply before it takes a character, and all
others do where less text is left. -/
theorem eval_isSome : ∀ (rule : Rule) (cursor : Cursor),
    (∀ name length, length < cursor.rest.length → grammar.EndsWithin length name) →
    (∀ name ∈ rule.heads, grammar.EndsWithin cursor.rest.length name) →
    ∃ outcome, grammar.Gives rule cursor outcome
  | .endOfText, _, _, _ => ⟨_, rfl⟩
  | .empty, _, _, _ => ⟨_, rfl⟩
  | .terminal _, _, _, _ => ⟨_, rfl⟩
  | .sequence rules, cursor, shorter, heads => by
      obtain ⟨result, ended⟩ := evalSequence_isSome rules cursor shorter heads
      exact ⟨_, Option.bind_eq_some_iff.mpr ⟨_, ended, rfl⟩⟩
  | .choice rules, cursor, shorter, heads => by
      obtain ⟨outcomes, ended⟩ := evalAll_isSome rules cursor shorter heads
      exact ⟨_, Option.bind_eq_some_iff.mpr ⟨_, ended, rfl⟩⟩
  | .ordered rules, cursor, shorter, heads => evalOrdered_isSome rules cursor none shorter heads
  | .optional rule, cursor, shorter, heads => by
      obtain ⟨outcome, ended⟩ := eval_isSome rule cursor shorter heads
      exact ⟨_, Option.bind_eq_some_iff.mpr ⟨_, ended, rfl⟩⟩
  | .repetition rule min max, cursor, shorter, heads => by
      have rounds (later : Cursor) (short : later.rest.length ≤ cursor.rest.length) :
          ∃ outcome, rule.eval grammar.direct later = some outcome ∧
            ∀ found, outcome = .ok found → found.cursor.rest.length ≤ cursor.rest.length := by
        obtain ⟨outcome, ended⟩ := eval_isSome rule later
          (fun name length below => shorter name length (Nat.lt_of_lt_of_le below short))
          (fun name member => (heads name member).mono short)
        refine ⟨outcome, ended, ?_⟩
        rintro found rfl
        exact (gives_length_le ended).trans short
      obtain ⟨rounds, ended⟩ := Rounds.read_isSome rounds min max (Nat.le_refl _)
      exact ⟨_, Option.bind_eq_some_iff.mpr ⟨_, ended, rfl⟩⟩
  | .absent rule, cursor, shorter, heads => by
      obtain ⟨outcome, ended⟩ := eval_isSome rule cursor shorter heads
      exact ⟨_, Option.bind_eq_some_iff.mpr ⟨_, ended, rfl⟩⟩
  | .ahead rule, cursor, shorter, heads => by
      obtain ⟨outcome, ended⟩ := eval_isSome rule cursor shorter heads
      exact ⟨_, Option.bind_eq_some_iff.mpr ⟨_, ended, rfl⟩⟩
  | .reference name, cursor, _, heads => by
      obtain ⟨result, ended⟩ := Option.isSome_iff_exists.mp
        (heads name (List.mem_singleton_self name) cursor (Nat.le_refl _))
      exact ⟨_, Option.bind_eq_some_iff.mpr ⟨_, ended, rfl⟩⟩
  | .veiled rule, cursor, shorter, heads => eval_isSome rule cursor shorter heads

theorem evalSequence_isSome : ∀ (rules : List Rule) (cursor : Cursor),
    (∀ name length, length < cursor.rest.length → grammar.EndsWithin length name) →
    (∀ name ∈ Rule.sequenceHeads rules, grammar.EndsWithin cursor.rest.length name) →
    ∃ result, Rule.evalSequence grammar.direct rules cursor = some result
  | [], _, _, _ => ⟨_, rfl⟩
  | rule :: more, cursor, shorter, heads => by
      obtain ⟨outcome, ended⟩ := eval_isSome rule cursor shorter
        fun name member => heads name (List.mem_append_left _ member)
      cases outcome with
      | error reject => exact ⟨_, Option.bind_eq_some_iff.mpr ⟨_, ended, rfl⟩⟩
      | ok found =>
        have after := gives_length_le ended
        have others (name : String) (member : name ∈ Rule.sequenceHeads more) :
            grammar.EndsWithin found.cursor.rest.length name := by
          by_cases advances : rule.advances = true
          · exact shorter name _ (shorter_of_advances ended advances)
          · refine (heads name (List.mem_append_right _ ?_)).mono after
            rwa [if_neg advances]
        obtain ⟨result, rest⟩ := evalSequence_isSome more found.cursor
          (fun name length below => shorter name length (Nat.lt_of_lt_of_le below after)) others
        exact ⟨_, Option.bind_eq_some_iff.mpr
          ⟨_, ended, Option.bind_eq_some_iff.mpr ⟨_, rest, rfl⟩⟩⟩

theorem evalAll_isSome : ∀ (rules : List Rule) (cursor : Cursor),
    (∀ name length, length < cursor.rest.length → grammar.EndsWithin length name) →
    (∀ name ∈ Rule.allHeads rules, grammar.EndsWithin cursor.rest.length name) →
    ∃ outcomes, Rule.evalAll grammar.direct rules cursor = some outcomes
  | [], _, _, _ => ⟨_, rfl⟩
  | rule :: more, cursor, shorter, heads => by
      obtain ⟨outcome, ended⟩ := eval_isSome rule cursor shorter
        fun name member => heads name (List.mem_append_left _ member)
      obtain ⟨outcomes, rest⟩ := evalAll_isSome more cursor shorter
        fun name member => heads name (List.mem_append_right _ member)
      exact ⟨_, Option.bind_eq_some_iff.mpr
        ⟨_, ended, Option.bind_eq_some_iff.mpr ⟨_, rest, rfl⟩⟩⟩

theorem evalOrdered_isSome : ∀ (rules : List Rule) (cursor : Cursor)
    (ambiguity : Option Reject),
    (∀ name length, length < cursor.rest.length → grammar.EndsWithin length name) →
    (∀ name ∈ Rule.allHeads rules, grammar.EndsWithin cursor.rest.length name) →
    ∃ outcome, Rule.evalOrdered grammar.direct rules cursor ambiguity = some outcome
  | [], _, _, _, _ => ⟨_, rfl⟩
  | rule :: more, cursor, ambiguity, shorter, heads => by
      obtain ⟨outcome, ended⟩ := eval_isSome rule cursor shorter
        fun name member => heads name (List.mem_append_left _ member)
      cases outcome with
      | ok found => exact ⟨_, Option.bind_eq_some_iff.mpr ⟨_, ended, rfl⟩⟩
      | error reject =>
        obtain ⟨outcome, rest⟩ := evalOrdered_isSome more cursor _ shorter
          fun name member => heads name (List.mem_append_right _ member)
        exact ⟨outcome, Option.bind_eq_some_iff.mpr ⟨_, ended, rest⟩⟩

end

/-- Whether every head of a production is undefined or of a smaller rank. -/
def Ranked (grammar : Grammar) (rank : String → Nat) : Prop :=
  ∀ name rule, grammar.productions.find? name = some rule → ∀ head ∈ rule.heads,
    grammar.productions.find? head = none ∨ rank head < rank name

/-- Whether the names of a list are in an order of rank, the lowest first. -/
def rankedBy (grammar : Grammar) (order : List String) : Bool :=
  grammar.productions.entries.all fun entry => entry.2.heads.all fun head =>
    (grammar.productions.find? head).isNone || order.idxOf head < order.idxOf entry.1

theorem ranked_of_order {order : List String} (ordered : grammar.rankedBy order = true) :
    grammar.Ranked (order.idxOf ·) := by
  intro name rule found head member
  have entry := List.all_eq_true.mp ordered _ (Table.mem_of_find? found)
  simpa using List.all_eq_true.mp entry head member

/-- If the heads of productions have smaller ranks, every application ends. -/
theorem applyAt?_isSome {rank : String → Nat} (ranked : grammar.Ranked rank) (name : String)
    (cursor : Cursor) : (grammar.applyAt? name cursor).isSome = true := by
  have within : ∀ length level name, rank name < level → grammar.EndsWithin length name := by
    intro length
    induction length using Nat.strongRecOn with
    | _ length shorter =>
      intro level
      induction level with
      | zero => exact fun _ below => absurd below (Nat.not_lt_zero _)
      | succ level lower =>
        intro name below cursor short
        rw [applyAt?_eq]
        cases found : grammar.productions.find? name with
        | none => rfl
        | some rule =>
          obtain ⟨outcome, ended⟩ := eval_isSome rule cursor
            (fun other length less =>
              shorter length (Nat.lt_of_lt_of_le less short) _ other (Nat.lt_succ_self _))
            fun head member => by
              rcases ranked name rule found head member with undefined | less
              · intro later _
                rw [applyAt?_eq, undefined]
                rfl
              · exact (lower head (by omega)).mono short
          have mapped : (rule.eval grammar.direct cursor).map some = some (some outcome) :=
            Option.map_eq_some_iff.mpr ⟨outcome, ended, rfl⟩
          simp only [mapped, Option.isSome_some]
  exact within cursor.rest.length _ name (Nat.lt_succ_self _) cursor (Nat.le_refl _)

/-- If the heads of productions have smaller ranks, every rule gives an outcome. -/
theorem exists_gives {rank : String → Nat} (ranked : grammar.Ranked rank) (rule : Rule)
    (cursor : Cursor) : ∃ outcome, grammar.Gives rule cursor outcome :=
  eval_isSome rule cursor (fun name _ _ later _ => applyAt?_isSome ranked name later)
    fun name _ later _ => applyAt?_isSome ranked name later

end Grammar

end Packrat
