import Packrat.Proofs.Consumption
import Packrat.Proofs.Parsing
import Packrat.Proofs.Pattern.Steady
import Packrat.Proofs.Terminal

/-! # Words and what is skipped before them

`Parted` says of a text that it consists of words, each after a gap. A terminal first skips what
its grammar ignores, and `Skips` says of a gap before a text that this is exactly what is skipped:
a terminal then takes the word that comes next, or refuses the text, as its lexical rule does.
-/

namespace Packrat

/-- The words stand in the text, each after a gap and before what may follow a word, and the rest
comes after them. -/
inductive Parted (gap joins : Text → Prop) : List Text → Text → Text → Prop where
  | nil {text} : Parted gap joins [] text text
  | cons {run word words text rest} (before : gap run) (joined : joins text)
      (more : Parted gap joins words text rest) :
      Parted gap joins (word :: words) (run ++ (word ++ text)) rest

namespace Parted

variable {gap joins : Text → Prop} {words words' : List Text} {text rest : Text}

theorem append_iff : Parted gap joins (words ++ words') text rest ↔
    ∃ middle, Parted gap joins words text middle ∧ Parted gap joins words' middle rest := by
  constructor
  · intro parted
    induction words generalizing text with
    | nil => exact ⟨text, .nil, parted⟩
    | cons word words ih =>
      cases parted with
      | cons before joined more =>
        obtain ⟨middle, front, back⟩ := ih more
        exact ⟨middle, .cons before joined front, back⟩
  · rintro ⟨middle, front, back⟩
    induction front with
    | nil => exact back
    | cons before joined _ ih => exact .cons before joined (ih back)

theorem cons_iff {word : Text} : Parted gap joins (word :: words) text rest ↔
    ∃ run middle, gap run ∧ text = run ++ (word ++ middle) ∧ joins middle ∧
      Parted gap joins words middle rest := by
  constructor
  · intro parted
    cases parted with
    | cons before joined more => exact ⟨_, _, before, rfl, joined, more⟩
  · rintro ⟨run, middle, before, rfl, joined, more⟩
    exact .cons before joined more

theorem length_le (parted : Parted gap joins words text rest) : rest.length ≤ text.length := by
  induction parted with
  | nil => exact Nat.le_refl _
  | cons _ _ _ ih =>
    simp only [List.length_append]
    omega

theorem length_lt {word : Text} (filled : word ≠ [])
    (parted : Parted gap joins (word :: words) text rest) : rest.length < text.length := by
  obtain ⟨run, middle, -, rfl, -, more⟩ := cons_iff.mp parted
  have positive := List.length_pos_of_ne_nil filled
  have shorter := more.length_le
  simp only [List.length_append]
  omega

end Parted

/-- A rule takes nothing from a text that begins with none of its characters. -/
theorem LexRule.matchCount?_eq_none {rule : LexRule} {sets sets' : List CharSet}
    (begins : rule.begins = some sets) {text : Text} (begins' : text.BeginsIn sets')
    (apart : Regex.allApart sets sets' = true) : rule.matchCount? false text = none := by
  refine Option.eq_none_iff_forall_ne_some.mpr fun count counted => ?_
  obtain ⟨c, rest, rfl, set, member, belongs⟩ := begins_of_count begins counted
  obtain ⟨set', member', belongs'⟩ := begins' c rfl
  exact Regex.not_contains_of_allApart apart member member' belongs belongs'

/-- None of the rules takes anything from the text. -/
def Clear (ignore : List LexRule) (text : Text) : Prop :=
  ∀ rule ∈ ignore, rule.matchCount? false text = none

/-- Whether the rules begin with none of the characters of some sets. -/
def avoids (ignore : List LexRule) (sets : List CharSet) : Bool :=
  ignore.all fun rule =>
    match rule.begins with
    | some begins => Regex.allApart begins sets
    | none => false

theorem clear_of_avoids {ignore : List LexRule} {sets : List CharSet}
    (avoided : avoids ignore sets = true) {text : Text} (begins : text.BeginsIn sets) :
    Clear ignore text := by
  intro rule member
  have apart := List.all_eq_true.mp avoided rule member
  split at apart
  · rename_i found
    exact LexRule.matchCount?_eq_none found begins apart
  · cases apart

/-- Where the run stands before the text, it is skipped and nothing after it. -/
def Skips (ignore : List LexRule) (run text : Text) : Prop :=
  ∀ cursor : Cursor, cursor.rest = run ++ text → (cursor.skip ignore).rest = text

/-- Whether a rule, and what is ignored, begin with none of the characters of some sets. -/
def Grammar.shuns (grammar : Grammar) (depth : Nat) (rule : Rule) (sets : List CharSet) : Bool :=
  avoids grammar.ignore sets &&
    match rule.begins grammar.lexicon (grammar.beginsWithin depth) with
    | some begins => Regex.allApart begins sets
    | none => false

/-- Nothing is skipped before characters that a rule is seen not to begin with. -/
theorem Grammar.clear_of_shuns {grammar : Grammar} {depth : Nat} {rule : Rule}
    {sets : List CharSet} (shunned : grammar.shuns depth rule sets = true) {text : Text}
    (begins : text.BeginsIn sets) : Clear grammar.ignore text :=
  clear_of_avoids (Bool.and_eq_true_iff.mp shunned).1 begins

namespace Skips

section Runs

variable {ignore : List LexRule} {piece run text : Text}

/-- Where nothing is ignored nothing is skipped. -/
theorem of_nil (text : Text) : Skips [] [] text := by
  intro cursor left
  rw [Cursor.skip_nil]
  exact left

/-- Nothing is skipped of a clear text. -/
theorem of_clear (clear : Clear ignore text) : Skips ignore [] text := by
  intro cursor left
  have none : ignoredCount? ignore cursor.rest = none := by
    rw [ignoredCount?, List.findSome?_eq_none_iff, left]
    intro rule member
    rw [List.nil_append, clear rule member, Option.filter_none]
  rw [Cursor.skip_of_none (.inr none)]
  exact left

/-- A piece that is ignored is skipped before what is skipped after it. -/
theorem after_piece (filled : piece ≠ [])
    (ignored : ignoredCount? ignore (piece ++ (run ++ text)) = some piece.length)
    (skips : Skips ignore run text) : Skips ignore (piece ++ run) text := by
  intro cursor left
  rw [List.append_assoc] at left
  have some : cursor.rest ≠ [] := by simp [left, filled]
  rw [← Cursor.skip_forward some (left ▸ ignored)]
  refine skips _ ?_
  rw [Cursor.rest_forward, left, List.drop_left]

end Runs

variable {grammar : Grammar} {run word text rest : Text}

section Terminal

variable {leaf : Terminal} {name : String} {rule : LexRule} {caseless : Bool}
  (lexical : leaf.lexical? grammar.lexicon = some (name, rule, caseless))

include lexical

/-- A terminal takes the next word if its lexical rule does. -/
theorem takes_terminal {holds : Tree → Prop} (skips : Skips grammar.ignore run (word ++ rest))
    (filled : word ≠ []) (counted : rule.matchCount? caseless (word ++ rest) = some word.length)
    (tree : ∀ offset, holds (.token ⟨.rule name, word, offset⟩)) :
    grammar.Takes (.terminal leaf) (run ++ (word ++ rest)) rest holds := by
  intro cursor left
  have here := skips cursor left
  refine ⟨Terminal.taken name (cursor.skip grammar.ignore) word.length,
    Grammar.gives_of_unfolds ?_, ?_, ?_⟩
  · have matched := Terminal.eval_eq_ok_iff.mpr ⟨name, rule, caseless, word.length, lexical,
      by simp [here, filled], here ▸ counted, rfl⟩
    exact matched ▸ .terminal
  · rw [Terminal.taken, Cursor.rest_forward, here, List.drop_left]
  · rw [Terminal.taken, here, List.take_left]
    exact tree _

/-- A terminal refuses a text from which its lexical rule takes nothing, and the end. -/
theorem refuses_terminal (skips : Skips grammar.ignore run text)
    (none : text = [] ∨ rule.matchCount? caseless text = none) :
    grammar.Refuses (.terminal leaf) (run ++ text) := by
  intro cursor left
  have here := skips cursor left
  cases outcome : leaf.eval grammar.lexicon grammar.ignore cursor with
  | error reject => exact ⟨reject, Grammar.gives_of_unfolds (outcome ▸ .terminal)⟩
  | ok found =>
    obtain ⟨name', rule', caseless', count, lexical', filled, counted, -⟩ :=
      Terminal.eval_eq_ok_iff.mp outcome
    cases lexical.symm.trans lexical'
    rw [here] at filled counted
    rw [none.resolve_left filled] at counted
    cases counted

end Terminal

/-- A rule refuses a text that begins with a character of none of its sets. -/
theorem refuses_of_shuns (skips : Skips grammar.ignore run text) {rank : String → Nat}
    (ranked : grammar.Ranked rank) {depth : Nat} {rule : Rule} {sets : List CharSet}
    (shunned : grammar.shuns depth rule sets = true) (begins : text.BeginsIn sets) :
    grammar.Refuses rule (run ++ text) := by
  obtain ⟨-, apart⟩ := Bool.and_eq_true_iff.mp shunned
  intro cursor left
  have here := skips cursor left
  obtain ⟨outcome, gives⟩ := Grammar.exists_gives ranked rule cursor
  cases outcome with
  | error reject => exact ⟨reject, gives⟩
  | ok found =>
    split at apart
    · rename_i sets' found
      obtain ⟨c, rest, text, set, member, belongs⟩ := Grammar.beginsAt_of_gives found gives
      obtain ⟨set', member', belongs'⟩ := begins c (by rw [← here, text]; rfl)
      exact absurd belongs' (Regex.not_contains_of_allApart apart member member' belongs)
    · cases apart

/-- A literal takes itself. -/
theorem takes_text {mark : String} (skips : Skips grammar.ignore run (mark.toList ++ rest))
    (filled : mark.toList ≠ []) :
    grammar.Takes (.text mark) (run ++ (mark.toList ++ rest)) rest fun tree =>
      ∃ offset, tree = .token ⟨.rule mark, mark.toList, offset⟩ := by
  refine takes_terminal rfl skips filled ?_ fun offset => ⟨offset, rfl⟩
  simp [LexRule.matchCount?]

/-- A literal refuses a text that does not begin with it. -/
theorem refuses_text {mark : String} (skips : Skips grammar.ignore run text)
    (differs : ¬ mark.toList <+: text) : grammar.Refuses (.text mark) (run ++ text) := by
  have none : (LexRule.literal mark.toList).matchCount? false text = none := by
    simp [LexRule.matchCount?, List.isPrefixOf_iff_prefix, differs]
  exact refuses_terminal rfl skips (.inr none)

/-- A token takes a word that its pattern takes. -/
theorem takes_token {name : String} {pattern : Pattern}
    (skips : Skips grammar.ignore run (word ++ rest))
    (declared : grammar.lexicon.find? name = some (.pattern pattern)) (filled : word ≠ [])
    (counted : pattern.matchCount? (word ++ rest) = some word.length) :
    grammar.Takes (.token name) (run ++ (word ++ rest)) rest fun tree =>
      ∃ offset, tree = .token ⟨.rule name, word, offset⟩ := by
  have lexical : (Terminal.listed name).lexical? grammar.lexicon =
      some (name, .pattern pattern, false) := by
    rw [Terminal.lexical?, declared]
    rfl
  exact takes_terminal lexical skips filled counted fun offset => ⟨offset, rfl⟩

/-- A token of a steady pattern takes a word of the pattern after a run that is skipped before every
clear text. -/
theorem takes_spelled {name : String} {pattern : Pattern} {follow : List CharSet}
    (skips : ∀ text, Clear grammar.ignore text → Skips grammar.ignore run text)
    (declared : grammar.lexicon.find? name = some (.pattern pattern))
    (steady : pattern.steady follow = true) (solid : pattern.regex.nullable = false)
    (avoided : avoids grammar.ignore pattern.regex.begins = true)
    (spells : pattern.regex.Spells word) (follows : rest.BeginsIn follow) :
    grammar.Takes (.token name) (run ++ (word ++ rest)) rest fun tree =>
      ∃ offset, tree = .token ⟨.rule name, word, offset⟩ := by
  have clear := clear_of_avoids avoided (Regex.beginsIn_of_solid spells solid rest)
  exact (skips _ clear).takes_token declared (spells.ne_nil solid)
    (Pattern.matchCount?_of_spells steady spells follows)

/-- A text is parsed if its production takes it up to what is skipped at the end. -/
theorem parseAll {parser : Parser} (skips : Skips parser.grammar.ignore rest [])
    {production : String} {holds : Tree → Prop}
    (takes : parser.grammar.Takes (.reference production) text rest holds) :
    ∃ tree, parser.parseAll production text = .ok tree ∧ holds (.named production tree) := by
  obtain ⟨found, gives, after, folded⟩ := takes (.start text) rfl
  generalize same : Except.ok found = outcome at gives
  cases Grammar.gives_iff.mp gives with
  | missing => cases same
  | @reference _ rule _ inner declared here =>
    cases inner with
    | error reject => cases same
    | ok body =>
      cases same
      have ended := skips body.cursor (by rw [List.append_nil]; exact after)
      exact ⟨body.node, (Parser.parseAll_eq_ok_iff declared).mpr ⟨body, here, ended, rfl⟩, folded⟩

end Skips

end Packrat
