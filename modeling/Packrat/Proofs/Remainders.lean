import Packrat.Proofs.Memoization
import Packrat.Proofs.Pattern.Remainders
import Packrat.Proofs.Skipping

/-! # What rules leave

Where nothing is ignored, a rule can be followed by what it leaves of a text, as an expression can
be: it takes a step, or it does not match (`Grammar.Steps`). Two rules with the same steps match at
the same places and end at the same ones (`Grammar.exists_applied`). Of a rule that takes one
character the characters can be computed (`Rule.oneOf?`), and then be compared with others.
-/

namespace Packrat

namespace CharSet

/-- Whether the sets have the same characters, all of which have code points below 256. -/
def agree (sets sets' : List CharSet) : Bool :=
  (sets ++ sets').all (fun set => set.ranges.all fun range => range.2 < 256) &&
    (List.range 256).all fun code =>
      sets.any (·.contains (Char.ofNat code)) == sets'.any (·.contains (Char.ofNat code))

private theorem any_contains_of_le {sets : List CharSet}
    (low : (sets.all fun set => set.ranges.all fun range => range.2 < 256) = true) {c : Char}
    (high : 256 ≤ c.toNat) : sets.any (·.contains c) = false := by
  rw [List.any_eq_false]
  intro set member belongs
  obtain ⟨range, inside, -, below⟩ := exists_range_of_contains belongs
  have bound := List.all_eq_true.mp (List.all_eq_true.mp low set member) range inside
  have bound : range.2 < 256 := of_decide_eq_true bound
  omega

theorem any_contains_of_agree {sets sets' : List CharSet} (agrees : agree sets sets' = true)
    (c : Char) : sets.any (·.contains c) = sets'.any (·.contains c) := by
  obtain ⟨low, same⟩ := Bool.and_eq_true_iff.mp agrees
  rw [List.all_append, Bool.and_eq_true] at low
  by_cases high : 256 ≤ c.toNat
  · rw [any_contains_of_le low.1 high, any_contains_of_le low.2 high]
  · have here := List.all_eq_true.mp same c.toNat (List.mem_range.mpr (Nat.not_le.mp high))
    rw [Char.ofNat_toNat] at here
    exact eq_of_beq here

end CharSet

theorem Text.afterOneOf_of_agree {sets sets' : List CharSet}
    (agrees : CharSet.agree sets sets' = true) (text : Text) :
    text.afterOneOf sets = text.afterOneOf sets' := by
  cases text with
  | nil => rfl
  | cons c rest => rw [afterOneOf, afterOneOf, CharSet.any_contains_of_agree agrees]

section Alike

/-- All small letters of the table lie past ASCII, but for the `k` of the Kelvin sign. -/
private theorem caseRuns_small : CharClass.caseRuns.all (fun run =>
    (run.first == run.last && run.small == 0x6B) ||
      (0x80 ≤ run.small && (run.small + (run.last - run.first) < 0xD800 ||
        (0xE000 ≤ run.small && run.small + (run.last - run.first) < 0x110000)))) = true := by
  decide +kernel

/-- Only ASCII has small letters in ASCII other than `k`. -/
theorem CharClass.toNat_lt_of_lowercase {c small : Char} (lower : lowercase c = [small])
    (ascii : small.toNat < 0x80) (other : small ≠ 'k') : c.toNat < 0x80 := by
  refine Nat.not_le.mp fun high => ?_
  rw [lowercase, if_neg (Nat.not_lt.mpr high)] at lower
  split at lower
  · cases lower
  obtain rfl := List.singleton_inj.mp lower
  cases found : caseRuns.findSome? (·.lower? c.toNat) with
  | none =>
    rw [found] at ascii
    exact absurd ascii (Nat.not_lt.mpr high)
  | some code =>
    obtain ⟨run, member, here⟩ := List.exists_of_findSome?_eq_some found
    rw [found, Option.map_some, Option.getD_some] at ascii other
    have small := List.all_eq_true.mp caseRuns_small run member
    simp only [Bool.or_eq_true, Bool.and_eq_true, beq_iff_eq, decide_eq_true_eq] at small
    simp only [CaseRun.lower?, Option.ite_none_right_eq_some, Option.some.injEq,
      Bool.and_eq_true, decide_eq_true_eq] at here
    obtain ⟨⟨⟨above, below⟩, -⟩, rfl⟩ := here
    rcases small with ⟨single, k⟩ | ⟨past, scalar⟩
    · rw [k, show c.toNat - run.first = 0 by omega] at other
      exact other rfl
    · have valid : (run.small + (c.toNat - run.first)).isValidChar := by
        unfold Nat.isValidChar
        omega
      rw [Char.ofNat, dif_pos valid] at ascii
      change run.small + (c.toNat - run.first) < 0x80 at ascii
      omega

private theorem lowercase_small : (List.range 0x80).all (fun code =>
    code == 0x4B || code == 0x6B || (CharClass.lowercase (Char.ofNat code)).all fun lower =>
      lower.toNat < 0x80 && lower != 'k') = true := by
  decide +kernel

/-- The small letters of ASCII characters are in ASCII. -/
private theorem lowercase_ascii {c : Char} (ascii : c.toNat < 0x80) (small : c ≠ 'k')
    (capital : c ≠ 'K') : ∃ lower, CharClass.lowercase c = [lower] ∧ lower.toNat < 0x80 ∧
      lower ≠ 'k' := by
  have here := List.all_eq_true.mp lowercase_small c.toNat (List.mem_range.mpr ascii)
  have apart : ¬ c.toNat = 0x4B ∧ ¬ c.toNat = 0x6B :=
    ⟨fun same => capital (Char.toNat_inj.mp same), fun same => small (Char.toNat_inj.mp same)⟩
  simp only [Char.ofNat_toNat, Bool.or_eq_true, beq_iff_eq, apart.1, apart.2, false_or,
    List.all_eq_true, Bool.and_eq_true, decide_eq_true_eq, bne_iff_ne] at here
  obtain ⟨lower, only⟩ : ∃ lower, CharClass.lowercase c = [lower] := by
    rw [CharClass.lowercase, if_pos ascii]
    split <;> exact ⟨_, rfl⟩
  exact ⟨lower, only, here lower (only ▸ List.mem_singleton_self lower)⟩

/-- The ASCII characters that are alike to one. -/
def LexRule.alikes (c : Char) : List CharSet :=
  (((List.range 0x80).map Char.ofNat).filter (alike c)).map .single

/-- Only ASCII characters are alike to ASCII characters, unless one of them is a `k`. -/
theorem LexRule.any_alikes {c : Char} (ascii : c.toNat < 0x80) (small : c ≠ 'k') (capital : c ≠ 'K')
    (d : Char) : (alikes c).any (·.contains d) = alike c d := by
  have listed : (alikes c).any (·.contains d) = true ↔ d.toNat < 0x80 ∧ alike c d = true := by
    simp only [alikes, List.any_map, List.any_filter, List.any_eq_true, List.mem_range,
      Function.comp_apply, Bool.and_eq_true, CharSet.contains_single]
    constructor
    · rintro ⟨code, below, same, rfl⟩
      have valid : code.isValidChar := by
        unfold Nat.isValidChar
        omega
      refine ⟨?_, same⟩
      rw [Char.ofNat, dif_pos valid]
      exact below
    · rintro ⟨below, same⟩
      exact ⟨d.toNat, below, by rwa [Char.ofNat_toNat], (Char.ofNat_toNat d).symm⟩
  rw [Bool.eq_iff_iff, listed, and_iff_right_iff_imp]
  intro same
  rcases Bool.or_eq_true_iff.mp same with same | same
  · exact of_decide_eq_true same ▸ ascii
  · have same : CharClass.lowercase c = CharClass.lowercase d := of_decide_eq_true same
    obtain ⟨lower, only, below, other⟩ := lowercase_ascii ascii small capital
    exact CharClass.toNat_lt_of_lowercase (same.symm.trans only) below other

end Alike

/-- The place where a match ends. -/
def Outcome.stop? : Outcome → Option Cursor
  | .ok found => some found.cursor
  | .error _ => none

namespace Grammar

variable {grammar : Grammar} {rule rule' : Rule} {rules : List Rule} {text : Text}
  {left left' : Option Text} {step step' : Text → Option Text}

/-- Before the text the rule matches up to the rest, or it does not match if none is left. -/
def Leaves (grammar : Grammar) (rule : Rule) (text : Text) : Option Text → Prop
  | some rest => grammar.Takes rule text rest fun _ => True
  | none => grammar.Refuses rule text

/-- The rule leaves what the step leaves, and does not match where there is no step. -/
def Steps (grammar : Grammar) (rule : Rule) (step : Text → Option Text) : Prop :=
  ∀ text, grammar.Leaves rule text (step text)

theorem leaves_some {rest : Text} : grammar.Leaves rule text (some rest) ↔
    grammar.Takes rule text rest fun _ => True := .rfl

theorem leaves_none : grammar.Leaves rule text none ↔ grammar.Refuses rule text := .rfl

/-- A terminal leaves what its lexical rule leaves, but it does not match at the end. -/
theorem leaves_terminal {leaf : Terminal} {name : String} {lexical : LexRule} {caseless : Bool}
    (known : leaf.lexical? grammar.lexicon = some (name, lexical, caseless))
    (plain : grammar.ignore = []) (text : Text) :
    grammar.Leaves (.terminal leaf) text
      (if text = [] then none else (lexical.matchCount? caseless text).map text.drop) := by
  have skips : Skips grammar.ignore [] text := plain ▸ .of_nil text
  split
  · exact skips.refuses_terminal known (.inl ‹_›)
  · rename_i filled
    cases counted : lexical.matchCount? caseless text with
    | none => exact skips.refuses_terminal known (.inr counted)
    | some count =>
      intro cursor left
      have here : (cursor.skip grammar.ignore).rest = text := skips cursor left
      have matched := Terminal.eval_eq_ok_iff.mpr ⟨name, lexical, caseless, count, known,
        here ▸ filled, here ▸ counted, rfl⟩
      refine ⟨Terminal.taken name (cursor.skip grammar.ignore) count, ?_, ?_, trivial⟩
      · exact gives_of_unfolds (matched ▸ Unfolds.terminal)
      · rw [Terminal.taken, Cursor.rest_forward, here]

theorem leaves_reference {name : String} (declared : grammar.productions.find? name = some rule)
    (here : grammar.Leaves rule text left) : grammar.Leaves (.reference name) text left := by
  cases left with
  | none => exact refuses_reference declared here
  | some rest => exact leaves_some.mpr (takes_reference declared (leaves_some.mp here))

theorem leaves_ordered_nil (text : Text) : grammar.Leaves (.ordered []) text none :=
  leaves_none.mpr (refuses_ordered fun _ member => nomatch member)

theorem leaves_ordered_cons (here : grammar.Leaves rule text left)
    (others : grammar.Leaves (.ordered rules) text left') :
    grammar.Leaves (.ordered (rule :: rules)) text (left.or left') := by
  cases left with
  | some rest => exact takes_ordered_head (leaves_some.mp here)
  | none =>
    cases left' with
    | none => exact refuses_ordered_cons here others
    | some rest => exact takes_ordered_tail here (leaves_some.mp others)

/-- The second rule goes on where the first one ends. -/
theorem leaves_pair (here : grammar.Leaves rule text left) (more : grammar.Steps rule' step') :
    grammar.Leaves (.sequence [rule, rule']) text (left.bind step') := by
  cases left with
  | none => exact refuses_sequence (.head here)
  | some middle =>
    have taken := leaves_some.mp here
    have next := more middle
    rw [Option.bind_some]
    generalize step' middle = left at next
    cases left with
    | none => exact refuses_sequence (.tail taken (.head next))
    | some rest =>
      refine leaves_some.mpr (takes_sequence ?_)
      exact .cons taken fun _ _ => .cons (leaves_some.mp next) fun _ _ => .nil trivial

/-- Rounds of a rule whose steps take characters go on for as long as there is a step. -/
theorem leaves_exhausts (steps : grammar.Steps rule step)
    (shorter : ∀ text rest, step text = some rest → rest.length < text.length) {rest : Text}
    (exhausts : Text.Exhausts step text rest) :
    grammar.Leaves (.zeroOrMore rule) text (some rest) := by
  suffices rounds : grammar.TakesRounds rule text rest fun _ => True from
    leaves_some.mpr (takes_repetition (rounds.mono fun nodes _ => ⟨Nat.zero_le _, trivial⟩))
  induction exhausts with
  | @done text none => exact .done (leaves_none.mp (none ▸ steps text)) trivial
  | @next text middle rest some _ ih =>
    exact .next (leaves_some.mp (some ▸ steps text)) (shorter text middle some) fun _ _ => ih

/-- A match ends after the characters that are not left. -/
theorem stop?_of_gives {cursor : Cursor} {outcome : Outcome} {count : Option Nat}
    (leaves : grammar.Leaves rule cursor.rest (count.map cursor.rest.drop))
    (gives : grammar.Gives rule cursor outcome) : outcome.stop? = count.map cursor.forward := by
  cases count with
  | none =>
    obtain ⟨reject, rejects⟩ := leaves_none.mp leaves cursor rfl
    cases Option.some.inj (gives.symm.trans rejects)
    rfl
  | some count =>
    obtain ⟨found, taken, left, -⟩ := leaves_some.mp leaves cursor rfl
    cases Option.some.inj (gives.symm.trans taken)
    have leads : cursor.LeadsTo found.cursor := eval_after gives
    refine congrArg some (Cursor.eq_of_rest ?_ ?_)
    · rw [leads.text_eq, Cursor.text_forward]
    · rw [left, Cursor.rest_forward]

/-- A production is applied up to what its rule leaves. -/
theorem exists_applied {name : String} (declared : grammar.productions.find? name = some rule)
    {cursor : Cursor} {count : Option Nat}
    (leaves : grammar.Leaves rule cursor.rest (count.map cursor.rest.drop)) :
    ∃ outcome environment,
      (Environment.start grammar).applyAt? name cursor = some (some outcome, environment) ∧
      outcome.stop? = count.map cursor.forward := by
  obtain ⟨outcome, gives⟩ : ∃ outcome, grammar.Gives rule cursor outcome := by
    cases count with
    | none =>
      obtain ⟨reject, rejects⟩ := leaves_none.mp leaves cursor rfl
      exact ⟨_, rejects⟩
    | some count =>
      obtain ⟨found, taken, -⟩ := leaves_some.mp leaves cursor rfl
      exact ⟨_, taken⟩
  have direct : grammar.applyAt? name cursor = some (some outcome) := by
    rw [applyAt?_eq, declared]
    exact Option.map_eq_some_iff.mpr ⟨outcome, gives, rfl⟩
  have fresh : ((Environment.start grammar).applyAt? name cursor).map Prod.fst =
      grammar.applyAt? name cursor :=
    Call.map_on? (.empty grammar cursor.text)
      (show (Call.apply name cursor).cursor.text = cursor.text from rfl)
  obtain ⟨⟨result, environment⟩, applied, rfl⟩ :=
    Option.map_eq_some_iff.mp (fresh.trans direct)
  exact ⟨outcome, environment, applied, stop?_of_gives leaves gives⟩

end Grammar

section OneOf

/-- The sets of characters of which an expression takes one, if that is all it does. -/
def Regex.oneOf? : Regex → Option (List CharSet)
  | .seq (.look .textStart) (.chars set) => some [set]
  | .seq (.look .textStart) (.literal [c]) => some [.single c]
  | _ => none

/-- The sets of characters of which a lexical rule takes one, if that is all it does. -/
def LexRule.oneOf? (caseless : Bool) : LexRule → Option (List CharSet)
  | .literal [c] =>
      if !caseless then some [.single c]
      else if c.toNat < 0x80 && c != 'k' && c != 'K' then some (alikes c)
      else none
  | .literal _ => none
  | .pattern tried => tried.regex.oneOf?

mutual

/-- The sets of characters of which a rule takes one, if that is all it does, given those of
productions. -/
def Rule.oneOf? (known : String → Option (List CharSet)) : Rule → Option (List CharSet)
  | .terminal (.inline _ rule caseless) => rule.oneOf? caseless
  | .ordered rules => oneOfAll? known rules
  | .reference name => known name
  | _ => none

/-- The sets of characters of which one of several rules takes one. -/
def Rule.oneOfAll? (known : String → Option (List CharSet)) : List Rule → Option (List CharSet)
  | [] => some []
  | rule :: more => do return (← rule.oneOf? known) ++ (← oneOfAll? known more)

end

/-- The sets of characters of which productions take one, if that can be seen with no more than a
number of references. -/
def oneOfWithin (productions : List (String × Rule)) : Nat → String → Option (List CharSet)
  | 0, _ => none
  | depth + 1, name =>
      (productions.lookup name).bind (Rule.oneOf? (oneOfWithin productions depth))

theorem Pattern.map_matchCount?_of_oneOf {pattern : Pattern} {sets : List CharSet}
    (found : pattern.regex.oneOf? = some sets) (text : Text) :
    (pattern.matchCount? text).map text.drop = text.afterOneOf sets := by
  unfold Regex.oneOf? at found
  split at found
  · rename_i set shape
    cases found
    exact map_matchCount?_of_steps shape rfl (.chars set) text
  · rename_i c shape
    cases found
    refine (map_matchCount?_of_steps shape rfl (.literal_cons .literal_nil c) text).trans ?_
    exact Option.bind_fun_some _
  · cases found

private theorem LexRule.map_matchCount?_literal {c : Char} {caseless : Bool} {sets : List CharSet}
    (first : ∀ d, sets.any (·.contains d) = if caseless then alike c d else c == d) (text : Text) :
    ((literal [c]).matchCount? caseless text).map text.drop = text.afterOneOf sets := by
  cases text with
  | nil => cases caseless <;> rfl
  | cons d rest =>
    rw [Text.afterOneOf, first]
    cases caseless with
    | false => by_cases same : c = d <;> simp [matchCount?, same]
    | true => cases same : alike c d <;> simp [matchCount?, beginsAlike, same]

theorem LexRule.map_matchCount?_of_oneOf {rule : LexRule} {caseless : Bool} {sets : List CharSet}
    (found : rule.oneOf? caseless = some sets) (text : Text) :
    (rule.matchCount? caseless text).map text.drop = text.afterOneOf sets := by
  unfold oneOf? at found
  split at found
  · rename_i c
    refine map_matchCount?_literal (fun d => ?_) text
    split at found
    · rename_i exact'
      cases found
      rw [if_neg (by simpa using exact'), List.any_cons, List.any_nil, Bool.or_false,
        Bool.eq_iff_iff, CharSet.contains_single, beq_iff_eq]
      exact eq_comm
    · rename_i folded
      obtain ⟨plain, same⟩ := Option.ite_none_right_eq_some.mp found
      cases same
      simp only [Bool.and_eq_true, decide_eq_true_eq, bne_iff_ne] at plain
      rw [if_pos (by simpa using folded), any_alikes plain.1.1 plain.1.2 plain.2]
  · cases found
  · exact Pattern.map_matchCount?_of_oneOf found text

namespace Grammar

variable {grammar : Grammar} {known : String → Option (List CharSet)}

/-- A terminal with a lexical rule that takes one character takes one, at the end too. -/
theorem steps_terminal_of_oneOf {leaf : Terminal} {name : String} {lexical : LexRule}
    {caseless : Bool} {sets : List CharSet}
    (listed : leaf.lexical? grammar.lexicon = some (name, lexical, caseless))
    (plain : grammar.ignore = []) (found : lexical.oneOf? caseless = some sets) :
    grammar.Steps (.terminal leaf) (Text.afterOneOf sets) := by
  intro text
  have here := leaves_terminal listed plain text
  rw [LexRule.map_matchCount?_of_oneOf found] at here
  cases text with
  | nil => exact here
  | cons c rest => exact here

mutual

/-- A rule takes one character of the sets that are computed for it. -/
theorem steps_of_oneOf (plain : grammar.ignore = [])
    (sound : ∀ name sets, known name = some sets →
      grammar.Steps (.reference name) (Text.afterOneOf sets)) :
    ∀ {rule : Rule} {sets : List CharSet}, rule.oneOf? known = some sets →
      grammar.Steps rule (Text.afterOneOf sets)
  | .terminal (.inline _ _ _), _, found => steps_terminal_of_oneOf rfl plain found
  | .reference name, sets, found => sound name sets found
  | .ordered _, _, found => steps_of_oneOfAll plain sound found

theorem steps_of_oneOfAll (plain : grammar.ignore = [])
    (sound : ∀ name sets, known name = some sets →
      grammar.Steps (.reference name) (Text.afterOneOf sets)) :
    ∀ {rules : List Rule} {sets : List CharSet}, Rule.oneOfAll? known rules = some sets →
      grammar.Steps (.ordered rules) (Text.afterOneOf sets)
  | [], _, found => by
      cases found
      intro text
      have none : text.afterOneOf [] = none := by cases text <;> rfl
      rw [none]
      exact leaves_ordered_nil text
  | rule :: more, _, found => by
      obtain ⟨sets, here, found⟩ := Option.bind_eq_some_iff.mp found
      obtain ⟨sets', others, found⟩ := Option.bind_eq_some_iff.mp found
      cases found
      intro text
      rw [Text.afterOneOf_append]
      exact leaves_ordered_cons (steps_of_oneOf plain sound here text)
        (steps_of_oneOfAll plain sound others text)

end

/-- A production takes one character of the sets that are computed for it. -/
theorem steps_of_oneOfWithin {productions : List (String × Rule)}
    (plain : grammar.ignore = [])
    (declared : ∀ name rule, productions.lookup name = some rule →
      grammar.productions.find? name = some rule) {depth : Nat} :
    ∀ name sets, oneOfWithin productions depth name = some sets →
      grammar.Steps (.reference name) (Text.afterOneOf sets) := by
  induction depth with
  | zero => exact fun _ _ found => nomatch found
  | succ depth ih =>
    intro name sets found text
    obtain ⟨rule, listed, found⟩ := Option.bind_eq_some_iff.mp found
    exact leaves_reference (declared name rule listed) (steps_of_oneOf plain ih found text)

end Grammar

end OneOf

end Packrat
