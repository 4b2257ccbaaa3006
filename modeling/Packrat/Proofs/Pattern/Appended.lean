import Packrat.Lexicon.Rule
import Packrat.Proofs.Pattern.Steady
import Mathlib.Data.List.Induction

/-! # Matches in a text that goes on

Where a text goes on with a suffix, an expression that looks at nothing but the start of the text
keeps its matches in their order, and gains only such as reach into the suffix (`Regex.keeps_ends`).
If no word of the expression ends with a character of the suffix it gains none, so a pattern takes
what it took without the suffix (`Pattern.matchCount?_append`).
-/

namespace Packrat

/-- The place in the text that goes on with a suffix. -/
def Place.followedBy (suffix : Text) (place : Place) : Place :=
  { place with after := place.after ++ suffix }

namespace Regex

/-- Whether the expression looks at nothing but the start of the text. -/
def looksBack : Regex → Bool
  | .empty | .literal _ | .chars _ => true
  | .look condition => condition = .textStart
  | .repetition _ _ _ body | .group _ body => body.looksBack
  | .seq first rest => first.looksBack && rest.looksBack
  | .alt preferred other => preferred.looksBack && other.looksBack

/-- The sets of characters with which words of an expression end. -/
def finals : Regex → List CharSet
  | .empty | .look _ => []
  | .literal text => (text.getLast?.map CharSet.single).toList
  | .chars set => [set]
  | .repetition _ _ _ body | .group _ body => body.finals
  | .seq first rest => rest.finals ++ if rest.nullable then first.finals else []
  | .alt preferred other => preferred.finals ++ other.finals

private theorem finals_of_flatten {sets : List CharSet} {words : List Text} {c : Char}
    {front : Text} (same : words.flatten = front ++ [c])
    (each : ∀ word ∈ words, ∀ front, word = front ++ [c] → ∃ set ∈ sets, set.contains c = true) :
    ∃ set ∈ sets, set.contains c = true := by
  induction words using List.reverseRecOn with
  | nil => simp at same
  | append_singleton words word ih =>
    obtain ⟨others, last⟩ := List.forall_mem_append.mp each
    rcases List.eq_nil_or_concat word with rfl | ⟨start, d, rfl⟩
    · exact ih (by simpa using same) others
    · rw [List.flatten_append, List.flatten_singleton, List.concat_eq_append,
        ← List.append_assoc] at same
      obtain ⟨-, last'⟩ := List.append_inj' same rfl
      cases last'
      exact last _ (List.mem_singleton_self _) start List.concat_eq_append

/-- A word that is not empty ends with a character of one of the sets. -/
theorem finals_of_spells {regex : Regex} {word : Text} (spells : regex.Spells word) {c : Char}
    {front : Text} (same : word = front ++ [c]) : ∃ set ∈ regex.finals, set.contains c = true := by
  induction spells generalizing front with
  | empty | look => simp at same
  | @literal text =>
    subst same
    exact ⟨.single c, by simp [finals], (CharSet.contains_single c c).mpr rfl⟩
  | @chars set d belongs =>
    obtain rfl : d = c := by
      cases front with
      | nil => simpa using same
      | cons e front => simp at same
    exact ⟨_, List.mem_singleton_self _, belongs⟩
  | repetition enough bounded rounds ih =>
    exact finals_of_flatten same fun word member front same => ih word member same
  | group _ ih => exact ih same
  | @seq first second word word' _ back ih ih' =>
    rcases List.eq_nil_or_concat word' with rfl | ⟨start, d, rfl⟩
    · obtain ⟨set, member, belongs⟩ := ih (by simpa using same)
      refine ⟨set, List.mem_append_right _ ?_, belongs⟩
      rwa [if_pos (nullable_of_spells back rfl)]
    · rw [List.concat_eq_append, ← List.append_assoc] at same
      obtain ⟨-, last⟩ := List.append_inj' same rfl
      cases last
      obtain ⟨set, member, belongs⟩ := ih' List.concat_eq_append
      exact ⟨set, List.mem_append_left _ member, belongs⟩
  | preferred _ ih =>
    obtain ⟨set, member, belongs⟩ := ih same
    exact ⟨set, List.mem_append_left _ member, belongs⟩
  | other _ ih =>
    obtain ⟨set, member, belongs⟩ := ih same
    exact ⟨set, List.mem_append_right _ member, belongs⟩

/-- Before a suffix the ends are those without it, in the same order, and others that lie within
the suffix. -/
def Keeps (suffix : Text) (body : Place → List Place) : Prop :=
  ∀ place : Place, (body (place.followedBy suffix)).filter (suffix.length ≤ ·.after.length) =
    (body place).map (·.followedBy suffix)

private theorem flatMap_filter {α β : Type} {holds : α → Bool} {values : List α}
    {next : α → List β} (none : ∀ value ∈ values, holds value = false → next value = []) :
    values.flatMap next = (values.filter holds).flatMap next := by
  induction values with
  | nil => rfl
  | cons value values ih =>
    obtain ⟨here, others⟩ := List.forall_mem_cons.mp none
    rw [List.flatMap_cons, ih others]
    cases known : holds value with
    | true => rw [List.filter_cons_of_pos known, List.flatMap_cons]
    | false =>
      rw [List.filter_cons_of_neg (Bool.not_eq_true _ ▸ known), here known, List.nil_append]

namespace Keeps

variable {suffix : Text} {body rest : Place → List Place}

theorem single : Keeps suffix fun place => [place] := by
  intro place
  simp [Place.followedBy]

theorem comp (keeps : Keeps suffix body) (keeps' : Keeps suffix rest) (takes : Takes 0 rest) :
    Keeps suffix fun place => (body place).flatMap rest := by
  intro place
  -- what goes on from within the suffix ends there too
  have beyond (middle : Place) (within : decide (suffix.length ≤ middle.after.length) = false) :
      (rest middle).filter (suffix.length ≤ ·.after.length) = [] := by
    refine List.filter_eq_nil_iff.mpr fun next member => ?_
    have further := takes middle next member
    simp only [decide_eq_true_eq, decide_eq_false_iff_not] at within ⊢
    omega
  rw [List.filter_flatMap, flatMap_filter fun middle _ => beyond middle, keeps place,
    List.flatMap_map, List.map_flatMap]
  exact List.flatMap_congr fun middle _ => keeps' middle

theorem append (keeps : Keeps suffix body) (keeps' : Keeps suffix rest) :
    Keeps suffix fun place => body place ++ rest place := by
  intro place
  rw [List.filter_append, keeps place, keeps' place, List.map_append]

theorem prefer (greedy : Bool) (keeps : Keeps suffix body) (keeps' : Keeps suffix rest) :
    Keeps suffix fun place => prefer greedy (body place) (rest place) := by
  cases greedy with
  | true => exact keeps.append keeps'
  | false => exact keeps'.append keeps

theorem ofTake (isMember : Char → Bool) :
    Keeps suffix fun place => (place.take? isMember).toList := by
  intro place
  obtain ⟨index, before, after⟩ := place
  cases after with
  | nil =>
    refine List.filter_eq_nil_iff.mpr fun next member => ?_
    obtain ⟨c, -, after, -, -⟩ := Place.take?_eq_some (Option.mem_toList.mp member)
    have length := congrArg List.length after
    simp only [Place.followedBy, List.nil_append, List.length_cons] at length
    simp only [decide_eq_true_eq]
    omega
  | cons c after =>
    simp only [Place.followedBy, Place.take?, List.cons_append]
    split <;> simp

theorem literalEnds (text : Text) : Keeps suffix (Regex.literalEnds text) := by
  induction text with
  | nil => exact single
  | cons c text ih =>
    exact (ofTake _).comp ih ((Takes.literalEnds text).weaken (Nat.zero_le _))

theorem exactly (keeps : Keeps suffix body) (takes : Takes 0 body) (count : Nat) :
    Keeps suffix (Regex.exactly body count) := by
  induction count with
  | zero => exact single
  | succ count ih => exact keeps.comp ih ((takes.exactly count).weaken (Nat.zero_le _))

theorem atMost (keeps : Keeps suffix body) (takes : Takes 0 body) (greedy : Bool) (count : Nat) :
    Keeps suffix (Regex.atMost greedy body count) := by
  induction count with
  | zero => exact single
  | succ count ih => exact (keeps.comp ih (takes.atMost count)).prefer greedy single

theorem anyNumber (keeps : Keeps suffix body) (takes : Takes 1 body) (greedy : Bool) :
    Keeps suffix (Regex.anyNumber greedy body) := by
  intro place
  have longer : (place.followedBy suffix).after.length =
      place.after.length + suffix.length := List.length_append
  rw [← atMost_of_length_le takes (Nat.le_add_right place.after.length suffix.length),
    Regex.anyNumber, longer]
  exact keeps.atMost (takes.weaken (Nat.zero_le _)) greedy _ place

end Keeps

/-- An expression that does not look ahead keeps its matches before a suffix. -/
theorem keeps_ends (suffix : Text) {regex : Regex} (loops : regex.LoopsAdvance = true)
    (back : regex.looksBack = true) : Keeps suffix regex.ends := by
  have weak (regex : Regex) : Takes 0 regex.ends := (takes_ends regex).weaken (Nat.zero_le _)
  induction regex with
  | empty => exact .single
  | literal text => exact .literalEnds text
  | chars set => exact .ofTake _
  | look condition =>
    obtain rfl : condition = .textStart := by simpa [looksBack] using back
    intro place
    have same : Look.textStart.holds (place.followedBy suffix) = Look.textStart.holds place := rfl
    simp only [ends, same]
    split
    · exact Keeps.single place
    · rfl
  | repetition min max greedy body ih =>
    cases max with
    | some max =>
      have keeps := ih loops back
      exact (keeps.exactly (weak body) min).comp (keeps.atMost (weak body) greedy (max - min))
        ((weak body).atMost _)
    | none =>
      obtain ⟨advances, loops⟩ := Bool.and_eq_true_iff.mp loops
      have keeps := ih loops back
      exact (keeps.exactly (weak body) min).comp
        (keeps.anyNumber (takes_of_advances advances) greedy) (weak body).anyNumber
  | group index body ih => exact ih loops back
  | seq first rest ih ih' =>
    obtain ⟨loops, loops'⟩ := Bool.and_eq_true_iff.mp loops
    obtain ⟨back, back'⟩ := Bool.and_eq_true_iff.mp back
    exact (ih loops back).comp (ih' loops' back') (weak rest)
  | alt preferred other ih ih' =>
    obtain ⟨loops, loops'⟩ := Bool.and_eq_true_iff.mp loops
    obtain ⟨back, back'⟩ := Bool.and_eq_true_iff.mp back
    exact (ih loops back).append (ih' loops' back')

/-- Whether no character of the suffix is in a set with which words of the expression end. -/
def stopsBefore (regex : Regex) (suffix : Text) : Bool :=
  suffix.all fun c => regex.finals.all fun set => !set.contains c

/-- No match of an expression reaches into a suffix of characters with which none of its words
ends. -/
theorem length_le_of_stopsBefore {regex : Regex} {suffix : Text}
    (stops : regex.stopsBefore suffix = true) {place next : Place}
    (member : next ∈ regex.ends (place.followedBy suffix)) :
    suffix.length ≤ next.after.length := by
  obtain ⟨word, after, -, spells⟩ := between_ends member
  rcases List.append_eq_append_iff.mp (show place.after ++ suffix = word ++ next.after from after)
    with ⟨taken, rfl, rfl⟩ | ⟨left, -, same⟩
  · rcases List.eq_nil_or_concat taken with rfl | ⟨front, c, rfl⟩
    · simp
    · rw [List.concat_eq_append, ← List.append_assoc] at spells
      obtain ⟨set, among, belongs⟩ := finals_of_spells spells rfl
      have outside := List.all_eq_true.mp (List.all_eq_true.mp stops c (by simp)) set among
      simp [belongs] at outside
  · rw [same, List.length_append]
    exact Nat.le_add_left ..

end Regex

/-- Whether the pattern is seen to take the same from a text if that goes on with a suffix. -/
def Pattern.settled (suffix : Text) (pattern : Pattern) : Bool :=
  pattern.regex.anchored && pattern.regex.LoopsAdvance && pattern.regex.looksBack &&
    pattern.regex.stopsBefore suffix

/-- A settled pattern takes from a text what it takes if the suffix follows. -/
theorem Pattern.matchCount?_append {suffix : Text} {pattern : Pattern}
    (settled : pattern.settled suffix = true) (text : Text) :
    pattern.matchCount? (text ++ suffix) = pattern.matchCount? text := by
  simp only [Pattern.settled, Bool.and_eq_true] at settled
  obtain ⟨⟨⟨anchored, loops⟩, back⟩, stops⟩ := settled
  have kept := Regex.keeps_ends suffix loops back (.start text)
  rw [List.filter_eq_self.mpr fun next member =>
    decide_eq_true (Regex.length_le_of_stopsBefore stops member)] at kept
  rw [matchCount?_eq anchored loops, matchCount?_eq anchored loops,
    show Place.start (text ++ suffix) = (Place.start text).followedBy suffix from rfl, kept,
    List.head?_map, Option.map_map]
  rfl

namespace LexRule

/-- Whether the rule is seen to take the same from a text if that goes on with a suffix. -/
def settled (suffix : Text) : LexRule → Bool
  | .literal text => text.getLast?.all fun c => !suffix.contains c
  | .pattern tried => tried.settled suffix

private theorem prefix_append_iff {expected suffix : Text}
    (settled : (expected.getLast?.all fun c => !suffix.contains c) = true) (text : Text) :
    expected <+: text ++ suffix ↔ expected <+: text := by
  refine ⟨?_, fun starts => starts.trans (List.prefix_append ..)⟩
  rintro ⟨rest, same⟩
  rcases List.append_eq_append_iff.mp same with ⟨left, rfl, -⟩ | ⟨taken, rfl, rfl⟩
  · exact List.prefix_append ..
  · rcases List.eq_nil_or_concat taken with rfl | ⟨front, c, rfl⟩
    · simp
    · simp [List.concat_eq_append] at settled

/-- A settled rule takes from a text what it takes if the suffix follows. -/
theorem matchCount?_append {suffix : Text} {rule : LexRule} (settled : rule.settled suffix = true)
    (text : Text) : rule.matchCount? false (text ++ suffix) = rule.matchCount? false text := by
  cases rule with
  | literal expected =>
    simp only [matchCount?, Bool.false_eq_true, if_false, List.isPrefixOf_iff_prefix,
      prefix_append_iff settled]
  | pattern tried => exact Pattern.matchCount?_append settled text

end LexRule

end Packrat
