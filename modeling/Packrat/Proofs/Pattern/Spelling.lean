import Packrat.Proofs.Pattern.Frontier

/-! # What matches take

The text that a match of an expression takes is spelled by the expression: `Regex.Spells` reads
expressions as sets of words and forgets preferences and conditions. Whatever a pattern matches is
so spelled (`Pattern.spells_of_matchCount?`).
-/

namespace Packrat

namespace Regex

/-- The words that an expression stands for, conditions on places left aside. -/
inductive Spells : Regex → Text → Prop where
  | empty : Spells .empty []
  | literal {text} : Spells (.literal text) text
  | chars {set c} (belongs : set.contains c = true) : Spells (.chars set) [c]
  | look {condition} : Spells (.look condition) []
  | repetition {min max greedy body} {words : List Text} (enough : min ≤ words.length)
      (bounded : ∀ most, max = some most → words.length ≤ min + (most - min))
      (rounds : ∀ word ∈ words, Spells body word) :
      Spells (.repetition min max greedy body) words.flatten
  | group {index body word} (inner : Spells body word) : Spells (.group index body) word
  | seq {first rest word word'} (front : Spells first word) (back : Spells rest word') :
      Spells (.seq first rest) (word ++ word')
  | preferred {preferred other word} (inner : Spells preferred word) :
      Spells (.alt preferred other) word
  | other {preferred other word} (inner : Spells other word) : Spells (.alt preferred other) word

/-- A run of characters of a set is a word of the repetition of the set. -/
theorem Spells.run {set : CharSet} {min : Nat} {greedy : Bool} {word : Text}
    (each : ∀ c ∈ word, set.contains c = true) (enough : min ≤ word.length) :
    Spells (.repetition min none greedy (.chars set)) word := by
  have flat : (word.map fun c => [c]).flatten = word := by
    rw [← List.flatMap_def, List.flatMap_singleton']
  have rounds : Spells (.repetition min none greedy (.chars set))
      (word.map fun c => [c]).flatten := by
    refine .repetition (by rwa [List.length_map]) nofun fun single member => ?_
    obtain ⟨c, among, rfl⟩ := List.mem_map.mp member
    exact .chars (each c among)
  rwa [flat] at rounds

/-- A word of a repetition of a set is a run of its characters. -/
theorem Spells.contains_of_run {set : CharSet} {min : Nat} {max : Option Nat} {greedy : Bool}
    {word : Text} (spells : Spells (.repetition min max greedy (.chars set)) word) :
    ∀ c ∈ word, set.contains c = true := by
  cases spells with
  | repetition enough bounded rounds =>
    intro c member
    obtain ⟨single, among, inside⟩ := List.mem_flatten.mp member
    cases rounds single among with
    | chars belongs => exact List.mem_singleton.mp inside ▸ belongs

/-- A run of characters is as long as there are rounds. -/
theorem Spells.length_of_run {set : CharSet} {min most : Nat} {greedy : Bool} {word : Text}
    (spells : Spells (.repetition min (some most) greedy (.chars set)) word) :
    min ≤ word.length ∧ word.length ≤ min + (most - min) := by
  cases spells with
  | @repetition _ _ _ _ words enough bounded rounds =>
    have single : ∀ word ∈ words, word.length = 1 := by
      intro word member
      cases rounds word member
      rfl
    have length : words.flatten.length = words.length := by
      rw [List.length_flatten, List.map_congr_left single]
      simp
    exact length ▸ ⟨enough, bounded most rfl⟩

/-- What may be left out is left out. -/
theorem Spells.without {max : Option Nat} {greedy : Bool} {body : Regex} :
    Spells (.repetition 0 max greedy body) [] :=
  @repetition 0 max greedy body [] (Nat.le_refl _) (fun _ _ => Nat.zero_le _) nofun

/-- What may be left out is there. -/
theorem Spells.once {greedy : Bool} {body : Regex} {word : Text} (inner : Spells body word) :
    Spells (.repetition 0 (some 1) greedy body) word := by
  have rounds : Spells (.repetition 0 (some 1) greedy body) [word].flatten :=
    .repetition (Nat.zero_le _) (fun _ same => by cases same; exact Nat.le_refl _)
      (List.forall_mem_singleton.mpr inner)
  simpa using rounds

/-- Whether an expression is made without a character. -/
def omits (c : Char) : Regex → Bool
  | .empty | .look _ => true
  | .literal text => !text.contains c
  | .chars set => !set.contains c
  | .repetition _ _ _ body | .group _ body => body.omits c
  | .seq first rest => first.omits c && rest.omits c
  | .alt preferred other => preferred.omits c && other.omits c

/-- What an expression is made without stands in none of its words. -/
theorem Spells.not_mem {c : Char} {regex : Regex} {word : Text} (spells : regex.Spells word)
    (omitted : regex.omits c = true) : c ∉ word := by
  induction spells with
  | empty | look => exact List.not_mem_nil
  | literal => simpa [omits] using omitted
  | chars belongs =>
    rintro member
    cases List.mem_singleton.mp member
    simp [omits, belongs] at omitted
  | repetition _ _ _ ih =>
    intro member
    obtain ⟨word, among, member⟩ := List.mem_flatten.mp member
    exact ih word among omitted member
  | group _ ih => exact ih omitted
  | seq _ _ ih ih' =>
    obtain ⟨here, there⟩ := Bool.and_eq_true_iff.mp omitted
    exact List.not_mem_append (ih here) (ih' there)
  | preferred _ ih => exact ih (Bool.and_eq_true_iff.mp omitted).1
  | other _ ih => exact ih (Bool.and_eq_true_iff.mp omitted).2

/-- What is taken between two places satisfies a predicate. -/
def Between (spelled : Text → Prop) (place next : Place) : Prop :=
  ∃ word, place.after = word ++ next.after ∧ next.index = place.index + word.length ∧ spelled word

namespace Between

theorem refl (place : Place) : Between (· = []) place place := ⟨[], by simp⟩

theorem imp {spelled spelled' : Text → Prop} {place next : Place}
    (between : Between spelled place next) (weaker : ∀ word, spelled word → spelled' word) :
    Between spelled' place next := by
  obtain ⟨word, after, index, taken⟩ := between
  exact ⟨word, after, index, weaker word taken⟩

theorem trans {spelled spelled' : Text → Prop} {place middle next : Place}
    (front : Between spelled place middle) (back : Between spelled' middle next) :
    Between (fun word => ∃ first rest, word = first ++ rest ∧ spelled first ∧ spelled' rest)
      place next := by
  obtain ⟨word, after, index, taken⟩ := front
  obtain ⟨word', after', index', taken'⟩ := back
  refine ⟨word ++ word', ?_, ?_, word, word', rfl, taken, taken'⟩
  · rw [after, after', List.append_assoc]
  · rw [index', index, List.length_append, Nat.add_assoc]

theorem take {isMember : Char → Bool} {place next : Place}
    (taken : place.take? isMember = some next) :
    Between (fun word => ∃ c, isMember c = true ∧ word = [c]) place next := by
  obtain ⟨c, belongs, after, -, index⟩ := Place.take?_eq_some taken
  exact ⟨[c], by simp [after], index, c, belongs, rfl⟩

end Between

theorem between_literal {text : Text} {place next : Place}
    (member : next ∈ literalEnds text place) : Between (· = text) place next := by
  induction text generalizing place with
  | nil =>
    obtain rfl := List.mem_singleton.mp member
    exact .refl _
  | cons c text ih =>
    obtain ⟨middle, taken, member⟩ := List.mem_flatMap.mp member
    refine ((Between.take (Option.mem_toList.mp taken)).trans (ih member)).imp ?_
    rintro word ⟨_, _, rfl, ⟨d, belongs, rfl⟩, rfl⟩
    rw [(CharSet.contains_single c d).mp belongs]
    rfl

/-- So many words of a kind, one after the other. -/
def Rounds (spelled : Text → Prop) (least most : Nat) (word : Text) : Prop :=
  ∃ words : List Text, word = words.flatten ∧ least ≤ words.length ∧ words.length ≤ most ∧
    ∀ part ∈ words, spelled part

section Rounds

variable {spelled : Text → Prop} {body : Place → List Place}
  (spells : ∀ place next, next ∈ body place → Between spelled place next)

include spells

theorem between_exactly {count : Nat} {place next : Place}
    (member : next ∈ exactly body count place) :
    Between (Rounds spelled count count) place next := by
  induction count generalizing place with
  | zero =>
    obtain rfl := List.mem_singleton.mp member
    exact (Between.refl next).imp fun word empty => ⟨[], by simp [empty]⟩
  | succ count ih =>
    obtain ⟨middle, taken, member⟩ := List.mem_flatMap.mp member
    refine ((spells place middle taken).trans (ih member)).imp ?_
    rintro word ⟨first, rest, rfl, taken, words, rfl, least, most, parts⟩
    exact ⟨first :: words, rfl, by simpa using least, by simpa using most,
      List.forall_mem_cons.mpr ⟨taken, parts⟩⟩

theorem between_atMost {greedy : Bool} {count : Nat} {place next : Place}
    (member : next ∈ atMost greedy body count place) :
    Between (Rounds spelled 0 count) place next := by
  have none (next : Place) (count : Nat) : Between (Rounds spelled 0 count) next next :=
    (Between.refl next).imp fun word empty => ⟨[], by simp [empty]⟩
  induction count generalizing place with
  | zero =>
    obtain rfl := List.mem_singleton.mp member
    exact none next 0
  | succ count ih =>
    rcases mem_prefer.mp member with member | member
    · obtain ⟨middle, taken, member⟩ := List.mem_flatMap.mp member
      refine ((spells place middle taken).trans (ih member)).imp ?_
      rintro word ⟨first, rest, rfl, taken, words, rfl, -, most, parts⟩
      exact ⟨first :: words, rfl, Nat.zero_le _, by simpa using most,
        List.forall_mem_cons.mpr ⟨taken, parts⟩⟩
    · obtain rfl := List.mem_singleton.mp member
      exact none next _

end Rounds

/-- A match takes a word of the expression. -/
theorem between_ends {regex : Regex} {place next : Place} (member : next ∈ regex.ends place) :
    Between regex.Spells place next := by
  induction regex generalizing place next with
  | empty =>
    obtain rfl := List.mem_singleton.mp member
    exact (Between.refl next).imp fun word empty => empty ▸ .empty
  | literal text => exact (between_literal member).imp fun word same => same ▸ .literal
  | chars set =>
    refine (Between.take (Option.mem_toList.mp member)).imp ?_
    rintro word ⟨c, belongs, rfl⟩
    exact .chars belongs
  | look condition =>
    simp only [ends] at member
    split at member
    · obtain rfl := List.mem_singleton.mp member
      exact (Between.refl next).imp fun word empty => empty ▸ .look
    · cases member
  | repetition min max greedy body ih =>
    have spells := fun place next member => @ih place next member
    cases max with
    | some max =>
      obtain ⟨middle, needed, further⟩ := List.mem_flatMap.mp member
      refine ((between_exactly spells needed).trans (between_atMost spells further)).imp ?_
      rintro word ⟨_, _, rfl, ⟨words, rfl, least, most, parts⟩, others, rfl, -, most', parts'⟩
      rw [← List.flatten_append]
      refine .repetition (by simp; omega) (fun bound same => ?_)
        (List.forall_mem_append.mpr ⟨parts, parts'⟩)
      cases same
      simp only [List.length_append]
      omega
    | none =>
      obtain ⟨middle, needed, further⟩ := List.mem_flatMap.mp member
      refine ((between_exactly spells needed).trans (between_atMost spells further)).imp ?_
      rintro word ⟨_, _, rfl, ⟨words, rfl, least, most, parts⟩, others, rfl, -, most', parts'⟩
      rw [← List.flatten_append]
      refine .repetition (by simp; omega) ?_ (List.forall_mem_append.mpr ⟨parts, parts'⟩)
      rintro bound ⟨⟩
  | group index body ih => exact (ih member).imp fun _ => .group
  | seq first rest ih ih' =>
    obtain ⟨middle, front, back⟩ := List.mem_flatMap.mp member
    refine ((ih front).trans (ih' back)).imp ?_
    rintro word ⟨_, _, rfl, front, back⟩
    exact .seq front back
  | alt preferred other ih ih' =>
    rcases List.mem_append.mp member with member | member
    · exact (ih member).imp fun _ => .preferred
    · exact (ih' member).imp fun _ => .other

end Regex

namespace Pattern

/-- What a pattern matches at the front of a text is a word of its expression. -/
theorem spells_of_matchCount? {pattern : Pattern} (anchored : pattern.regex.anchored = true)
    (loops : pattern.regex.LoopsAdvance = true) {text : Text} {count : Nat}
    (found : pattern.matchCount? text = some count) :
    ∃ word rest, text = word ++ rest ∧ count = word.length ∧ pattern.regex.Spells word := by
  rw [matchCount?_eq anchored loops] at found
  obtain ⟨next, first, rfl⟩ := Option.map_eq_some_iff.mp found
  obtain ⟨word, after, index, spelled⟩ := Regex.between_ends (List.mem_of_head? first)
  exact ⟨word, next.after, after, by simpa [Place.start] using index, spelled⟩

/-- A pattern that advances takes a character. -/
theorem matchCount?_pos {pattern : Pattern} (anchored : pattern.regex.anchored = true)
    (loops : pattern.regex.LoopsAdvance = true) (advances : pattern.regex.advances = true)
    {text : Text} {count : Nat} (found : pattern.matchCount? text = some count) : 0 < count := by
  rw [matchCount?_eq anchored loops] at found
  obtain ⟨next, first, rfl⟩ := Option.map_eq_some_iff.mp found
  have member := List.mem_of_head? first
  obtain ⟨word, after, index, -⟩ := Regex.between_ends member
  have shorter := Regex.takes_of_advances advances _ next member
  rw [after, List.length_append] at shorter
  omega

end Pattern

end Packrat
