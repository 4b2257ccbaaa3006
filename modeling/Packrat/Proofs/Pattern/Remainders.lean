import Packrat.Proofs.Pattern.Steady

/-! # What patterns leave

A pattern that can match in one way only takes a step into a text, and what it leaves is that of the
step (`Regex.Steps`). A greedy repetition of it goes on until no step is possible
(`Text.Exhausts`).
-/

namespace Packrat

namespace Text

/-- The text after its first character, if that belongs to one of the sets. -/
def afterOneOf (sets : List CharSet) : Text → Option Text
  | [] => none
  | c :: rest => if sets.any (·.contains c) then some rest else none

theorem length_of_afterOneOf {sets : List CharSet} {text rest : Text}
    (taken : text.afterOneOf sets = some rest) : text.length = rest.length + 1 := by
  unfold afterOneOf at taken
  split at taken
  · cases taken
  · split at taken
    · cases taken
      rfl
    · cases taken

/-- Alternatives of one character each are a single one. -/
theorem afterOneOf_append (sets sets' : List CharSet) (text : Text) :
    text.afterOneOf (sets ++ sets') = (text.afterOneOf sets).or (text.afterOneOf sets') := by
  cases text with
  | nil => rfl
  | cons c rest =>
    by_cases here : (sets.any (·.contains c)) = true
    · simp [afterOneOf, List.any_append, here]
    · simp [afterOneOf, List.any_append, here]

/-- Steps into a text, one after the other, up to where no more is possible. -/
inductive Exhausts (step : Text → Option Text) : Text → Text → Prop where
  | done {text} (none : step text = none) : Exhausts step text text
  | next {text middle rest} (here : step text = some middle) (more : Exhausts step middle rest) :
      Exhausts step text rest

/-- Steps that take characters come to an end. -/
theorem exists_exhausts {step : Text → Option Text}
    (shorter : ∀ text rest, step text = some rest → rest.length < text.length) (text : Text) :
    ∃ rest, Exhausts step text rest := by
  induction long : text.length using Nat.strongRecOn generalizing text with
  | ind length ih =>
    cases here : step text with
    | none => exact ⟨text, .done here⟩
    | some middle =>
      obtain ⟨rest, more⟩ := ih middle.length (long ▸ shorter text middle here) middle rfl
      exact ⟨rest, .next here more⟩

end Text

namespace Regex

/-- The expression matches in one way at most, and leaves what the step leaves. -/
def Steps (regex : Regex) (step : Text → Option Text) : Prop :=
  ∀ place, (regex.ends place).map Place.after = (step place.after).toList

namespace Steps

variable {regex regex' : Regex} {step step' : Text → Option Text}

theorem chars (set : CharSet) : Steps (.chars set) (Text.afterOneOf [set]) := by
  intro place
  cases after : place.after with
  | nil => simp [ends, Place.take?_nil after, Text.afterOneOf]
  | cons c rest =>
    rw [ends, Place.take?_cons after, Text.afterOneOf, List.any_cons, List.any_nil, Bool.or_false]
    split <;> rfl

private theorem map_flatMap {places : List Place} {left : Option Text}
    (first : places.map Place.after = left.toList) (second : regex.Steps step) :
    (places.flatMap regex.ends).map Place.after = (left.bind step).toList := by
  calc (places.flatMap regex.ends).map Place.after
    _ = (places.map Place.after).flatMap fun text => (step text).toList := by
        simp only [List.map_flatMap, List.flatMap_map, second _]
    _ = (left.bind step).toList := by
        rw [first]
        cases left <;> simp

theorem literal_nil : Steps (.literal []) some := fun _ => rfl

theorem literal_cons {text : Text} (rest : Steps (.literal text) step) (c : Char) :
    Steps (.literal (c :: text)) fun text => (text.afterOneOf [.single c]).bind step :=
  fun place => map_flatMap (chars (.single c) place) rest

theorem seq (first : regex.Steps step) (second : regex'.Steps step') :
    Steps (.seq regex regex') fun text => (step text).bind step' :=
  fun place => map_flatMap (first place) second

/-- Alternatives of which one at most matches. -/
theorem alt (preferred : regex.Steps step) (other : regex'.Steps step')
    (apart : ∀ text, step text = none ∨ step' text = none) :
    Steps (.alt regex regex') fun text => (step text).or (step' text) := by
  intro place
  rw [ends, List.map_append, preferred place, other place]
  dsimp only
  rcases apart place.after with none | none
  · rw [none, Option.none_or]
    exact List.nil_append _
  · rw [none, Option.or_none]
    exact List.append_nil _

/-- Greedy rounds go on for as long as there is a step. -/
theorem exhausts (steps : regex.Steps step) (advances : regex.advances = true) {rest : Text}
    {place : Place} (exhausts : Text.Exhausts step place.after rest) :
    ((Regex.repetition 0 none true regex).ends place).head?.map Place.after = some rest := by
  have rounds (place : Place) : (Regex.repetition 0 none true regex).ends place =
      (regex.ends place).flatMap (Regex.repetition 0 none true regex).ends ++ [place] := by
    have one := @anyNumber_eq true _ (takes_of_advances advances) place
    rw [prefer, if_pos rfl] at one
    simpa only [ends, exactly, List.flatMap_singleton] using one
  generalize start : place.after = text at exhausts
  induction exhausts generalizing place with
  | @done text none =>
    have ended : regex.ends place = [] := by
      have same := steps place
      rw [start, none] at same
      exact List.map_eq_nil_iff.mp same
    rw [rounds, ended]
    exact congrArg some start
  | @next text middle rest here _ ih =>
    obtain ⟨next, ended, after⟩ : ∃ next, regex.ends place = [next] ∧ next.after = middle := by
      have same := steps place
      rw [start, here] at same
      exact List.map_eq_singleton_iff.mp same
    have further := ih after
    rw [rounds, ended, List.flatMap_singleton, List.head?_append]
    obtain ⟨last, first, left⟩ := Option.map_eq_some_iff.mp further
    rw [first]
    exact congrArg some left

end Steps

end Regex

namespace Pattern

variable {pattern : Pattern} {body : Regex}

/-- What a pattern leaves of a text is what its expression leaves that is tried at the start. -/
theorem map_matchCount? (shape : pattern.regex = .seq (.look .textStart) body)
    (loops : body.LoopsAdvance = true) (text : Text) :
    (pattern.matchCount? text).map text.drop = (body.ends (.start text)).head?.map Place.after := by
  have start : pattern.regex.ends (.start text) = body.ends (.start text) := by
    rw [shape]
    exact List.append_nil _
  rw [matchCount?_eq (shape ▸ rfl) (shape ▸ loops), start]
  cases first : (body.ends (.start text)).head? with
  | none => rfl
  | some next =>
    obtain ⟨word, after, index, -⟩ := Regex.between_ends (List.mem_of_head? first)
    change text = word ++ next.after at after
    rw [Option.map_some, Option.map_some, Option.map_some, index, after]
    simp [Place.start]

theorem map_matchCount?_of_steps {step : Text → Option Text}
    (shape : pattern.regex = .seq (.look .textStart) body) (loops : body.LoopsAdvance = true)
    (steps : body.Steps step) (text : Text) :
    (pattern.matchCount? text).map text.drop = step text := by
  rw [map_matchCount? shape loops, ← List.head?_map, steps]
  exact Option.head?_toList

end Pattern

end Packrat
