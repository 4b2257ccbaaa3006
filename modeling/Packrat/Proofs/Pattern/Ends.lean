import Packrat.Pattern.Regex
import Mathlib.Data.List.Basic

/-! # Where matches end

`Regex.ends` lists the places where the matches of an expression that begin at a place end, the
preferred match first. A repetition without a bound is read off this way only if every round
takes a character (`Regex.LoopsAdvance`): then no round is reached from the same place twice.
-/

namespace Packrat

namespace Place

/-- The place after the next character, if that belongs to a class. -/
def take? (place : Place) (isMember : Char → Bool) : Option Place :=
  match place.after with
  | [] => none
  | c :: rest => if isMember c then some ⟨place.index + 1, some c, rest⟩ else none

theorem take?_eq_some {place next : Place} {isMember : Char → Bool}
    (taken : place.take? isMember = some next) :
    ∃ c, isMember c = true ∧ place.after = c :: next.after ∧ next.before = some c ∧
      next.index = place.index + 1 := by
  unfold take? at taken
  split at taken
  · cases taken
  · rename_i c rest after
    split at taken
    · cases taken
      exact ⟨c, by assumption, after, rfl, rfl⟩
    · cases taken

theorem take?_cons {place : Place} {isMember : Char → Bool} {c : Char} {rest : Text}
    (after : place.after = c :: rest) :
    place.take? isMember =
      if isMember c then some ⟨place.index + 1, some c, rest⟩ else none := by
  simp [take?, after]

theorem take?_nil {place : Place} {isMember : Char → Bool} (after : place.after = []) :
    place.take? isMember = none := by
  simp [take?, after]

end Place

namespace Regex

/-- Going on is preferred to stopping if the repetition is greedy. -/
def prefer {α : Type} (greedy : Bool) (longer shorter : List α) : List α :=
  if greedy then longer ++ shorter else shorter ++ longer

/-- Where a text that stands at a place ends. -/
def literalEnds : Text → Place → List Place
  | [], place => [place]
  | c :: text, place =>
      (place.take? (CharSet.single c).contains).toList.flatMap (literalEnds text)

/-- Where so many rounds end. -/
def exactly (body : Place → List Place) : Nat → Place → List Place
  | 0, place => [place]
  | count + 1, place => (body place).flatMap (exactly body count)

/-- Where at most so many rounds end. -/
def atMost (greedy : Bool) (body : Place → List Place) : Nat → Place → List Place
  | 0, place => [place]
  | count + 1, place => prefer greedy ((body place).flatMap (atMost greedy body count)) [place]

/-- Where any number of rounds end, each of which takes a character. -/
def anyNumber (greedy : Bool) (body : Place → List Place) (place : Place) : List Place :=
  atMost greedy body place.after.length place

/-- Where the matches of an expression that begin at a place end, the preferred match first. -/
def ends : Regex → Place → List Place
  | .empty, place => [place]
  | .literal text, place => literalEnds text place
  | .chars set, place => (place.take? set.contains).toList
  | .look condition, place => if condition.holds place then [place] else []
  | .repetition min (some max) greedy body, place =>
      (exactly body.ends min place).flatMap (atMost greedy body.ends (max - min))
  | .repetition min none greedy body, place =>
      (exactly body.ends min place).flatMap (anyNumber greedy body.ends)
  | .group _ body, place => body.ends place
  | .seq first rest, place => (first.ends place).flatMap rest.ends
  | .alt preferred other, place => preferred.ends place ++ other.ends place

/-- Whether every round of a repetition without a bound takes a character. -/
def LoopsAdvance : Regex → Bool
  | .empty | .literal _ | .chars _ | .look _ => true
  | .repetition _ (some _) _ body => body.LoopsAdvance
  | .repetition _ none _ body => body.advances && body.LoopsAdvance
  | .group _ body => body.LoopsAdvance
  | .seq first rest => first.LoopsAdvance && rest.LoopsAdvance
  | .alt preferred other => preferred.LoopsAdvance && other.LoopsAdvance

theorem mem_prefer {α : Type} {greedy : Bool} {longer shorter : List α} {value : α} :
    value ∈ prefer greedy longer shorter ↔ value ∈ longer ∨ value ∈ shorter := by
  unfold prefer
  split <;> simp [or_comm]

/-- The ends of a body are so many characters further on, where they are at all. -/
def Takes (count : Nat) (body : Place → List Place) : Prop :=
  ∀ place next, next ∈ body place → count + next.after.length ≤ place.after.length

namespace Takes

variable {body rest : Place → List Place}

theorem weaken {count less : Nat} (takes : Takes count body) (below : less ≤ count) :
    Takes less body := by
  intro place next member
  have := takes place next member
  omega

theorem single : Takes 0 fun place => [place] := by
  intro place next member
  rw [List.mem_singleton.mp member]
  omega

theorem comp {count more : Nat} (takes : Takes count body) (takes' : Takes more rest) :
    Takes (count + more) fun place => (body place).flatMap rest := by
  intro place next member
  obtain ⟨middle, first, second⟩ := List.mem_flatMap.mp member
  have := takes place middle first
  have := takes' middle next second
  omega

theorem ofTake (isMember : Char → Bool) : Takes 1 fun place => (place.take? isMember).toList := by
  intro place next member
  obtain ⟨c, -, after, -, -⟩ := Place.take?_eq_some (Option.mem_toList.mp member)
  simp only [after, List.length_cons]
  omega

theorem literalEnds (text : Text) : Takes text.length (Regex.literalEnds text) := by
  induction text with
  | nil => exact single
  | cons c text ih =>
    rw [List.length_cons, Nat.add_comm]
    exact (ofTake (CharSet.single c).contains).comp ih

theorem exactly {count : Nat} (takes : Takes count body) (rounds : Nat) :
    Takes (count * rounds) (Regex.exactly body rounds) := by
  induction rounds with
  | zero => exact single
  | succ rounds ih =>
    rw [Nat.mul_succ, Nat.add_comm]
    exact takes.comp ih

theorem atMost {greedy : Bool} (takes : Takes 0 body) (rounds : Nat) :
    Takes 0 (Regex.atMost greedy body rounds) := by
  induction rounds with
  | zero => exact single
  | succ rounds ih =>
    intro place next member
    rcases mem_prefer.mp member with member | member
    · exact takes.comp ih place next member
    · exact single place next member

theorem anyNumber {greedy : Bool} (takes : Takes 0 body) :
    Takes 0 (Regex.anyNumber greedy body) :=
  fun place => takes.atMost place.after.length place

end Takes

theorem takes_repetition {body : Place → List Place} {count : Nat} (takes : Takes count body)
    (min : Nat) {tail : Place → List Place} (last : Takes 0 tail) :
    Takes (count * min) fun place => (exactly body min place).flatMap tail :=
  (takes.exactly min).comp last

/-- A match takes as many characters as the form of the expression shows. -/
theorem takes_ends (regex : Regex) : Takes (regex.minLength?.getD 0) regex.ends := by
  induction regex with
  | empty => exact .single
  | literal text => exact .literalEnds text
  | chars set =>
    refine (Takes.ofTake set.contains).weaken ?_
    rw [minLength?]
    split <;> simp
  | look condition =>
    intro place next member
    simp only [ends] at member
    split at member
    · exact Takes.single place next member
    · cases member
  | repetition min max greedy body ih =>
    have tail : ∀ last : Place → List Place, Takes 0 last →
        Takes ((repetition min max greedy body).minLength?.getD 0)
          fun place => (exactly body.ends min place).flatMap last := fun last takes => by
      refine (takes_repetition ih min takes).weaken ?_
      rw [minLength?]
      cases body.minLength? <;> simp
    have weak := ih.weaken (Nat.zero_le _)
    cases max with
    | some max => exact tail _ (weak.atMost _)
    | none => exact tail _ weak.anyNumber
  | group index body ih => exact ih
  | seq first rest ih ih' =>
    refine (ih.comp ih').weaken ?_
    rw [minLength?]
    cases first.minLength? <;> cases rest.minLength? <;> simp
  | alt preferred other ih ih' =>
    intro place next member
    have below : (alt preferred other).minLength?.getD 0 ≤ preferred.minLength?.getD 0 ∧
        (alt preferred other).minLength?.getD 0 ≤ other.minLength?.getD 0 := by
      rw [minLength?]
      cases preferred.minLength? with
      | none => simp
      | some count =>
        cases other.minLength? with
        | none => simp
        | some count' => exact ⟨Nat.min_le_left .., Nat.min_le_right ..⟩
    rcases List.mem_append.mp member with member | member
    · exact ih.weaken below.1 place next member
    · exact ih'.weaken below.2 place next member

theorem takes_of_advances {regex : Regex} (advances : regex.advances = true) :
    Takes 1 regex.ends := by
  unfold Regex.advances at advances
  cases known : regex.minLength? with
  | none => rw [known] at advances; cases advances
  | some count =>
    have positive : 0 < count := by simpa [known] using advances
    refine (takes_ends regex).weaken ?_
    rw [known]
    exact positive

private theorem atMost_succ {greedy : Bool} {body : Place → List Place} (takes : Takes 1 body)
    {count : Nat} {place : Place} (enough : place.after.length ≤ count) :
    atMost greedy body (count + 1) place = atMost greedy body count place := by
  induction count generalizing place with
  | zero =>
    have none : body place = [] := by
      refine List.eq_nil_iff_forall_not_mem.mpr fun next member => ?_
      have := takes place next member
      omega
    simp [atMost, none, prefer]
  | succ count ih =>
    have rounds : (body place).flatMap (atMost greedy body (count + 1)) =
        (body place).flatMap (atMost greedy body count) := by
      refine List.flatMap_congr fun next member => ih ?_
      have := takes place next member
      omega
    rw [atMost, rounds]
    rfl

/-- More rounds than there are characters left make no difference. -/
theorem atMost_of_length_le {greedy : Bool} {body : Place → List Place} (takes : Takes 1 body)
    {count : Nat} {place : Place} (enough : place.after.length ≤ count) :
    atMost greedy body count place = anyNumber greedy body place := by
  induction enough with
  | refl => rfl
  | step enough ih => exact (atMost_succ takes enough).trans ih

/-- Any number of rounds are none, or one and any number after it. -/
theorem anyNumber_eq {greedy : Bool} {body : Place → List Place} (takes : Takes 1 body)
    (place : Place) :
    anyNumber greedy body place =
      prefer greedy ((body place).flatMap (anyNumber greedy body)) [place] := by
  rw [← atMost_of_length_le takes (Nat.le_succ _), atMost]
  congr 1
  refine List.flatMap_congr fun next member => atMost_of_length_le takes ?_
  have := takes place next member
  omega

end Regex

end Packrat
