import Packrat.Lexicon.Rule
import Packrat.Proofs.Pattern.Matches

/-! # Every match found is a match

Running a program follows only ways through its instructions (`Program.Visits`), so a match that
is found ends a match of the expression. It begins with the text, unless the expression is not
seen to be tried there only: then matches are looked for further on as well
(`Pattern.matches_of_matchCount?`).
-/

namespace Packrat

namespace Program

variable {program : Program} {begins : Place → Prop} {place : Place} {text : Text}

/-- Some way from the entry, at a place where runs begin, leads to the instruction at the place. -/
inductive Visits (program : Program) (begins : Place → Prop) : Nat → Place → Prop where
  | entry {first} (here : begins first) : Visits program begins program.entry first
  | step {number place' next after} (before : Visits program begins number place')
      (step : Step program.code number place' next after) : Visits program begins next after

/-- What is accepted from an instruction that is visited is accepted from the entry. -/
theorem Visits.accepts {number steps : Nat} {final : Place}
    (visits : Visits program begins number place)
    (accepts : Accepts program.code steps number place final) :
    ∃ first steps, begins first ∧ Accepts program.code steps program.entry first final := by
  induction visits generalizing steps with
  | entry here => exact ⟨_, _, here, accepts⟩
  | step _ step ih => exact ih (.step step accepts)

/-- A run has accepted at the index. -/
def Ends (program : Program) (begins : Place → Prop) (index : Nat) : Prop :=
  ∃ number place, Visits program begins number place ∧ program.code[number]? = some .accept ∧
    place.index = index

/-- The runs of a frontier have come to the place by ways through the program. -/
structure Visited (program : Program) (begins : Place → Prop) (place : Place)
    (frontier : Frontier) : Prop where
  waiting : ∀ number ∈ frontier.waiting, Visits program begins number place
  accepted : frontier.accepted = true → Ends program begins place.index

namespace Visited

variable {frontier : Frontier}

theorem empty (size : Nat) : Visited program begins place (.empty size) := ⟨nofun, nofun⟩

theorem wait (visited : Visited program begins place frontier) {number : Nat}
    (here : Visits program begins number place) :
    Visited program begins place (frontier.wait number) where
  waiting other member :=
    (List.mem_cons.mp member).elim (fun same => same ▸ here) (visited.waiting other)
  accepted := visited.accepted

theorem explore (visited : Visited program begins place frontier) (fuel : Nat)
    {numbers : List Nat} (each : ∀ number ∈ numbers, Visits program begins number place) :
    Visited program begins place (program.explore place fuel numbers frontier) := by
  induction fuel generalizing numbers frontier with
  | zero => exact visited
  | succ fuel ih =>
    cases numbers with
    | nil => exact visited
    | cons number more =>
      obtain ⟨here, others⟩ := List.forall_mem_cons.mp each
      have met : Visited program begins place (frontier.meet number) :=
        ⟨visited.waiting, visited.accepted⟩
      rw [Program.explore]
      split
      · exact visited
      split
      · exact ih visited others
      dsimp only
      split
      · exact ih (met.wait here) others
      · rename_i condition next found
        refine ih met ?_
        split
        · rename_i holds
          exact List.forall_mem_cons.mpr ⟨here.step (.check found holds), others⟩
        · exact others
      · rename_i found
        exact ih met (List.forall_mem_cons.mpr ⟨here.step (.preferred found),
          List.forall_mem_cons.mpr ⟨here.step (.other found), others⟩⟩)
      · rename_i found
        exact ⟨met.waiting, fun _ => ⟨number, place, here, found, rfl⟩⟩
      · exact ih met others

theorem reach (visited : Visited program begins place frontier) {number : Nat}
    (here : Visits program begins number place) :
    Visited program begins place (program.reach place frontier number) :=
  visited.explore _ (List.forall_mem_singleton.mpr here)

/-- The runs that wait at a place go on with the next character. -/
theorem step {c : Char} {rest : Text} (after : place.after = c :: rest) {waiting : List Nat}
    (each : ∀ number ∈ waiting, Visits program begins number place) :
    Visited program begins ⟨place.index + 1, some c, rest⟩
      (program.step c ⟨place.index + 1, some c, rest⟩ waiting) := by
  unfold Program.step
  generalize start : Frontier.empty program.code.size = frontier
  have visited : Visited program begins ⟨place.index + 1, some c, rest⟩ frontier := start ▸ empty _
  clear start
  induction waiting generalizing frontier with
  | nil => exact visited
  | cons number waiting ih =>
    obtain ⟨here, others⟩ := List.forall_mem_cons.mp each
    refine ih others ?_ ?_
    dsimp only
    split
    · rename_i set next found
      split
      · rename_i belongs
        refine visited.reach (here.step (.take found ?_))
        rw [Place.take?_cons after, if_pos belongs]
      · exact visited
    · exact visited

end Visited

/-- Running a program finds nothing but where its runs accept. -/
theorem ends_of_advance {searching : Bool}
    (later : searching = true → ∀ place : Place, place.In text → begins place)
    {frontier : Frontier} {found : Option Nat} (inText : place.In text)
    (visited : Visited program begins place frontier)
    (sofar : ∀ index ∈ found, Ends program begins index) {index : Nat}
    (result : program.advance searching found place.index frontier place.after = some index) :
    Ends program begins index := by
  generalize length : place.after = rest at result
  induction rest generalizing place searching frontier found with
  | nil =>
    rw [advance] at result
    split at result
    · rename_i accepted
      cases result
      exact visited.accepted accepted
    · exact sofar index result
  | cons c rest ih =>
    have sofar' : ∀ index ∈ if frontier.accepted then some place.index else found,
        Ends program begins index := by
      intro index member
      split at member
      · rename_i accepted
        cases member
        exact visited.accepted accepted
      · exact sofar index member
    rw [advance] at result
    generalize (if frontier.accepted then some place.index else found) = found' at sofar' result
    dsimp only at result
    split at result
    · exact sofar' index result
    · have next := Visited.step length fun number member =>
        visited.waiting number (List.mem_reverse.mp member)
      refine ih (fun still => later (Bool.and_eq_true_iff.mp still).1) (inText.next length) ?_
        sofar' rfl result
      split
      · rename_i still
        exact next.reach (.entry (later (Bool.and_eq_true_iff.mp still).1 _ (inText.next length)))
      · exact next

end Program

namespace Pattern

/-- A match that a pattern finds is one of its expression. If the expression is seen to be tried at
the start of a text only, the match begins there. -/
theorem matches_of_matchCount? {pattern : Pattern} {text : Text} {count : Nat}
    (found : pattern.matchCount? text = some count) :
    ∃ first next : Place, first.In text ∧ next.In text ∧ pattern.regex.Matches first next ∧
      next.index = count ∧ (pattern.regex.anchored = true → first = .start text) := by
  have runs := pattern.program_eq
  rw [matchCount?, Program.matchEnd?] at found
  let begins (first : Place) :=
    first.In text ∧ (pattern.regex.anchored = true → first = .start text)
  have starts : begins (.start text) := ⟨Place.in_start text, fun _ => rfl⟩
  have later (searching : (!pattern.regex.anchored) = true) (place : Place)
      (inText : place.In text) : begins place :=
    ⟨inText, fun anchored => by simp [anchored] at searching⟩
  obtain ⟨number, next, visits, accept, rfl⟩ :=
    Program.ends_of_advance later (Place.in_start text)
      ((Program.Visited.empty _).reach (.entry starts)) (by simp) found
  obtain ⟨first, steps, ⟨inText, atStart⟩, accepts⟩ := visits.accepts (.here accept)
  rw [runs] at accepts
  have holds := Regex.matches_of_accepts accepts
  exact ⟨first, next, inText, holds.inText inText, holds, rfl, atStart⟩

end Pattern

end Packrat
