import Packrat.Pattern.Program
import Packrat.Proofs.Pattern.Ends

/-! # Programs by backtracking

A program can be read as a search that tries the preferred way first and goes back if it fails.
`Program.Gives` says where that search ends from an instruction at a place, if it ends at all. The
program of an expression gives what its follow-up gives at the first of the ends of the expression
where that is a match (`Regex.implements_emit`).
-/

namespace Packrat

namespace Program

/-- Searches from an instruction at a place: where the search accepts, if it does. The fuel bounds
the depth of the search. -/
def backtrack (code : Array Instruction) : Nat → Nat → Place → Option (Option Nat)
  | 0, _, _ => none
  | fuel + 1, number, place =>
      match code[number]? with
      | some (.take set next) =>
          match place.take? set.contains with
          | some after => backtrack code fuel next after
          | none => some none
      | some (.check condition next) =>
          if condition.holds place then backtrack code fuel next place else some none
      | some (.split preferred other) =>
          match backtrack code fuel preferred place with
          | some none => backtrack code fuel other place
          | result => result
      | some .accept => some (some place.index)
      | none => some none

/-- The search from an instruction at a place ends with a result. -/
def Gives (code : Array Instruction) (number : Nat) (place : Place) (result : Option Nat) :
    Prop :=
  ∃ fuel, backtrack code fuel number place = some result

variable {code : Array Instruction} {number : Nat} {place : Place} {result : Option Nat}

/-- One step of the search. -/
theorem backtrack_step (fuel : Nat) : backtrack code (fuel + 1) number place =
    match code[number]? with
    | some (.take set next) =>
        match place.take? set.contains with
        | some after => backtrack code fuel next after
        | none => some none
    | some (.check condition next) =>
        if condition.holds place then backtrack code fuel next place else some none
    | some (.split preferred other) =>
        match backtrack code fuel preferred place with
        | some none => backtrack code fuel other place
        | result => result
    | some .accept => some (some place.index)
    | none => some none := rfl

theorem backtrack_succ {fuel : Nat} (ended : backtrack code fuel number place = some result) :
    backtrack code (fuel + 1) number place = some result := by
  induction fuel generalizing number place result with
  | zero => cases ended
  | succ fuel ih =>
    rw [backtrack_step] at ended ⊢
    split at ended
    · split at ended
      · exact ih ended
      · exact ended
    · split at ended
      · rename_i holds
        rw [if_pos holds]
        exact ih ended
      · rename_i fails
        rw [if_neg fails]
        exact ended
    · split at ended
      · rename_i first
        rw [ih first]
        exact ih ended
      · rename_i first
        rw [ih ended]
        split
        · rename_i same
          cases same
          exact absurd ended first
        · rfl
    · exact ended
    · exact ended

theorem backtrack_mono {fuel more : Nat} (below : fuel ≤ more)
    (ended : backtrack code fuel number place = some result) :
    backtrack code more number place = some result := by
  induction below with
  | refl => exact ended
  | step _ ih => exact backtrack_succ ih

namespace Gives

/-- A search has one result. -/
theorem unique {other : Option Nat} (gives : Gives code number place result)
    (gives' : Gives code number place other) : result = other := by
  obtain ⟨fuel, ended⟩ := gives
  obtain ⟨more, ended'⟩ := gives'
  have first := backtrack_mono (Nat.le_max_left fuel more) ended
  have second := backtrack_mono (Nat.le_max_right fuel more) ended'
  exact Option.some.inj (first.symm.trans second)

theorem take {set : CharSet} {next : Nat} {after : Place}
    (here : code[number]? = some (.take set next)) (taken : place.take? set.contains = some after)
    (gives : Gives code next after result) : Gives code number place result := by
  obtain ⟨fuel, ended⟩ := gives
  exact ⟨fuel + 1, by rw [backtrack_step, here]; simpa only [taken] using ended⟩

theorem take_none {set : CharSet} {next : Nat} (here : code[number]? = some (.take set next))
    (fails : place.take? set.contains = none) : Gives code number place none :=
  ⟨1, by rw [backtrack_step, here]; simp only [fails]⟩

theorem check {condition : Look} {next : Nat} (here : code[number]? = some (.check condition next))
    (holds : condition.holds place = true) (gives : Gives code next place result) :
    Gives code number place result := by
  obtain ⟨fuel, ended⟩ := gives
  exact ⟨fuel + 1, by rw [backtrack_step, here]; simpa only [holds, if_true] using ended⟩

theorem check_none {condition : Look} {next : Nat}
    (here : code[number]? = some (.check condition next)) (fails : ¬ condition.holds place = true) :
    Gives code number place none :=
  ⟨1, by rw [backtrack_step, here]; simp only [if_neg fails]⟩

theorem split_preferred {preferred other found : Nat}
    (here : code[number]? = some (.split preferred other))
    (gives : Gives code preferred place (some found)) : Gives code number place (some found) := by
  obtain ⟨fuel, ended⟩ := gives
  exact ⟨fuel + 1, by rw [backtrack_step, here]; simp only [ended]⟩

theorem split_other {preferred other : Nat}
    (here : code[number]? = some (.split preferred other))
    (fails : Gives code preferred place none) (gives : Gives code other place result) :
    Gives code number place result := by
  obtain ⟨fuel, failed⟩ := fails
  obtain ⟨more, ended⟩ := gives
  refine ⟨max fuel more + 1, ?_⟩
  rw [backtrack_step, here]
  simp only [backtrack_mono (Nat.le_max_left fuel more) failed]
  exact backtrack_mono (Nat.le_max_right fuel more) ended

theorem accept (here : code[number]? = some .accept) :
    Gives code number place (some place.index) :=
  ⟨1, by rw [backtrack_step, here]⟩

end Gives

/-- Trying an instruction at one place after the other ends with a result. -/
inductive Tries (code : Array Instruction) (number : Nat) : List Place → Option Nat → Prop
  | nil : Tries code number [] none
  | found {place : Place} {more : List Place} {found : Nat}
      (gives : Gives code number place (some found)) :
      Tries code number (place :: more) (some found)
  | next {place : Place} {more : List Place} {result : Option Nat}
      (fails : Gives code number place none) (rest : Tries code number more result) :
      Tries code number (place :: more) result

namespace Tries

theorem gives (tries : Tries code number [place] result) : Gives code number place result := by
  cases tries with
  | found gives => exact gives
  | next fails rest => cases rest; exact fails

/-- Trying places and then others ends with the first or with the others. -/
theorem of_append {front back : List Place} (tries : Tries code number (front ++ back) result) :
    (∃ found, result = some found ∧ Tries code number front (some found)) ∨
      (Tries code number front none ∧ Tries code number back result) := by
  induction front with
  | nil => exact .inr ⟨.nil, tries⟩
  | cons place front ih =>
    cases tries with
    | found gives => exact .inl ⟨_, rfl, .found gives⟩
    | next fails rest =>
      rcases ih rest with ⟨found, rfl, first⟩ | ⟨first, second⟩
      · exact .inl ⟨found, rfl, .next fails first⟩
      · exact .inr ⟨.next fails first, second⟩

/-- An instruction that tries another at some places from each place is itself tried at the
places that come before. -/
theorem of_flatMap {other : Nat} {body : Place → List Place} {places : List Place}
    (step : ∀ place ∈ places, ∀ result, Tries code other (body place) result →
      Gives code number place result)
    (tries : Tries code other (places.flatMap body) result) :
    Tries code number places result := by
  induction places generalizing result with
  | nil =>
    cases tries
    exact .nil
  | cons place places ih =>
    rw [List.flatMap_cons] at tries
    obtain ⟨here, step⟩ := List.forall_mem_cons.mp step
    rcases tries.of_append with ⟨found, rfl, first⟩ | ⟨first, second⟩
    · exact .found (here _ first)
    · exact .next (here _ first) (ih step second)

end Tries

/-- The branch between going on and stopping tries both in the order of preference. -/
theorem gives_branch {greedy : Bool} {longer shorter follow : Nat} {going : List Place}
    (here : code[number]? = some (branch greedy longer shorter))
    (long : ∀ result, Tries code follow going result → Gives code longer place result)
    (short : ∀ result, Gives code follow place result → Gives code shorter place result)
    (tries : Tries code follow (Regex.prefer greedy going [place]) result) :
    Gives code number place result := by
  cases greedy with
  | true =>
    rcases Tries.of_append tries with ⟨found, rfl, first⟩ | ⟨first, second⟩
    · exact .split_preferred here (long _ first)
    · exact .split_other here (long _ first) (short _ second.gives)
  | false =>
    rcases @Tries.of_append _ _ _ [place] _ tries with ⟨found, rfl, first⟩ | ⟨first, second⟩
    · exact .split_preferred here (short _ first.gives)
    · exact .split_other here (short _ first.gives) (long _ second)

/-- The code has the instructions of a program from a number on. -/
def Agrees (code : Array Instruction) (program : Program) (start : Nat) : Prop :=
  ∀ number, start ≤ number → number < program.code.size →
    code[number]? = program.code[number]?

/-- The second program has the instructions of the first, and may have more. -/
structure Keeps (before after : Program) : Prop where
  size_le : before.code.size ≤ after.code.size
  same : ∀ number, number < before.code.size → after.code[number]? = before.code[number]?

namespace Keeps

variable {first second third : Program}

theorem refl (program : Program) : Keeps program program := ⟨Nat.le_refl _, fun _ _ => rfl⟩

theorem trans (keeps : Keeps first second) (keeps' : Keeps second third) : Keeps first third where
  size_le := Nat.le_trans keeps.size_le keeps'.size_le
  same number below :=
    (keeps'.same number (Nat.lt_of_lt_of_le below keeps.size_le)).trans (keeps.same number below)

theorem push (program : Program) (instruction : Instruction) :
    Keeps program (program.push instruction) where
  size_le := by simp [Program.push]
  same number below := by simp [Program.push, Array.getElem?_push, Nat.ne_of_lt below]

theorem agrees {start : Nat} (keeps : Keeps first second) (agrees : Agrees code second start) :
    Agrees code first start :=
  fun number from_start below => (agrees number from_start
    (Nat.lt_of_lt_of_le below keeps.size_le)).trans (keeps.same number below)

end Keeps

theorem Agrees.weaken {program : Program} {start later : Nat} (agrees : Agrees code program start)
    (below : start ≤ later) : Agrees code program later :=
  fun number from_later => agrees number (Nat.le_trans below from_later)

theorem Agrees.pushed {program : Program} {instruction : Instruction} {start : Nat}
    (agrees : Agrees code (program.push instruction) start) (below : start ≤ program.code.size) :
    code[(program.push instruction).entry]? = some instruction := by
  change code[program.code.size]? = some instruction
  rw [agrees _ below (by simp [push])]
  simp [push]

theorem times_succ (count : Nat) (step : Program → Program) (program : Program) :
    Program.times (count + 1) step program = step (Program.times count step program) := by
  induction count generalizing program with
  | zero => rfl
  | succ count ih => rw [Program.times, ih, Program.times]

/-- At most one round more is a branch in front of it. -/
theorem upTo_succ (count : Nat) (greedy : Bool) (round : Program → Program) (follow : Program) :
    Program.upTo (count + 1) greedy round follow =
      (round (Program.upTo count greedy round follow)).push
        (branch greedy (round (Program.upTo count greedy round follow)).entry follow.entry) :=
  times_succ ..

section Loop

variable {round : Program → Program}

theorem loop_size (greedy : Bool) (round : Program → Program) (follow : Program) :
    (loop greedy round follow).1.code.size =
      (round ⟨follow.code.push .accept, follow.code.size⟩).code.size := by
  simp [loop]

/-- The code of a loop is that of a round but for the decision. -/
theorem loop_agrees {greedy : Bool} {follow : Program} {code : Array Instruction}
    (agrees : Agrees code (loop greedy round follow).1 follow.code.size) :
    Agrees code (round ⟨follow.code.push .accept, follow.code.size⟩)
      (follow.code.size + 1) := by
  intro number from_start below
  rw [agrees number (by omega) (by rw [loop_size]; exact below)]
  simp only [loop]
  exact Array.getElem?_setIfInBounds_ne (by omega)

variable (keeps : ∀ follow, Keeps follow (round follow)) (greedy : Bool) (follow : Program)

include keeps

/-- A loop keeps what follows. -/
theorem keeps_loop : Keeps follow (loop greedy round follow).1 where
  size_le := by
    have := (keeps ⟨follow.code.push .accept, follow.code.size⟩).size_le
    rw [loop_size]
    simp only [Array.size_push] at this
    omega
  same number below := by
    have kept := (keeps ⟨follow.code.push .accept, follow.code.size⟩).same number (by simp; omega)
    simp only [loop]
    rw [Array.getElem?_setIfInBounds_ne (Nat.ne_of_gt below), kept]
    simp [Array.getElem?_push, Nat.ne_of_lt below]

theorem loop_branch {code : Array Instruction}
    (agrees : Agrees code (loop greedy round follow).1 follow.code.size) :
    code[follow.code.size]? =
      some (branch greedy (loop greedy round follow).1.entry follow.entry) := by
  have large := (keeps ⟨follow.code.push .accept, follow.code.size⟩).size_le
  simp only [Array.size_push] at large
  rw [agrees _ (Nat.le_refl _) (by rw [loop_size]; omega)]
  simp only [loop]
  rw [Array.getElem?_setIfInBounds_self_of_lt (by omega)]

theorem keeps_times (count : Nat) : Keeps follow (Program.times count round follow) := by
  induction count with
  | zero => exact .refl follow
  | succ count ih => exact times_succ count round follow ▸ ih.trans (keeps _)

theorem keeps_upTo (count : Nat) : Keeps follow (Program.upTo count greedy round follow) := by
  induction count with
  | zero => exact .refl follow
  | succ count ih =>
    rw [upTo_succ]
    exact ih.trans ((keeps _).trans (.push ..))

end Loop

/-- A step puts instructions in front of a program. Wherever its code is kept, it goes on with
the program at the given ends. -/
structure Implements (step : Program → Program) (ends : Place → List Place) : Prop where
  keeps : ∀ follow, Keeps follow (step follow)
  gives : ∀ (follow : Program) (code : Array Instruction) (place : Place) (result : Option Nat),
    Agrees code (step follow) follow.code.size →
      Tries code follow.entry (ends place) result → Gives code (step follow).entry place result

namespace Implements

theorem nothing : Implements (fun follow => follow) fun place => [place] where
  keeps follow := .refl follow
  gives _ _ _ _ _ tries := tries.gives

theorem comp {first rest : Program → Program} {body tail : Place → List Place}
    (here : Implements first body) (next : Implements rest tail) :
    Implements (fun follow => first (rest follow)) fun place => (body place).flatMap tail where
  keeps follow := (next.keeps follow).trans (here.keeps _)
  gives follow code place result agrees tries := by
    have inner := (here.keeps (rest follow)).agrees agrees
    refine here.gives (rest follow) code place result
      (agrees.weaken (next.keeps follow).size_le) (tries.of_flatMap fun middle _ result tries => ?_)
    exact next.gives follow code middle result inner tries

theorem take (set : CharSet) :
    Implements (fun follow => follow.push (.take set follow.entry))
      fun place => (place.take? set.contains).toList where
  keeps follow := .push ..
  gives follow code place result agrees tries := by
    have here := agrees.pushed (Nat.le_refl _)
    cases taken : place.take? set.contains with
    | none =>
      rw [taken] at tries
      cases tries
      exact .take_none here taken
    | some after =>
      rw [taken] at tries
      exact .take here taken tries.gives

theorem literal (text : Text) :
    Implements (text.foldr fun c program => program.push (.take (.single c) program.entry))
      (Regex.literalEnds text) := by
  induction text with
  | nil => exact nothing
  | cons c text ih => exact (take (.single c)).comp ih

theorem check (condition : Look) :
    Implements (fun follow => follow.push (.check condition follow.entry))
      fun place => if condition.holds place then [place] else [] where
  keeps follow := .push ..
  gives follow code place result agrees tries := by
    have here := agrees.pushed (Nat.le_refl _)
    split at tries
    · rename_i holds
      exact .check here holds tries.gives
    · rename_i fails
      cases tries
      exact .check_none here fails

variable {round : Program → Program} {body : Place → List Place}

theorem times (implements : Implements round body) (count : Nat) :
    Implements (Program.times count round) (Regex.exactly body count) := by
  induction count with
  | zero => exact nothing
  | succ count ih =>
    have step : Program.times (count + 1) round =
        fun follow => round (Program.times count round follow) :=
      funext fun follow => times_succ count round follow
    rw [step]
    exact implements.comp ih

/-- So many rounds with a branch before each that leads past all of them. -/
theorem upTo (implements : Implements round body) (greedy : Bool) (count : Nat) :
    Implements (Program.upTo count greedy round) (Regex.atMost greedy body count) := by
  induction count with
  | zero => exact nothing
  | succ count ih =>
    refine ⟨fun follow => ?_, fun follow code place result agrees tries => ?_⟩
    · rw [upTo_succ]
      exact (ih.keeps follow).trans ((implements.keeps _).trans (.push ..))
    · rw [upTo_succ] at agrees ⊢
      have outer := (Keeps.push _ _).agrees agrees
      have sizes := (ih.keeps follow).trans (implements.keeps _)
      refine gives_branch (agrees.pushed sizes.size_le) (fun result tries => ?_)
        (fun result gives => gives) tries
      refine implements.gives _ code place result (outer.weaken (ih.keeps follow).size_le)
        (tries.of_flatMap fun middle _ result tries => ?_)
      exact ih.gives follow code middle result ((implements.keeps _).agrees outer) tries

section Loop

variable (implements : Implements round body) (takes : Regex.Takes 1 body) (greedy : Bool)
  (follow : Program)

include implements

/-- A round in front of the decision. -/
private theorem loop_round {code : Array Instruction} {place : Place} {result : Option Nat}
    (agrees : Agrees code (loop greedy round follow).1 follow.code.size)
    (tries : Tries code follow.code.size (body place) result) :
    Gives code (loop greedy round follow).1.entry place result := by
  refine implements.gives ⟨follow.code.push .accept, follow.code.size⟩ code place result ?_ tries
  simpa using loop_agrees agrees

include takes

/-- The decision of a loop goes on with any number of rounds. -/
theorem loop_gives {code : Array Instruction} {place : Place} {result : Option Nat}
    (agrees : Agrees code (loop greedy round follow).1 follow.code.size)
    (tries : Tries code follow.entry (Regex.anyNumber greedy body place) result) :
    Gives code follow.code.size place result := by
  generalize long : place.after.length = length
  induction length using Nat.strongRecOn generalizing place result with
  | _ length ih =>
    rw [Regex.anyNumber_eq takes] at tries
    refine gives_branch (loop_branch implements.keeps greedy follow agrees) (fun result tries => ?_)
      (fun result gives => gives) tries
    refine loop_round implements greedy follow agrees
      (tries.of_flatMap fun middle member result tries => ?_)
    have shorter := takes place middle member
    exact ih middle.after.length (by omega) tries rfl

/-- A loop that begins with a round. -/
theorem loop_entry :
    Implements (fun follow => (loop greedy round follow).1)
      fun place => (body place).flatMap (Regex.anyNumber greedy body) where
  keeps follow := keeps_loop implements.keeps greedy follow
  gives follow code place result agrees tries := by
    refine loop_round implements greedy follow agrees
      (tries.of_flatMap fun middle _ result tries => ?_)
    exact loop_gives implements takes greedy follow agrees tries

end Loop

end Implements

end Program

namespace Regex

open Program

private theorem exactly_succ (body tail : Place → List Place) (count : Nat) (place : Place) :
    (exactly body (count + 1) place).flatMap tail =
      (exactly body count place).flatMap fun middle => (body middle).flatMap tail := by
  induction count generalizing place with
  | zero => simp [exactly]
  | succ count ih =>
    rw [exactly, List.flatMap_assoc, exactly, List.flatMap_assoc]
    exact List.flatMap_congr fun middle _ => ih middle

/-- The program of an expression goes on with what follows at the ends of the expression. -/
theorem implements_emit {regex : Regex} (loops : regex.LoopsAdvance = true) :
    Implements regex.emit regex.ends := by
  induction regex with
  | empty => exact .nothing
  | literal text => exact .literal text
  | chars set => exact .take set
  | look condition => exact .check condition
  | repetition min max greedy body ih =>
    cases max with
    | some max => exact ((ih loops).times min).comp ((ih loops).upTo greedy (max - min))
    | none =>
      simp only [LoopsAdvance, Bool.and_eq_true] at loops
      have takes := takes_of_advances loops.1
      have body' := ih loops.2
      cases min with
      | zero =>
        refine ⟨fun follow => ?_, fun follow code place result agrees tries => ?_⟩
        · simp only [emit, loops.1, if_true]
          have kept := keeps_loop body'.keeps greedy follow
          exact ⟨kept.size_le, kept.same⟩
        · simp only [emit, loops.1, if_true] at agrees ⊢
          simp only [ends, exactly, List.flatMap_singleton] at tries
          exact body'.loop_gives takes greedy follow agrees tries
      | succ count =>
        have joined : (repetition (count + 1) none greedy body).ends = fun place =>
            (exactly body.ends count place).flatMap fun middle =>
              (body.ends middle).flatMap (anyNumber greedy body.ends) :=
          funext fun place => exactly_succ ..
        rw [joined]
        exact (body'.times count).comp (body'.loop_entry takes greedy)
  | group index body ih => exact ih loops
  | seq first rest ih ih' =>
    simp only [LoopsAdvance, Bool.and_eq_true] at loops
    exact (ih loops.1).comp (ih' loops.2)
  | alt preferred other ih ih' =>
    simp only [LoopsAdvance, Bool.and_eq_true] at loops
    have left := ih loops.1
    have right := ih' loops.2
    have unfolded (follow : Program) : (alt preferred other).emit follow =
        (preferred.emit ⟨(other.emit follow).code, follow.entry⟩).push
          (.split (preferred.emit ⟨(other.emit follow).code, follow.entry⟩).entry
            (other.emit follow).entry) := rfl
    have keeps (follow : Program) : Keeps ⟨(other.emit follow).code, follow.entry⟩
        (preferred.emit ⟨(other.emit follow).code, follow.entry⟩) := left.keeps _
    refine ⟨fun follow => ?_, fun follow code place result agrees tries => ?_⟩
    · rw [unfolded]
      have both : Keeps follow (preferred.emit ⟨(other.emit follow).code, follow.entry⟩) :=
        ⟨Nat.le_trans (right.keeps follow).size_le (keeps follow).size_le, fun number below =>
          ((keeps follow).same number (Nat.lt_of_lt_of_le below (right.keeps follow).size_le)).trans
            ((right.keeps follow).same number below)⟩
      exact both.trans (.push ..)
    · rw [unfolded] at agrees ⊢
      have outer := (Keeps.push _ _).agrees agrees
      have sizes := Nat.le_trans (right.keeps follow).size_le (keeps follow).size_le
      have here := agrees.pushed sizes
      have inner : Agrees code (other.emit follow) follow.code.size :=
        fun number from_start below =>
          (outer number from_start (Nat.lt_of_lt_of_le below (keeps follow).size_le)).trans
            ((keeps follow).same number below)
      have first (result : Option Nat)
          (tries : Tries code follow.entry (preferred.ends place) result) :=
        left.gives ⟨(other.emit follow).code, follow.entry⟩ code place result
          (outer.weaken (right.keeps follow).size_le) tries
      rcases Tries.of_append tries with ⟨found, rfl, front⟩ | ⟨front, back⟩
      · exact .split_preferred here (first _ front)
      · exact .split_other here (first _ front) (right.gives follow code place result inner back)

/-- The program of an expression gives the end of the preferred match. -/
theorem gives_program {regex : Regex} (loops : regex.LoopsAdvance = true) (place : Place) :
    Gives regex.program.code regex.program.entry place
      ((regex.ends place).head?.map Place.index) := by
  have emitted := implements_emit loops
  have accepts (place : Place) : Gives regex.program.code 0 place (some place.index) :=
    .accept ((emitted.keeps .accepting).same 0 (by simp [accepting]))
  refine emitted.gives .accepting regex.program.code place _ (fun _ _ _ => rfl) ?_
  cases regex.ends place with
  | nil => exact .nil
  | cons next more => exact .found (accepts next)

end Regex

end Packrat
