import Packrat.Pattern.Basic
import Packrat.Proofs.Pattern.Backtrack

/-! # Matching finds the preferred match

`Program.explore` follows every instruction once and keeps the runs that wait for a character in
order of preference. `Program.Yields` says what the first of the runs at a place that can accept
gives. An instruction that was met before adds nothing to that: either its runs are all in the
frontier, or it leads to itself, and then no search from it ends.
-/

namespace Packrat

namespace Frontier

theorem hasMet_meet {frontier : Frontier} {number other : Nat}
    (met : (frontier.meet number).hasMet other = true) :
    other = number ∨ frontier.hasMet other = true := by
  by_cases same : number = other
  · exact .inl same.symm
  · right
    simpa [hasMet, meet, Array.getD_eq_getD_getElem?, Array.getElem?_setIfInBounds_ne same]
      using met

/-- The instructions that were not met. -/
def fresh (frontier : Frontier) : Nat := frontier.met.toList.count false

theorem fresh_meet_le (frontier : Frontier) (number : Nat) :
    (frontier.meet number).fresh ≤ frontier.fresh := by
  simp only [fresh, meet, Array.toList_setIfInBounds]
  by_cases inside : number < frontier.met.toList.length
  · rw [List.count_set inside]
    simp
  · have same : frontier.met.toList.set number true = frontier.met.toList :=
      List.set_eq_of_length_le (Nat.le_of_not_lt inside)
    exact Nat.le_of_eq (congrArg (List.count false) same)

theorem fresh_meet {frontier : Frontier} {number : Nat} (inside : number < frontier.met.size)
    (new : ¬ frontier.hasMet number = true) :
    (frontier.meet number).fresh + 1 = frontier.fresh := by
  have listed : number < frontier.met.toList.length := inside
  have unmet : frontier.met.toList[number] = false := by
    simpa [hasMet, Array.getD_eq_getD_getElem?, inside] using new
  have positive : 0 < frontier.fresh := by
    rw [fresh, List.count_pos_iff, ← unmet]
    exact List.getElem_mem _
  simp only [fresh, meet, Array.toList_setIfInBounds] at positive ⊢
  rw [List.count_set listed, unmet, if_pos (beq_self_eq_true false), if_neg (by decide)]
  omega

@[simp] theorem size_meet (frontier : Frontier) (number : Nat) :
    (frontier.meet number).met.size = frontier.met.size := by
  simp [meet]

end Frontier

namespace Program

variable {program : Program} {place : Place}

/-- The instructions that come next at the same place, if the instruction of a number takes no
character and does not accept. -/
def waysOn? (program : Program) (place : Place) (number : Nat) : Option (List Nat) :=
  match program.code[number]? with
  | some (.take _ _) => none
  | some (.check condition next) => some (if condition.holds place then [next] else [])
  | some (.split preferred other) => some [preferred, other]
  | some .accept => none
  | none => some []

/-- What following instructions does, without fuel. -/
inductive Explored (program : Program) (place : Place) : List Nat → Frontier → Frontier → Prop where
  | done {frontier} : Explored program place [] frontier frontier
  | stopped {numbers frontier} (accepted : frontier.accepted = true) :
      Explored program place numbers frontier frontier
  | met {number more frontier after} (going : ¬ frontier.accepted = true)
      (met : frontier.hasMet number = true) (rest : Explored program place more frontier after) :
      Explored program place (number :: more) frontier after
  | take {number more frontier after set next} (going : ¬ frontier.accepted = true)
      (new : ¬ frontier.hasMet number = true) (here : program.code[number]? = some (.take set next))
      (rest : Explored program place more ((frontier.meet number).wait number) after) :
      Explored program place (number :: more) frontier after
  | accept {number more frontier} (going : ¬ frontier.accepted = true)
      (new : ¬ frontier.hasMet number = true) (here : program.code[number]? = some .accept) :
      Explored program place (number :: more) frontier
        { frontier.meet number with accepted := true }
  | follow {number more frontier after nexts} (going : ¬ frontier.accepted = true)
      (new : ¬ frontier.hasMet number = true) (here : program.waysOn? place number = some nexts)
      (rest : Explored program place (nexts ++ more) (frontier.meet number) after) :
      Explored program place (number :: more) frontier after

/-- With fuel for every number looked at, following instructions comes to its end. -/
theorem explored_explore {fuel : Nat} {numbers : List Nat} {frontier : Frontier}
    (sized : frontier.met.size = program.code.size)
    (enough : numbers.length + 2 * frontier.fresh ≤ fuel) :
    Explored program place numbers frontier (program.explore place fuel numbers frontier) := by
  induction fuel generalizing numbers frontier with
  | zero =>
    obtain rfl : numbers = [] := List.eq_nil_of_length_eq_zero (by omega)
    exact .done
  | succ fuel ih =>
    cases numbers with
    | nil => exact .done
    | cons number more =>
      rw [explore]
      have fewer := frontier.fresh_meet_le number
      have sized' : (frontier.meet number).met.size = program.code.size := by simpa using sized
      simp only [List.length_cons] at enough
      split
      · exact .stopped (by assumption)
      · rename_i going
        split
        · exact .met going (by assumption) (ih sized (by omega))
        · rename_i new
          have less {instruction : Instruction} (here : program.code[number]? = some instruction) :
              (frontier.meet number).fresh + 1 = frontier.fresh :=
            frontier.fresh_meet (sized ▸ (Array.getElem?_eq_some_iff.mp here).1) new
          dsimp only
          split
          · rename_i here
            refine .take going new here (ih sized' ?_)
            change _ + 2 * (frontier.meet number).fresh ≤ _
            omega
          · rename_i condition next here
            have fewer := less here
            have ways : program.waysOn? place number =
                some (if condition.holds place then [next] else []) := by rw [waysOn?, here]
            refine .follow going new ways ?_
            split
            · exact ih sized' (by simp only [List.cons_append, List.nil_append, List.length_cons]; omega)
            · exact ih sized' (by simp only [List.nil_append]; omega)
          · rename_i preferred other here
            have fewer := less here
            have ways : program.waysOn? place number = some [preferred, other] := by
              rw [waysOn?, here]
            exact .follow going new ways
              (ih sized' (by simp only [List.cons_append, List.nil_append, List.length_cons]; omega))
          · exact .accept going new (by assumption)
          · rename_i here
            have ways : program.waysOn? place number = some [] := by rw [waysOn?, here]
            exact .follow going new ways (ih sized' (by simp only [List.nil_append]; omega))

namespace Explored

variable {numbers more : List Nat} {frontier after : Frontier}

/-- Instructions are followed one after the other. -/
theorem append (explored : Explored program place (numbers ++ more) frontier after) :
    ∃ middle, Explored program place numbers frontier middle ∧
      Explored program place more middle after := by
  cases numbers with
  | nil => exact ⟨_, .done, explored⟩
  | cons number numbers =>
    generalize all : number :: numbers ++ more = list at explored
    induction explored generalizing number numbers with
    | done => cases all
    | stopped accepted => exact ⟨_, .stopped accepted, .stopped accepted⟩
    | met going met rest ih =>
      obtain ⟨rfl, rfl⟩ := List.cons.inj all
      cases numbers with
      | nil => exact ⟨_, .met going met .done, rest⟩
      | cons next numbers =>
        obtain ⟨middle, front, back⟩ := ih next numbers rfl
        exact ⟨middle, .met going met front, back⟩
    | take going new here rest ih =>
      obtain ⟨rfl, rfl⟩ := List.cons.inj all
      cases numbers with
      | nil => exact ⟨_, .take going new here .done, rest⟩
      | cons next numbers =>
        obtain ⟨middle, front, back⟩ := ih next numbers rfl
        exact ⟨middle, .take going new here front, back⟩
    | accept going new here =>
      obtain ⟨rfl, rfl⟩ := List.cons.inj all
      exact ⟨_, .accept going new here, .stopped rfl⟩
    | @follow _ _ _ _ nexts going new here rest ih =>
      obtain ⟨rfl, rfl⟩ := List.cons.inj all
      cases listed : nexts ++ numbers with
      | nil =>
        obtain ⟨rfl, rfl⟩ := List.append_eq_nil_iff.mp listed
        exact ⟨_, .follow going new here .done, rest⟩
      | cons next others =>
        obtain ⟨middle, front, back⟩ := ih next others
          (by rw [← listed, List.append_assoc]; rfl)
        exact ⟨middle, .follow going new here (listed ▸ front), back⟩

/-- Waiting runs take a character. -/
def Waits (program : Program) (frontier : Frontier) : Prop :=
  ∀ number ∈ frontier.waiting, ∃ set next, program.code[number]? = some (.take set next)

/-- A frontier grows by runs that are preferred less, unless a run has accepted. -/
theorem grows (explored : Explored program place numbers frontier after) :
    after.met.size = frontier.met.size ∧ (Waits program frontier → Waits program after) ∧
      (∃ later, after.waiting = later ++ frontier.waiting) ∧
      (frontier.accepted = true → after = frontier) := by
  induction explored with
  | done => exact ⟨rfl, id, ⟨[], rfl⟩, fun _ => rfl⟩
  | stopped accepted => exact ⟨rfl, id, ⟨[], rfl⟩, fun _ => rfl⟩
  | met _ _ _ ih => exact ih
  | @take number _ _ _ set next going new here rest ih =>
    obtain ⟨size, waits, ⟨later, grown⟩, -⟩ := ih
    refine ⟨size.trans (Frontier.size_meet ..), fun before => waits fun number member => ?_,
      ⟨later ++ [number], ?_⟩, fun accepted => absurd accepted going⟩
    · rcases List.mem_cons.mp member with rfl | member
      · exact ⟨set, next, here⟩
      · exact before number member
    · rw [grown, List.append_assoc]
      rfl
  | accept going new here =>
    exact ⟨Frontier.size_meet .., id, ⟨[], rfl⟩, fun accepted => absurd accepted going⟩
  | follow going new here rest ih =>
    obtain ⟨size, waits, grown, -⟩ := ih
    exact ⟨size.trans (Frontier.size_meet ..), waits, grown, fun accepted => absurd accepted going⟩

end Explored

/-- No run in a frontier accepts at a place or further on, and none that is not under way is still
to be looked at there. -/
structure Barren (program : Program) (place : Place) (underWay : Nat → Prop)
    (frontier : Frontier) : Prop where
  going : ¬ frontier.accepted = true
  waiting : ∀ number ∈ frontier.waiting, Gives program.code number place none
  met : ∀ number, frontier.hasMet number = true →
    Gives program.code number place none ∨ underWay number

/-- The first run of a frontier that accepts at a place or further on accepts at an index. -/
inductive Leads (program : Program) (place : Place) (frontier : Frontier) (index : Nat) : Prop where
  | waiting {later number earlier} (listed : frontier.waiting = later ++ number :: earlier)
      (first : ∀ number ∈ earlier, Gives program.code number place none)
      (gives : Gives program.code number place (some index))
  | accepted (accepted : frontier.accepted = true)
      (first : ∀ number ∈ frontier.waiting, Gives program.code number place none)
      (here : index = place.index)

/-- What the runs of a frontier give: where the first that accepts does, if one does. -/
def Yields (program : Program) (place : Place) (frontier : Frontier) : Option Nat → Prop
  | some index => Leads program place frontier index
  | none => Barren program place (fun _ => False) frontier

theorem Leads.grows {numbers : List Nat} {frontier after : Frontier} {index : Nat}
    (leads : Leads program place frontier index)
    (explored : Explored program place numbers frontier after) :
    Leads program place after index := by
  obtain ⟨-, -, ⟨later, grown⟩, kept⟩ := explored.grows
  cases leads with
  | waiting listed first gives =>
    exact .waiting (by rw [grown, listed, List.append_assoc]) first gives
  | accepted accepted first here =>
    rw [kept accepted]
    exact .accepted accepted first here

namespace Barren

variable {underWay : Nat → Prop} {frontier : Frontier}

/-- An instruction that is looked at is under way. -/
theorem meet (barren : Barren program place underWay frontier) (number : Nat) :
    Barren program place (fun other => other = number ∨ underWay other)
      (frontier.meet number) where
  going := barren.going
  waiting := barren.waiting
  met other met := by
    rcases Frontier.hasMet_meet met with same | before
    · exact .inr (.inl same)
    · exact (barren.met other before).imp id .inr

/-- An instruction that was looked at is no longer under way. -/
theorem settle {number : Nat}
    (barren : Barren program place (fun other => other = number ∨ underWay other) frontier)
    (gives : Gives program.code number place none) :
    Barren program place underWay frontier where
  going := barren.going
  waiting := barren.waiting
  met other met := by
    rcases barren.met other met with none | rfl | busy
    · exact .inl none
    · exact .inl gives
    · exact .inr busy

end Barren

/-- What following one instruction adds to a frontier that gives nothing so far: what the search
from the instruction gives. Searches from instructions that are under way do not end within the
same depth, so none of them is met again. -/
private theorem explored_after {fuel number : Nat} {result : Option Nat}
    {underWay : Nat → Prop} {frontier after : Frontier}
    (ended : backtrack program.code fuel number place = some result)
    (busy : ∀ other, underWay other → backtrack program.code fuel other place = none)
    (barren : Barren program place underWay frontier)
    (explored : Explored program place [number] frontier after) :
    (∀ index, result = some index → Leads program place after index) ∧
      (result = none → Barren program place underWay after) := by
  induction fuel generalizing number result underWay frontier after with
  | zero => cases ended
  | succ fuel ih =>
    have busy' : ∀ other, underWay other → backtrack program.code fuel other place = none := by
      intro other under
      cases sooner : backtrack program.code fuel other place with
      | none => rfl
      | some result => exact absurd (backtrack_succ sooner) (by simp [busy other under])
    cases sooner : backtrack program.code fuel number place with
    | some result' =>
      obtain rfl : result' = result :=
        Option.some.inj ((backtrack_succ sooner).symm.trans ended)
      exact ih sooner busy' barren explored
    | none =>
      have busy'' : ∀ other, other = number ∨ underWay other →
          backtrack program.code fuel other place = none := by
        rintro other (rfl | under)
        · exact sooner
        · exact busy' other under
      cases explored with
      | stopped accepted => exact absurd accepted barren.going
      | met going met rest =>
        cases rest with
        | stopped accepted => exact absurd accepted going
        | done =>
          rcases barren.met number met with none | under
          · obtain rfl : result = Option.none := Gives.unique ⟨_, ended⟩ none
            refine ⟨?_, fun _ => barren⟩
            rintro index ⟨⟩
          · rw [busy number under] at ended
            cases ended
      | take going new here rest =>
        have gives : Gives program.code number place result := ⟨_, ended⟩
        cases rest with
        | stopped accepted => exact absurd accepted going
        | done =>
          refine ⟨?_, ?_⟩
          · rintro index rfl
            exact .waiting (List.nil_append (number :: frontier.waiting)).symm barren.waiting gives
          · rintro rfl
            have settled := (barren.meet number).settle gives
            refine ⟨settled.going, fun other member => ?_, settled.met⟩
            rcases List.mem_cons.mp member with rfl | member
            · exact gives
            · exact settled.waiting other member
      | accept going new here =>
        rw [backtrack, here] at ended
        obtain rfl := Option.some.inj ended
        refine ⟨?_, ?_⟩
        · rintro index same
          exact .accepted rfl barren.waiting (Option.some.inj same).symm
        · rintro ⟨⟩
      | follow going new here rest =>
        have gives : Gives program.code number place result := ⟨_, ended⟩
        have inner := barren.meet number
        rw [List.append_nil] at rest
        unfold waysOn? at here
        rw [backtrack] at ended
        split at here
        · cases here
        · rename_i found
          simp only [found] at ended
          split at ended
          · rename_i holds
            rw [if_pos holds] at here
            cases here
            obtain ⟨leads, barren⟩ := ih ended busy'' inner rest
            refine ⟨leads, ?_⟩
            rintro rfl
            exact (barren rfl).settle gives
          · rename_i fails
            rw [if_neg fails] at here
            cases here
            cases ended
            refine ⟨?_, fun _ => ?_⟩
            · rintro index ⟨⟩
            · cases rest <;> exact inner.settle gives
        · rename_i preferred other found
          cases here
          simp only [found] at ended
          obtain ⟨middle, front, back⟩ := @Explored.append _ _ [preferred] [other] _ _ rest
          split at ended
          · rename_i first
            have unchanged := (ih first busy'' inner front).2 rfl
            obtain ⟨leads, barren⟩ := ih ended busy'' unchanged back
            refine ⟨leads, ?_⟩
            rintro rfl
            exact (barren rfl).settle gives
          · rename_i some_
            cases result with
            | none => exact absurd ended some_
            | some index =>
              refine ⟨?_, ?_⟩
              · rintro _ ⟨⟩
                exact ((ih ended busy'' inner front).1 index rfl).grows back
              · rintro ⟨⟩
        · cases here
        · rename_i found
          cases here
          simp only [found] at ended
          cases ended
          refine ⟨?_, fun _ => ?_⟩
          · rintro index ⟨⟩
          · cases rest <;> exact inner.settle gives

/-- A frontier of a program, whose waiting runs take characters, and what it gives. -/
structure Reached (program : Program) (place : Place) (frontier : Frontier)
    (result : Option Nat) : Prop where
  sized : frontier.met.size = program.code.size
  waits : Explored.Waits program frontier
  yields : Yields program place frontier result

theorem reached_empty : Reached program place (.empty program.code.size) none where
  sized := by simp [Frontier.empty]
  waits := nofun
  yields := by
    refine ⟨nofun, nofun, fun number met => ?_⟩
    simp only [Frontier.hasMet, Frontier.empty, Array.getD_eq_getD_getElem?,
      Array.getElem?_replicate] at met
    split at met <;> cases met

/-- Reaching an instruction adds to a frontier what the search from the instruction gives. -/
theorem Reached.reach {number : Nat} {frontier : Frontier} {before result : Option Nat}
    (reached : Reached program place frontier before)
    (gives : before = none → Gives program.code number place result) :
    Reached program place (program.reach place frontier number) (before.or result) := by
  have explored : Explored program place [number] frontier
      (program.reach place frontier number) := by
    refine explored_explore reached.sized ?_
    have few : frontier.fresh ≤ program.code.size := by
      rw [← reached.sized, ← Array.length_toList]
      exact List.count_le_length
    simp only [List.length_cons, List.length_nil]
    omega
  obtain ⟨size, waits, -, -⟩ := explored.grows
  refine ⟨size.trans reached.sized, waits reached.waits, ?_⟩
  cases before with
  | some index => exact Leads.grows reached.yields explored
  | none =>
    obtain ⟨fuel, ended⟩ := gives rfl
    obtain ⟨leads, barren⟩ := explored_after ended (fun _ => False.elim) reached.yields explored
    cases result with
    | some index => exact leads index rfl
    | none => exact barren rfl

/-- What the first of several instructions from which a search accepts gives, if one does. -/
inductive First (code : Array Instruction) (place : Place) : List Nat → Option Nat → Prop where
  | nil : First code place [] none
  | found {number more index} (gives : Gives code number place (some index)) :
      First code place (number :: more) (some index)
  | failed {number more result} (gives : Gives code number place none)
      (rest : First code place more result) : First code place (number :: more) result

theorem First.append {code : Array Instruction} {numbers more : List Nat} {result : Option Nat}
    (barren : ∀ number ∈ numbers, Gives code number place none)
    (first : First code place more result) : First code place (numbers ++ more) result := by
  induction numbers with
  | nil => exact first
  | cons number numbers ih =>
    exact .failed (barren number (List.mem_cons_self ..))
      (ih fun other member => barren other (List.mem_cons_of_mem _ member))

/-- The waiting runs of a frontier give what the frontier does, unless a run accepts at once. -/
theorem Reached.first {frontier : Frontier} {result : Option Nat}
    (reached : Reached program place frontier result) :
    ∃ later, First program.code place frontier.waiting.reverse later ∧
      result = later.or (if frontier.accepted then some place.index else none) := by
  have empty (barren : ∀ number ∈ frontier.waiting, Gives program.code number place none) :
      First program.code place frontier.waiting.reverse none := by
    rw [← List.append_nil frontier.waiting.reverse]
    exact .append (fun number member => barren number (List.mem_reverse.mp member)) .nil
  obtain ⟨-, -, yields⟩ := reached
  cases result with
  | none => exact ⟨none, empty yields.waiting, by simp [yields.going]⟩
  | some index =>
    cases yields with
    | accepted accepted first here => exact ⟨none, empty first, by simp [accepted, here]⟩
    | @waiting later number earlier listed first gives =>
      refine ⟨some index, ?_, rfl⟩
      rw [listed, List.reverse_append, List.reverse_cons, List.append_assoc]
      exact .append (fun number member => first number (List.mem_reverse.mp member)) (.found gives)

/-- An instruction that takes a character gives what the next one gives after the character. -/
theorem Gives.of_take {code : Array Instruction} {number next : Nat} {set : CharSet}
    {result : Option Nat} (here : code[number]? = some (.take set next))
    (gives : Gives code number place result) :
    match place.take? set.contains with
    | some after => Gives code next after result
    | none => result = none := by
  obtain ⟨fuel, ended⟩ := gives
  cases fuel with
  | zero => cases ended
  | succ fuel =>
    rw [backtrack, here] at ended
    dsimp only at ended
    split <;> rename_i taken <;> simp only [taken] at ended
    · exact ⟨fuel, ended⟩
    · exact (Option.some.inj ended).symm

/-- Lets one waiting run take the character before a place. -/
private def stepOne (program : Program) (c : Char) (place : Place) (frontier : Frontier)
    (number : Nat) : Frontier :=
  match program.code[number]? with
  | some (.take set next) =>
      if set.contains c then program.reach place frontier next else frontier
  | _ => frontier

/-- A run that takes a character adds what it gives. -/
private theorem Reached.stepOne {c : Char} {rest : Text} {number next : Nat} {set : CharSet}
    {frontier : Frontier} {before result : Option Nat} (after : place.after = c :: rest)
    (here : program.code[number]? = some (.take set next))
    (reached : Reached program ⟨place.index + 1, some c, rest⟩ frontier before)
    (gives : before = none → Gives program.code number place result) :
    Reached program ⟨place.index + 1, some c, rest⟩
      (program.stepOne c ⟨place.index + 1, some c, rest⟩ frontier number) (before.or result) := by
  simp only [Program.stepOne, here]
  split
  · rename_i belongs
    refine reached.reach fun nothing => ?_
    simpa [Place.take?_cons after, belongs] using (gives nothing).of_take here
  · rename_i outside
    cases before with
    | some index => exact reached
    | none =>
      have barren := (gives rfl).of_take here
      rw [Place.take?_cons after, if_neg outside] at barren
      rw [barren]
      exact reached

/-- What the runs that wait at a place give is what they give after the next character. -/
private theorem Reached.steps {c : Char} {rest : Text} (after : place.after = c :: rest)
    {numbers : List Nat} {frontier : Frontier} {before result : Option Nat}
    (takes : ∀ number ∈ numbers, ∃ set next, program.code[number]? = some (.take set next))
    (reached : Reached program ⟨place.index + 1, some c, rest⟩ frontier before)
    (first : before = none → First program.code place numbers result) :
    Reached program ⟨place.index + 1, some c, rest⟩
      (numbers.foldl (program.stepOne c ⟨place.index + 1, some c, rest⟩) frontier)
      (before.or result) := by
  induction numbers generalizing frontier before with
  | nil =>
    cases before with
    | some index => exact reached
    | none =>
      cases first rfl
      exact reached
  | cons number numbers ih =>
    obtain ⟨set, next, here⟩ := takes number (List.mem_cons_self ..)
    have others := fun other member => takes other (List.mem_cons_of_mem number member)
    rw [List.foldl_cons]
    cases before with
    | some index =>
      have kept : Reached program _ _ ((some index).or none) :=
        reached.stepOne after here nofun
      exact ih others kept nofun
    | none =>
      cases first rfl with
      | @found _ _ index gives =>
        have led : Reached program _ _ (some index) := reached.stepOne after here fun _ => gives
        have total : Reached program _ _ ((some index).or (some index)) := ih others led nofun
        exact total
      | failed gives more =>
        have kept : Reached program _ _ none := reached.stepOne after here fun _ => gives
        exact ih others kept fun _ => more

/-- Nothing that waits at the end of a text accepts. -/
private theorem First.at_end {numbers : List Nat} {result : Option Nat} (ended : place.after = [])
    (takes : ∀ number ∈ numbers, ∃ set next, program.code[number]? = some (.take set next))
    (first : First program.code place numbers result) : result = none := by
  induction first with
  | nil => rfl
  | @found number more index gives =>
    obtain ⟨set, next, here⟩ := takes number (List.mem_cons_self ..)
    have barren := gives.of_take here
    rwa [Place.take?_nil ended] at barren
  | failed gives rest ih => exact ih fun other member => takes other (List.mem_cons_of_mem _ member)

/-- Running a program that looks for no later match finds what the frontier gives, or else what
was found before. -/
theorem advance_eq {rest : Text} {frontier : Frontier} {result found : Option Nat} {index : Nat}
    {before : Option Char} (reached : Reached program ⟨index, before, rest⟩ frontier result) :
    program.advance false found index frontier rest = result.or found := by
  induction rest generalizing frontier result found index before with
  | nil =>
    obtain ⟨later, first, rfl⟩ := reached.first
    rw [advance, first.at_end rfl fun number member => reached.waits number (List.mem_reverse.mp member)]
    cases frontier.accepted <;> rfl
  | cons c rest ih =>
    obtain ⟨later, first, rfl⟩ := reached.first
    have merged : (later.or (if frontier.accepted then some index else none)).or found =
        later.or (if frontier.accepted then some index else found) := by
      rw [Option.or_assoc]
      cases frontier.accepted <;> rfl
    rw [advance, merged]
    generalize (if frontier.accepted then some index else found) = found
    simp only [Bool.false_and, Bool.not_false, Bool.and_true, Bool.false_eq_true, if_false]
    split
    · rename_i ended
      have empty : frontier.waiting = [] := by simpa using ended
      rw [empty] at first
      cases first
      rfl
    · have takes := fun number member => reached.waits number (List.mem_reverse.mp member)
      exact ih (reached_empty.steps rfl takes fun _ => first)

end Program

namespace Pattern

/-- A pattern that is tried at the start of a text only finds the preferred match there. -/
theorem matchCount?_eq {pattern : Pattern} (anchored : pattern.regex.anchored = true)
    (loops : pattern.regex.LoopsAdvance = true) (text : Text) :
    pattern.matchCount? text = (pattern.regex.ends (.start text)).head?.map Place.index := by
  have gives := Regex.gives_program loops (.start text)
  have reached := Program.reached_empty.reach fun _ => gives
  rw [matchCount?, Program.matchEnd?, anchored, pattern.program_eq]
  exact (Program.advance_eq reached).trans (by simp)

end Pattern

end Packrat
