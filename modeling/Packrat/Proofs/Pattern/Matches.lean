import Packrat.Proofs.Pattern.Backtrack

/-! # What an expression matches

`Regex.Matches` says from where to where an expression can match, whichever of its matches is
preferred and whether or not the rounds of its repetitions take characters. Every way through the
program of an expression that comes to the end goes over a match of the expression
(`Regex.sound_emit`).
-/

namespace Packrat

namespace Regex

/-- So many rounds lead from one place to another. -/
def Chain (round : Place → Place → Prop) : Nat → Place → Place → Prop
  | 0, place, next => next = place
  | count + 1, place, next => ∃ middle, round place middle ∧ Chain round count middle next

theorem Chain.append {round : Place → Place → Prop} {count more : Nat} {place middle next : Place}
    (front : Chain round count place middle) (back : Chain round more middle next) :
    Chain round (count + more) place next := by
  induction count generalizing place with
  | zero =>
    rw [Nat.zero_add]
    exact front ▸ back
  | succ count ih =>
    obtain ⟨first, here, front⟩ := front
    rw [Nat.succ_add]
    exact ⟨first, here, ih front⟩

/-- The expression has a match from one place to another. -/
def Matches : Regex → Place → Place → Prop
  | .empty, place, next => next = place
  | .literal text, place, next => next ∈ literalEnds text place
  | .chars set, place, next => place.take? set.contains = some next
  | .look condition, place, next => condition.holds place = true ∧ next = place
  | .repetition min max _ body, place, next =>
      ∃ count, min ≤ count ∧ (∀ most ∈ max, count ≤ Nat.max min most) ∧
        Chain body.Matches count place next
  | .group _ body, place, next => body.Matches place next
  | .seq first rest, place, next => ∃ middle, first.Matches place middle ∧ rest.Matches middle next
  | .alt preferred other, place, next => preferred.Matches place next ∨ other.Matches place next

end Regex

namespace Place

/-- The place after the first of two texts and before the second. -/
def between (front rest : Text) : Place := ⟨front.length, front.getLast?, rest⟩

/-- The place is one in the text. -/
def In (text : Text) (place : Place) : Prop :=
  ∃ front rest, text = front ++ rest ∧ place = between front rest

theorem in_start (text : Text) : (start text).In text := ⟨[], text, rfl, rfl⟩

/-- The place after one more character. -/
theorem In.next {text rest : Text} {place : Place} {c : Char} (inText : place.In text)
    (after : place.after = c :: rest) : In text ⟨place.index + 1, some c, rest⟩ := by
  obtain ⟨front, _, rfl, rfl⟩ := inText
  obtain rfl := after
  exact ⟨front ++ [c], rest, by simp, by simp [between]⟩

theorem In.take {text : Text} {place next : Place} {isMember : Char → Bool}
    (inText : place.In text) (taken : place.take? isMember = some next) : next.In text := by
  unfold take? at taken
  split at taken
  · cases taken
  · rename_i c rest after
    split at taken <;> cases taken
    exact inText.next after

end Place

namespace Regex

theorem Chain.inText {round : Place → Place → Prop} {text : Text} {count : Nat}
    {place next : Place}
    (kept : ∀ {place next : Place}, place.In text → round place next → next.In text)
    (inText : place.In text) (chain : Chain round count place next) : next.In text := by
  induction count generalizing place with
  | zero => exact chain ▸ inText
  | succ count ih =>
    obtain ⟨middle, here, others⟩ := chain
    exact ih (kept inText here) others

/-- A match that begins in a text ends there. -/
theorem Matches.inText {regex : Regex} {text : Text} {place next : Place} (inText : place.In text)
    (holds : regex.Matches place next) : next.In text := by
  induction regex generalizing place next with
  | empty => exact holds ▸ inText
  | literal word =>
    induction word generalizing place with
    | nil => exact List.mem_singleton.mp holds ▸ inText
    | cons c word ih =>
      obtain ⟨middle, taken, others⟩ := List.mem_flatMap.mp holds
      exact ih (inText.take (Option.mem_toList.mp taken)) others
  | chars set => exact inText.take holds
  | look condition => exact holds.2 ▸ inText
  | repetition min max greedy body ih =>
    obtain ⟨count, -, -, rounds⟩ := holds
    exact rounds.inText ih inText
  | group index body ih => exact ih inText holds
  | seq first rest ih ih' =>
    obtain ⟨middle, first, second⟩ := holds
    exact ih' (ih inText first) second
  | alt preferred other ih ih' => exact holds.elim (ih inText) (ih' inText)

/-- The expressions have matches one after the other. -/
def MatchesAll : List Regex → Place → Place → Prop
  | [], place, next => next = place
  | regex :: more, place, next =>
      ∃ middle, regex.Matches place middle ∧ MatchesAll more middle next

variable {place next : Place}

theorem matchesAll_append {front back : List Regex} :
    MatchesAll (front ++ back) place next ↔
      ∃ middle, MatchesAll front place middle ∧ MatchesAll back middle next := by
  induction front generalizing place with
  | nil => simp [MatchesAll]
  | cons regex front ih =>
    simp only [List.cons_append, MatchesAll, ih]
    constructor
    · rintro ⟨first, here, middle, front, back⟩
      exact ⟨middle, ⟨first, here, front⟩, back⟩
    · rintro ⟨middle, ⟨first, here, front⟩, back⟩
      exact ⟨first, here, middle, front, back⟩

theorem matchesAll_singleton {regex : Regex} :
    MatchesAll [regex] place next ↔ regex.Matches place next := by
  constructor
  · rintro ⟨middle, here, rfl⟩
    exact here
  · exact fun here => ⟨next, here, rfl⟩

theorem matchesAll_parts {regex : Regex} :
    MatchesAll regex.parts place next ↔ regex.Matches place next := by
  induction regex generalizing place with
  | empty => exact Iff.rfl
  | seq first rest _ ih =>
    simp only [parts, MatchesAll, ih]
    exact Iff.rfl
  | literal | chars | look | repetition | group | alt => exact matchesAll_singleton

theorem matches_ofParts {regexes : List Regex} :
    (ofParts regexes).Matches place next ↔ MatchesAll regexes place next := by
  induction regexes generalizing place with
  | nil => exact Iff.rfl
  | cons regex more ih =>
    cases more with
    | nil => exact matchesAll_singleton.symm
    | cons second more =>
      change (∃ middle, _ ∧ (ofParts (second :: more)).Matches middle next) ↔ _
      simp only [ih]
      exact Iff.rfl

theorem matches_literal_append {text text' : Text} :
    (literal (text ++ text')).Matches place next ↔
      ∃ middle, (literal text).Matches place middle ∧ (literal text').Matches middle next := by
  induction text generalizing place with
  | nil => simp [Matches, literalEnds]
  | cons c text ih =>
    simp only [Matches, List.cons_append, literalEnds, List.mem_flatMap] at ih ⊢
    simp only [ih]
    constructor
    · rintro ⟨first, taken, middle, front, back⟩
      exact ⟨middle, ⟨first, taken, front⟩, back⟩
    · rintro ⟨middle, ⟨first, taken, front⟩, back⟩
      exact ⟨first, taken, middle, front, back⟩

theorem matchesAll_joinPart {regex : Regex} {more : List Regex} :
    MatchesAll (joinPart regex more) place next ↔ MatchesAll (regex :: more) place next := by
  unfold joinPart
  split
  · simp only [MatchesAll, matches_literal_append]
    constructor
    · rintro ⟨middle, ⟨first, here, second⟩, others⟩
      exact ⟨first, here, middle, second, others⟩
    · rintro ⟨first, here, middle, second, others⟩
      exact ⟨middle, ⟨first, here, second⟩, others⟩
  · exact Iff.rfl

/-- A sequence matches what its members match one after the other. -/
theorem matches_concat {regexes : List Regex} :
    (concat regexes).Matches place next ↔ MatchesAll regexes place next := by
  have joined (parts : List Regex) {place : Place} :
      MatchesAll (parts.foldr joinPart []) place next ↔ MatchesAll parts place next := by
    induction parts generalizing place with
    | nil => exact Iff.rfl
    | cons part parts ih => simp only [List.foldr_cons, matchesAll_joinPart, MatchesAll, ih]
  rw [concat, matches_ofParts, joined]
  induction regexes generalizing place with
  | nil => exact Iff.rfl
  | cons regex regexes ih =>
    simp only [List.flatMap_cons, matchesAll_append, matchesAll_parts, MatchesAll, ih]

end Regex

namespace Program

variable {code : Array Instruction}

/-- An instruction at a place leads to another, which may be at the next place. -/
inductive Step (code : Array Instruction) : Nat → Place → Nat → Place → Prop where
  | take {number set next place after} (here : code[number]? = some (.take set next))
      (taken : place.take? set.contains = some after) : Step code number place next after
  | check {number condition next place} (here : code[number]? = some (.check condition next))
      (holds : condition.holds place = true) : Step code number place next place
  | preferred {number preferred other place}
      (here : code[number]? = some (.split preferred other)) :
      Step code number place preferred place
  | other {number preferred other place} (here : code[number]? = some (.split preferred other)) :
      Step code number place other place

/-- So many steps lead from an instruction at a place to acceptance at another. -/
inductive Accepts (code : Array Instruction) : Nat → Nat → Place → Place → Prop where
  | here {number place} (accepts : code[number]? = some .accept) : Accepts code 0 number place place
  | step {steps number place number' place' final} (step : Step code number place number' place')
      (rest : Accepts code steps number' place' final) :
      Accepts code (steps + 1) number place final

namespace Accepts

variable {steps number : Nat} {place final : Place}

theorem of_accept (accepts : Accepts code steps number place final)
    (here : code[number]? = some .accept) : final = place := by
  cases accepts with
  | here => rfl
  | step step => cases step <;> simp_all

theorem of_take {set : CharSet} {next : Nat} (accepts : Accepts code steps number place final)
    (here : code[number]? = some (.take set next)) :
    ∃ after fewer, fewer ≤ steps ∧ place.take? set.contains = some after ∧
      Accepts code fewer next after final := by
  cases accepts with
  | here accept => simp_all
  | step step rest =>
    cases step with
    | take here' taken =>
      cases here.symm.trans here'
      exact ⟨_, _, Nat.le_succ _, taken, rest⟩
    | check here' | preferred here' | other here' => cases here.symm.trans here'

theorem of_check {condition : Look} {next : Nat} (accepts : Accepts code steps number place final)
    (here : code[number]? = some (.check condition next)) :
    ∃ fewer, fewer ≤ steps ∧ condition.holds place = true ∧
      Accepts code fewer next place final := by
  cases accepts with
  | here accept => simp_all
  | step step rest =>
    cases step with
    | check here' holds =>
      cases here.symm.trans here'
      exact ⟨_, Nat.le_succ _, holds, rest⟩
    | take here' | preferred here' | other here' => cases here.symm.trans here'

theorem of_split {preferred other : Nat} (accepts : Accepts code steps number place final)
    (here : code[number]? = some (.split preferred other)) :
    ∃ fewer, fewer < steps ∧
      (Accepts code fewer preferred place final ∨ Accepts code fewer other place final) := by
  cases accepts with
  | here accept => simp_all
  | step step rest =>
    cases step with
    | preferred here' =>
      cases here.symm.trans here'
      exact ⟨_, Nat.lt_succ_self _, .inl rest⟩
    | other here' =>
      cases here.symm.trans here'
      exact ⟨_, Nat.lt_succ_self _, .inr rest⟩
    | take here' | check here' => cases here.symm.trans here'

theorem of_branch {greedy : Bool} {longer shorter : Nat}
    (accepts : Accepts code steps number place final)
    (here : code[number]? = some (branch greedy longer shorter)) :
    ∃ fewer, fewer < steps ∧
      (Accepts code fewer longer place final ∨ Accepts code fewer shorter place final) := by
  cases greedy with
  | true => exact accepts.of_split here
  | false =>
    obtain ⟨fewer, less, ways⟩ := accepts.of_split here
    exact ⟨fewer, less, ways.symm⟩

end Accepts

/-- A step puts instructions in front of a program. Wherever its code is kept, each way through it
leads over the relation to the program, and takes no less time. -/
def Sound (step : Program → Program) (relation : Place → Place → Prop) : Prop :=
  ∀ (follow : Program) (code : Array Instruction) (place final : Place) (steps : Nat),
    Agrees code (step follow) follow.code.size →
      Accepts code steps (step follow).entry place final →
        ∃ middle fewer, fewer ≤ steps ∧ relation place middle ∧
          Accepts code fewer follow.entry middle final

namespace Sound

variable {round rest : Program → Program} {body tail : Place → Place → Prop}

theorem mono {body' : Place → Place → Prop} (sound : Sound round body)
    (weaker : ∀ place next, body place next → body' place next) : Sound round body' := by
  intro follow code place final steps agrees accepts
  obtain ⟨middle, fewer, less, here, rest⟩ := sound follow code place final steps agrees accepts
  exact ⟨middle, fewer, less, weaker _ _ here, rest⟩

theorem nothing : Sound (fun follow => follow) fun place next => next = place :=
  fun _ _ place _ steps _ accepts => ⟨place, steps, Nat.le_refl _, rfl, accepts⟩

theorem comp (here : Sound round body) (next : Sound rest tail)
    (keeps : ∀ follow, Keeps follow (round follow))
    (keeps' : ∀ follow, Keeps follow (rest follow)) :
    Sound (fun follow => round (rest follow)) fun place next =>
      ∃ middle, body place middle ∧ tail middle next := by
  intro follow code place final steps agrees accepts
  obtain ⟨middle, fewer, less, first, accepts⟩ := here (rest follow) code place final steps
    (agrees.weaken (keeps' follow).size_le) accepts
  obtain ⟨last, fewest, less', second, accepts⟩ := next follow code middle final fewer
    ((keeps (rest follow)).agrees agrees) accepts
  exact ⟨last, fewest, Nat.le_trans less' less, ⟨middle, first, second⟩, accepts⟩

theorem take (set : CharSet) :
    Sound (fun follow => follow.push (.take set follow.entry)) fun place next =>
      place.take? set.contains = some next := by
  intro follow code place final steps agrees accepts
  obtain ⟨after, fewer, less, taken, rest⟩ := accepts.of_take (agrees.pushed (Nat.le_refl _))
  exact ⟨after, fewer, less, taken, rest⟩

theorem literal (text : Text) :
    Sound (text.foldr fun c program => program.push (.take (.single c) program.entry))
      fun place next => next ∈ Regex.literalEnds text place := by
  induction text with
  | nil => exact nothing.mono fun _ _ same => List.mem_singleton.mpr same
  | cons c text ih =>
    refine ((take (.single c)).comp ih (fun follow => .push ..) fun follow => ?_).mono ?_
    · exact (Implements.literal text).keeps follow
    · rintro place next ⟨middle, taken, rest⟩
      exact List.mem_flatMap.mpr ⟨middle, Option.mem_toList.mpr taken, rest⟩

theorem check (condition : Look) :
    Sound (fun follow => follow.push (.check condition follow.entry)) fun place next =>
      condition.holds place = true ∧ next = place := by
  intro follow code place final steps agrees accepts
  obtain ⟨fewer, less, holds, rest⟩ := accepts.of_check (agrees.pushed (Nat.le_refl _))
  exact ⟨place, fewer, less, ⟨holds, rfl⟩, rest⟩

section Rounds

variable (sound : Sound round body) (keeps : ∀ follow, Keeps follow (round follow))

include sound keeps

theorem times (count : Nat) : Sound (Program.times count round) (Regex.Chain body count) := by
  induction count with
  | zero => exact nothing
  | succ count ih =>
    have step : Program.times (count + 1) round =
        fun follow => round (Program.times count round follow) :=
      funext fun follow => times_succ count round follow
    rw [step]
    exact sound.comp ih keeps fun follow => keeps_times keeps follow count

theorem upTo (greedy : Bool) (count : Nat) :
    Sound (Program.upTo count greedy round) fun place next =>
      ∃ rounds, rounds ≤ count ∧ Regex.Chain body rounds place next := by
  induction count with
  | zero => exact nothing.mono fun _ _ same => ⟨0, Nat.le_refl _, same⟩
  | succ count ih =>
    intro follow code place final steps agrees accepts
    rw [upTo_succ] at agrees accepts
    have before := keeps_upTo keeps greedy follow count
    have sizes := before.trans (keeps _)
    obtain ⟨fewer, less, longer | shorter⟩ := accepts.of_branch (agrees.pushed sizes.size_le)
    · have outer := (Keeps.push _ _).agrees agrees
      obtain ⟨middle, fewer', less', first, accepts⟩ :=
        sound _ code place final fewer (outer.weaken before.size_le) longer
      obtain ⟨last, fewest, least, ⟨rounds, bounded, others⟩, accepts⟩ :=
        ih follow code middle final fewer' ((keeps _).agrees outer) accepts
      exact ⟨last, fewest, by omega, ⟨rounds + 1, by omega, middle, first, others⟩, accepts⟩
    · exact ⟨place, fewer, Nat.le_of_lt less, ⟨0, by omega, rfl⟩, shorter⟩

variable (greedy : Bool) (follow : Program)

omit keeps in
/-- A way through a round of a loop comes to the decision. -/
private theorem loop_round {place final : Place} {steps : Nat}
    (agrees : Agrees code (loop greedy round follow).1 follow.code.size)
    (accepts : Accepts code steps (loop greedy round follow).1.entry place final) :
    ∃ middle fewer, fewer ≤ steps ∧ body place middle ∧
      Accepts code fewer follow.code.size middle final := by
  refine sound ⟨follow.code.push .accept, follow.code.size⟩ code place final steps ?_ accepts
  simpa using loop_agrees agrees

/-- A way from the decision of a loop comes to the end after any number of rounds. Every round
takes at least the step of its decision. -/
theorem loop_decision {place final : Place} {steps : Nat}
    (agrees : Agrees code (loop greedy round follow).1 follow.code.size)
    (accepts : Accepts code steps follow.code.size place final) :
    ∃ middle fewer, fewer ≤ steps ∧ (∃ count, Regex.Chain body count place middle) ∧
      Accepts code fewer follow.entry middle final := by
  induction steps using Nat.strongRecOn generalizing place with
  | _ steps ih =>
    obtain ⟨fewer, less, longer | shorter⟩ :=
      accepts.of_branch (loop_branch keeps greedy follow agrees)
    · obtain ⟨middle, fewer', less', first, accepts⟩ :=
        loop_round sound greedy follow agrees longer
      obtain ⟨last, fewest, least, ⟨count, others⟩, accepts⟩ := ih fewer' (by omega) accepts
      exact ⟨last, fewest, by omega, ⟨count + 1, middle, first, others⟩, accepts⟩
    · exact ⟨place, fewer, Nat.le_of_lt less, ⟨0, rfl⟩, shorter⟩

omit greedy follow in
theorem loop_entry (greedy : Bool) :
    Sound (fun follow => (loop greedy round follow).1) fun place next =>
      ∃ count, Regex.Chain body (count + 1) place next := by
  intro follow code place final steps agrees accepts
  obtain ⟨middle, fewer, less, first, accepts⟩ :=
    loop_round sound greedy follow agrees accepts
  obtain ⟨last, fewest, least, ⟨count, others⟩, accepts⟩ :=
    loop_decision sound keeps greedy follow agrees accepts
  exact ⟨last, fewest, by omega, ⟨count, middle, first, others⟩, accepts⟩

end Rounds

end Sound

end Program

namespace Regex

open Program

/-- The program of an expression keeps what follows. -/
theorem keeps_emit (regex : Regex) (follow : Program) : Keeps follow (regex.emit follow) := by
  induction regex generalizing follow with
  | empty => exact .refl follow
  | literal text => exact (Implements.literal text).keeps follow
  | chars set => exact .push ..
  | look condition => exact .push ..
  | repetition min max greedy body ih =>
    cases max with
    | some max =>
      exact (keeps_upTo ih greedy follow (max - min)).trans (keeps_times ih _ min)
    | none =>
      cases min with
      | zero =>
        have kept := keeps_loop ih greedy follow
        simp only [emit]
        split
        · exact ⟨kept.size_le, kept.same⟩
        · exact kept.trans (.push ..)
      | succ count => exact (keeps_loop ih greedy follow).trans (keeps_times ih _ count)
  | group index body ih => exact ih follow
  | seq first rest ih ih' => exact (ih' follow).trans (ih _)
  | alt preferred other ih ih' =>
    have left := ih ⟨(other.emit follow).code, follow.entry⟩
    have both : Keeps follow (preferred.emit ⟨(other.emit follow).code, follow.entry⟩) :=
      (ih' follow).trans ⟨left.size_le, left.same⟩
    exact both.trans (.push ..)

theorem matches_repetition {min count : Nat} {max : Option Nat} {greedy : Bool} {body : Regex}
    {place next : Place} (enough : min ≤ count) (bounded : ∀ most ∈ max, count ≤ Nat.max min most)
    (rounds : Chain body.Matches count place next) :
    (repetition min max greedy body).Matches place next :=
  ⟨count, enough, bounded, rounds⟩

theorem matches_unbounded {min count : Nat} {greedy : Bool} {body : Regex} {place next : Place}
    (enough : min ≤ count) (rounds : Chain body.Matches count place next) :
    (repetition min none greedy body).Matches place next :=
  matches_repetition enough (fun _ bound => absurd bound (Option.not_mem_none _)) rounds

/-- Every way through the program of an unbounded loop goes over rounds of its body. -/
theorem sound_star {body : Regex} (sound : Sound body.emit body.Matches) (greedy : Bool) :
    Sound (repetition 0 none greedy body).emit (repetition 0 none greedy body).Matches := by
  have keeps := body.keeps_emit
  intro follow code place final steps agrees accepts
  simp only [emit] at agrees accepts
  split at agrees
  · rename_i advances
    rw [if_pos advances] at accepts
    obtain ⟨middle, fewer, less, ⟨count, rounds⟩, accepts⟩ :=
      sound.loop_decision keeps greedy follow agrees accepts
    exact ⟨middle, fewer, less, matches_unbounded (Nat.zero_le _) rounds, accepts⟩
  · rename_i stays
    rw [if_neg stays] at accepts
    have sizes := keeps_loop keeps greedy follow
    obtain ⟨fewer, less, longer | shorter⟩ := accepts.of_branch (agrees.pushed sizes.size_le)
    · obtain ⟨middle, fewer', less', ⟨count, rounds⟩, accepts⟩ :=
        sound.loop_entry keeps greedy follow code place final fewer
          ((Keeps.push _ _).agrees agrees) longer
      exact ⟨middle, fewer', Nat.le_trans less' (Nat.le_of_lt less),
        matches_unbounded (Nat.zero_le _) rounds, accepts⟩
    · exact ⟨place, fewer, Nat.le_of_lt less, matches_unbounded (Nat.le_refl 0) rfl, shorter⟩

/-- Every way through the program of an expression goes over a match of the expression. -/
theorem sound_emit (regex : Regex) : Sound regex.emit regex.Matches := by
  induction regex with
  | empty => exact .nothing
  | literal text => exact .literal text
  | chars set => exact .take set
  | look condition => exact .check condition
  | repetition min max greedy body ih =>
    have keeps := body.keeps_emit
    cases max with
    | some max =>
      refine ((ih.times keeps min).comp (ih.upTo keeps greedy (max - min))
        (fun follow => keeps_times keeps follow min)
        fun follow => keeps_upTo keeps greedy follow (max - min)).mono ?_
      rintro place next ⟨middle, first, rounds, bounded, others⟩
      refine matches_repetition (Nat.le_add_right min rounds) ?_ (first.append others)
      rintro most ⟨⟩
      have : min + (max - min) = Nat.max min max := by simp only [Nat.max_def]; split <;> omega
      omega
    | none =>
      cases min with
      | zero => exact sound_star ih greedy
      | succ count =>
        refine ((ih.times keeps count).comp (ih.loop_entry keeps greedy)
          (fun follow => keeps_times keeps follow count)
          fun follow => keeps_loop keeps greedy follow).mono ?_
        rintro place next ⟨middle, first, more, others⟩
        exact matches_unbounded (by omega) (first.append others)
  | group index body ih => exact ih
  | seq first rest ih ih' => exact ih.comp ih' first.keeps_emit rest.keeps_emit
  | alt preferred other ih ih' =>
    intro follow code place final steps agrees accepts
    have left := preferred.keeps_emit ⟨(other.emit follow).code, follow.entry⟩
    have sizes := Nat.le_trans (other.keeps_emit follow).size_le left.size_le
    have outer : Agrees code (preferred.emit ⟨(other.emit follow).code, follow.entry⟩)
        follow.code.size := (Keeps.push _ _).agrees agrees
    obtain ⟨fewer, less, ways⟩ := accepts.of_split (agrees.pushed sizes)
    rcases ways with accepts | accepts
    · obtain ⟨middle, fewer', less', here, rest⟩ := ih ⟨(other.emit follow).code, follow.entry⟩ code
        place final fewer (outer.weaken (other.keeps_emit follow).size_le) accepts
      exact ⟨middle, fewer', by omega, .inl here, rest⟩
    · have inner : Agrees code (other.emit follow) follow.code.size :=
        fun number from_start below =>
          (outer number from_start (Nat.lt_of_lt_of_le below left.size_le)).trans
            (left.same number below)
      obtain ⟨middle, fewer', less', here, rest⟩ := ih' follow code place final fewer inner accepts
      exact ⟨middle, fewer', by omega, .inr here, rest⟩

/-- A way through the whole program of an expression is a match of the expression. -/
theorem matches_of_accepts {regex : Regex} {place final : Place} {steps : Nat}
    (accepts : Accepts regex.program.code steps regex.program.entry place final) :
    regex.Matches place final := by
  obtain ⟨middle, fewer, -, here, rest⟩ :=
    regex.sound_emit .accepting regex.program.code place final steps (fun _ _ _ => rfl) accepts
  have accept : regex.program.code[0]? = some .accept :=
    (regex.keeps_emit .accepting).same 0 (by simp [accepting])
  rw [rest.of_accept accept]
  exact here

end Regex

end Packrat
