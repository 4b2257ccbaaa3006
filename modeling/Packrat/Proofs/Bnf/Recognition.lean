import Packrat.Proofs.Bnf.Tokens

/-! # Written rules are recognised

Wherever the words of the alternatives of a rule stand in a text before the end of their line or of
the text, with spaces and broken lines between them, the grammar of the notation takes exactly them,
and the trees that it builds fold into the rules that they denote. A line end before a rule is tried
as the beginning of a further alternative and given back.
-/

namespace Packrat.Notation.Bnf

open Peg (oneOr)

variable {words : List Text} {text rest : Text}

/-- Marks stand at the front of their text, after spaces. -/
theorem leads_of_mark {mark : String} {c : Char} {others : Text} {sets : List CharSet}
    (stands : Stands (mark.toList :: words) text rest) (chars : mark.toList = c :: others)
    (member : .single c ∈ sets) : Leads Spaces sets text := by
  obtain ⟨run, middle, blank, rfl, -, -⟩ := Parted.cons_iff.mp stands
  exact .ofChar blank chars member

/-- The mark that closes a name follows it, or spaces before the mark. -/
theorem beginsIn_of_mark (stands : Stands (">".toList :: words) text rest) :
    text.BeginsIn [spaces, .single '>'] := by
  obtain ⟨run, middle, blank, rfl, -, -⟩ := Parted.cons_iff.mp stands
  cases run with
  | nil => exact .single (c := '>') (by simp)
  | cons c run =>
    exact .cons (List.mem_cons_self ..)
      ((contains_spaces c).trans (blank c (List.mem_cons_self ..)))

section Terms

/-- The words of a reference are taken, between their marks. -/
private theorem takes_reference_name (name : Name)
    (stands : Stands ["<".toList, name.1, ">".toList] text rest) :
    grammar.Takes term text rest fun tree => foldTerm tree = .ok (.reference name.string) := by
  obtain ⟨run, middle, blank, rfl, -, stands⟩ := Parted.cons_iff.mp stands
  obtain ⟨run', middle', blank', rfl, -, stands⟩ := Parted.cons_iff.mp stands
  have closes := beginsIn_of_mark stands
  obtain ⟨run'', middle'', blank'', rfl, -, last⟩ := Parted.cons_iff.mp stands
  cases last
  refine Grammar.takes_ordered_head
    (Grammar.takes_reference reference_declared (Grammar.takes_sequence ?_))
  refine .cons (takes_mark blank rfl (by decide)) fun opening _ => ?_
  refine .cons (takes_name blank' name closes) ?_
  rintro _ ⟨offset, rfl⟩
  refine .cons (takes_mark blank'' rfl (by decide)) fun closing _ => .nil ?_
  rw [foldTerm, if_pos rfl]
  exact name.reference?

/-- A literal is taken, which is no reference. -/
private theorem takes_quoted {quote : Peg.Quote} {body value : Text}
    (spelled : Spelled quote value body) (stands : Stands [enclose quote body] text rest) :
    grammar.Takes term text rest fun tree =>
      foldTerm tree = .ok (if value.isEmpty then .empty else .text (String.ofList value)) := by
  obtain ⟨run, middle, blank, rfl, -, last⟩ := Parted.cons_iff.mp stands
  cases last
  have marked : CharSet.single quote.mark ∈ [CharSet.single '"', .single '\''] := by
    cases quote <;> simp [Peg.Quote.mark]
  have leads : Leads Spaces [.single '"', .single '\''] (run ++ (enclose quote body ++ rest)) :=
    .ofChar blank rfl marked
  refine Grammar.takes_ordered_tail (refuses_of_leads shunning.reference leads)
    (Grammar.takes_ordered_head (Grammar.takes_reference literal_declared ?_))
  refine (takes_literal blank spelled).mono ?_
  rintro _ ⟨offset, rfl⟩
  have folded : foldTerm (.named "literal" (.token ⟨.rule "text", enclose quote body, offset⟩)) =
      (Escape.unescape language (Escape.stripQuotes (enclose quote body)) >>= Rule.textOrEmpty) :=
    rfl
  rw [folded, stripQuotes_enclose, unescape_spelled spelled]
  change Rule.textOrEmpty value = _
  by_cases empty : value.isEmpty <;> simp [Rule.textOrEmpty, Rule.literal?, Rule.text, empty]

/-- A term is taken wherever its words stand. -/
private theorem takes_term {item : Term} (writes : WritesTerm item words)
    (stands : Stands words text rest) :
    grammar.Takes term text rest fun tree => foldTerm tree = .ok item.denote := by
  cases writes with
  | reference => exact takes_reference_name _ stands
  | literal spelled => exact takes_quoted spelled stands

private theorem WritesTerm.length_lt {item : Term} (writes : WritesTerm item words)
    (stands : Stands words text rest) : rest.length < text.length := by
  cases writes with
  | reference => exact stands.length_lt (by decide)
  | literal spelled => exact stands.length_lt (List.cons_ne_nil _ _)

/-- What comes after the terms of an alternative: the bar of a further one, a line end, or the end
of the text. -/
abbrev After (text : Text) : Prop := Leads Spaces (.single '|' :: lineStarts) text

/-- Terms are taken one by one, as far as they go. -/
private theorem takes_terms {terms : List Term} (writes : WritesTerms terms words)
    (stands : Stands words text rest) (after : After rest) :
    grammar.TakesRounds term text rest
      (List.Forall₂ (fun item node => foldTerm node = .ok item.denote) terms) := by
  induction writes generalizing text with
  | nil =>
    cases stands
    exact .done (refuses_of_leads shunning.term after) .nil
  | cons here more ih =>
    obtain ⟨middle, front, back⟩ := Parted.append_iff.mp stands
    refine .next (takes_term here front) (here.length_lt front) fun node folded => ?_
    exact (ih back).mono fun nodes there => .cons folded there

/-- What reads each item on its own reads them all. -/
private theorem mapM_of_forall₂ {α : Type} {denote : α → Rule} {fold : Tree → Except Error Rule}
    {items : List α} {nodes : List Tree}
    (each : List.Forall₂ (fun item node => fold node = .ok (denote item)) items nodes) :
    nodes.mapM fold = .ok (items.map denote) := by
  induction each with
  | nil => rfl
  | cons here _ ih =>
    rw [List.mapM_cons, here, ih]
    rfl

/-- An alternative is taken as the list of its terms. -/
theorem takes_list {branch : Branch} (writes : WritesTerms branch.terms words)
    (stands : Stands words text rest) (after : After rest) :
    grammar.Takes (.reference "list") text rest fun tree => foldList tree = .ok branch.denote := by
  refine Grammar.takes_reference list_declared
    (Grammar.takes_repetition ((takes_terms writes stands after).mono ?_))
  intro nodes folds
  refine ⟨folds.length_eq ▸ List.length_pos_of_ne_nil branch.filled, ?_⟩
  rw [foldList, if_pos rfl, mapM_of_forall₂ folds]
  exact concatenation_eq (by simpa using branch.filled)

end Terms

section Lines

/-- Line ends are taken where there are some, before what resumes the text. -/
theorem takes_break {turn : List Text} {middle : Text} (breaks : Break turn)
    (stands : Stands turn text middle) (resumes : Resumes middle) :
    grammar.Takes (.optional (.token "line-end")) text middle fun _ => True := by
  cases breaks with
  | none =>
    cases stands
    exact Grammar.takes_without (refuses_of_leads shunning.lineEnd resumes) fun _ => trivial
  | lines ends =>
    obtain ⟨run, rest, blank, rfl, -, last⟩ := Parted.cons_iff.mp stands
    cases last
    exact Grammar.takes_optional (takes_lineEnds blank ends resumes)

/-- The text is at the end of a rule, after which the rest comes: line ends before the next rule or
the end of the text, or the end itself. -/
inductive Ended : Text → Text → Prop where
  | line {run word rest} (blank : Spaces run) (ends : LineEnds word)
      (next : Leads Spaces [.single '<'] rest) : Ended (run ++ (word ++ rest)) rest
  | text {run} (blank : Spaces run) : Ended run run

namespace Ended

variable (ended : Ended text rest)

include ended

theorem after : After text := by
  cases ended with
  | line blank ends next =>
    exact ⟨_, _, blank, rfl, (ends.begins _).mono fun _ member => List.mem_cons_of_mem _ member⟩
  | text blank => exact .ofGap blank _

/-- The line end at the end of a rule is no beginning of a further alternative. -/
theorem refuses : grammar.Refuses alternative text := by
  refine Grammar.refuses_sequence ?_
  cases ended with
  | line blank ends next =>
    have taken := takes_lineEnds blank ends (next.mono (by simp))
    exact .tail (Grammar.takes_optional taken) (.head (refuses_of_leads shunning.bar next))
  | text blank =>
    have without : grammar.Takes (.optional (.token "line-end")) _ _ fun _ => True :=
      Grammar.takes_without (refuses_of_leads shunning.lineEnd (.ofGap blank _)) fun _ => trivial
    exact .tail without (.head (refuses_of_leads shunning.bar (.ofGap blank _)))

/-- The end of a rule is taken. -/
theorem takes : grammar.Takes ending text rest fun _ => True := by
  cases ended with
  | line blank ends next =>
    exact Grammar.takes_ordered_head (takes_lineEnds blank ends (next.mono (by simp)))
  | text blank =>
    exact Grammar.takes_ordered_tail (refuses_of_leads shunning.lineEnd (.ofGap blank _))
      (Grammar.takes_ordered_head
        (Grammar.takes_absent (refuses_anyChar blank) fun _ => trivial))

end Ended

end Lines

section Alternatives

private theorem after_of_bar {turn : List Text} (breaks : Break turn)
    (stands : Stands (turn ++ "|".toList :: words) text rest) : After text := by
  cases breaks with
  | none => exact leads_of_mark stands (c := '|') rfl (List.mem_cons_self ..)
  | lines ends =>
    obtain ⟨run, middle, blank, rfl, -, -⟩ := Parted.cons_iff.mp stands
    exact ⟨run, _, blank, rfl,
      (ends.begins middle).mono fun _ member => List.mem_cons_of_mem _ member⟩

/-- A bar, which may begin a new line, and the terms after it are taken. -/
private theorem takes_alternative {turn : List Text} {branch : Branch} (breaks : Break turn)
    (stands : Stands (turn ++ "|".toList :: words) text rest)
    (takes : ∀ {text}, Stands words text rest →
      grammar.Takes (.reference "list") text rest fun tree => foldList tree = .ok branch.denote) :
    grammar.Takes alternative text rest fun tree => foldAlternative tree = .ok branch.denote := by
  obtain ⟨middle, line, barred⟩ := Parted.append_iff.mp stands
  have resumes : Resumes middle := leads_of_mark barred (c := '|') rfl (by simp)
  obtain ⟨run, middle', blank, rfl, -, listed⟩ := Parted.cons_iff.mp barred
  refine Grammar.takes_sequence (.cons (takes_break breaks line resumes) fun turn _ => ?_)
  refine .cons (takes_mark blank rfl (by decide)) fun bar _ => ?_
  exact .cons (takes listed) fun node folded => .nil folded

private theorem length_lt_of_bar {turn : List Text}
    (stands : Stands (turn ++ "|".toList :: words) text rest) : rest.length < text.length := by
  obtain ⟨middle, front, back⟩ := Parted.append_iff.mp stands
  exact (back.length_lt (by decide)).trans_le front.length_le

/-- Alternatives after the first are taken as far as they go. -/
private theorem takes_alternatives {branches : List Branch} {turn : List Text}
    (writes : WritesBranches branches words) (breaks : Break turn)
    (stands : Stands (turn ++ "|".toList :: words) text rest) {left : Text}
    (ended : Ended rest left) :
    grammar.TakesRounds alternative text rest
      (List.Forall₂ (fun branch node => foldAlternative node = .ok branch.denote) branches) := by
  -- the line ends before a bar go with the alternative after it, so that each step takes them first
  induction writes generalizing text turn with
  | last here =>
    have takes := takes_alternative breaks stands fun stands => takes_list here stands ended.after
    refine .next takes (length_lt_of_bar stands) fun node folded => ?_
    exact .done ended.refuses (.cons folded .nil)
  | more here breaks' others ih =>
    rw [← List.cons_append, ← List.append_assoc] at stands
    obtain ⟨middle, front, back⟩ := Parted.append_iff.mp stands
    have takes := takes_alternative breaks front fun stands =>
      takes_list here stands (after_of_bar breaks' back)
    refine .next takes (length_lt_of_bar front) fun node folded => ?_
    exact (ih breaks' back).mono fun nodes there => .cons folded there

/-- The first alternative and those after it fold into the rule of all of them. -/
private theorem takes_expression_of {branch : Branch} {branches : List Branch} {middle : Text}
    (takes : grammar.Takes (.reference "list") text middle
      fun tree => foldList tree = .ok branch.denote)
    (rounds : grammar.TakesRounds alternative middle rest
      (List.Forall₂ (fun branch node => foldAlternative node = .ok branch.denote) branches)) :
    grammar.Takes (.reference "expression") text rest fun tree => ∃ body,
      tree = .named "expression" body ∧
        foldExpression body = .ok (oneOr .choice ((branch :: branches).map Branch.denote)) := by
  refine Grammar.takes_reference expression_declared (Grammar.takes_sequence ?_)
  refine .cons takes fun node folded => ?_
  have repeated : grammar.Takes (.zeroOrMore alternative) middle rest fun tree => ∃ nodes,
      tree = .array nodes ∧
        List.Forall₂ (fun branch node => foldAlternative node = .ok branch.denote) branches nodes :=
    Grammar.takes_repetition (rounds.mono fun nodes there => ⟨Nat.zero_le _, nodes, rfl, there⟩)
  refine .cons repeated ?_
  rintro _ ⟨nodes, rfl, there⟩
  refine .nil ⟨_, rfl, ?_⟩
  simp only [foldExpression, folded, mapM_of_forall₂ there]
  exact alternatives_eq false (List.cons_ne_nil _ _)

/-- The alternatives of a rule are taken before its end. -/
theorem takes_expression {branches : List Branch} (writes : WritesBranches branches words)
    (stands : Stands words text rest) {left : Text} (ended : Ended rest left) :
    grammar.Takes (.reference "expression") text rest fun tree => ∃ body,
      tree = .named "expression" body ∧
        foldExpression body = .ok (oneOr .choice (branches.map Branch.denote)) := by
  cases writes with
  | last here =>
    exact takes_expression_of (takes_list here stands ended.after) (.done ended.refuses .nil)
  | more here breaks others =>
    obtain ⟨middle, front, back⟩ := Parted.append_iff.mp stands
    exact takes_expression_of (takes_list here front (after_of_bar breaks back))
      (takes_alternatives others breaks back ended)

end Alternatives

end Packrat.Notation.Bnf
