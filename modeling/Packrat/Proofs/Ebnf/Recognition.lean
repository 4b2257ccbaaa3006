import Packrat.Proofs.Ebnf.Tokens

/-! # Written alternations are recognised

Wherever the words of an alternation stand in a text before a mark that closes it, with white
space and comments between them, the grammar of the notation takes exactly them, and the tree that
it builds folds into the rule that the alternation denotes.
-/

namespace Packrat.Notation.Ebnf

open Peg (Quote oneOr)

/-- The words stand in the text with gaps between them, and the rest comes after them. -/
abbrev Stands (words : List Text) (text rest : Text) : Prop :=
  Parted (Gap IsComment) (Loose (Gap IsComment)) words text rest

section Factors

variable {text rest : Text}

/-- The only form of a factor that matches is taken. -/
private theorem takes_form (kind : String) {result : Rule}
    (member : Rule.reference kind ∈ forms)
    (takes : grammar.Takes (.reference kind) text rest fun tree =>
      foldVariant tree = .ok result) :
    grammar.Takes (.reference "factor") text rest fun tree => foldFactor tree = .ok result := by
  obtain ⟨rank, ranked⟩ := ebnf_agrees.tame.ranked
  have exclusive := ebnf_agrees.tame.exclusive _ _ factor_declared _ (List.mem_cons_self ..)
  refine Grammar.takes_reference factor_declared ?_
  refine Grammar.takes_choice exclusive member
    (fun rule _ cursor => Grammar.exists_gives ranked rule cursor) ?_
  exact takes.mono fun tree folded => by rwa [foldFactor, if_pos rfl]

private theorem takes_reference_name (name : Name) (stands : Stands [name.1] text rest) :
    grammar.Takes (.reference "factor") text rest fun tree =>
      foldFactor tree = .ok (.reference name.string) := by
  obtain ⟨run, middle, gap, rfl, loose, last⟩ := Parted.cons_iff.mp stands
  cases last
  refine takes_form "reference" (by simp [forms])
    (Grammar.takes_reference reference_declared ?_)
  refine (takes_name gap loose name).mono ?_
  rintro _ ⟨offset, rfl⟩
  exact name.reference?

private theorem takes_quoted {quote : Quote} {body : Text} (filled : body ≠ [])
    (plain : quote.mark ∉ body) (stands : Stands [enclose quote body] text rest) :
    grammar.Takes (.reference "factor") text rest fun tree =>
      foldFactor tree = .ok (.text (String.ofList body)) := by
  obtain ⟨run, middle, gap, rfl, loose, last⟩ := Parted.cons_iff.mp stands
  cases last
  refine takes_form "terminal" (by simp [forms])
    (Grammar.takes_reference terminal_declared ?_)
  refine (takes_terminal gap loose filled plain).mono ?_
  rintro _ ⟨offset, rfl⟩
  have inside : Escape.stripQuotes (enclose quote body) = body := by
    rw [Escape.stripQuotes, enclose, List.tail_cons, List.dropLast_concat]
  have folded : foldVariant (.named "terminal"
      (.token ⟨.rule "terminal", enclose quote body, offset⟩)) =
        Rule.literal? (Escape.stripQuotes (enclose quote body)) false := rfl
  rw [folded, inside]
  simp [Rule.literal?, Rule.text, filled]

/-- An alternation between brackets is taken if it is taken before the closing one. -/
private theorem takes_enclosed {kind opening closing : String} {c d : Char} {words : List Text}
    {rule : Rule} (declared : grammar.productions.find? kind =
      some (.sequence [.text opening, .reference "alternation", .text closing]))
    (opens : opening.toList = [c]) (known : c ∈ marks) (closes : closing.toList = [d])
    (known' : d ∈ marks) (closer : .single d ∈ closers)
    (stands : Stands (opening.toList :: (words ++ [closing.toList])) text rest)
    (takes : ∀ {text rest}, Stands words text rest → Leads (Gap IsComment) closers rest →
      grammar.Takes (.reference "alternation") text rest fun tree =>
        foldAlternation tree = .ok rule) :
    grammar.Takes (.reference kind) text rest fun tree =>
      ∃ body, tree = .named kind body ∧ foldEnclosed kind body = .ok rule := by
  obtain ⟨run, middle, gap, rfl, loose, stands⟩ := Parted.cons_iff.mp stands
  obtain ⟨middle', inside, last⟩ := Parted.append_iff.mp stands
  obtain ⟨run', rest', gap', rfl, loose', last⟩ := Parted.cons_iff.mp last
  cases last
  refine Grammar.takes_reference declared (Grammar.takes_sequence ?_)
  refine .cons (takes_mark gap loose opens known) fun first _ => ?_
  have leads : Leads (Gap IsComment) closers (run' ++ (closing.toList ++ rest)) :=
    .ofChar gap' closes closer
  refine .cons (takes inside leads) fun node folded => ?_
  refine .cons (takes_mark gap' loose' closes known') fun last _ => .nil ⟨_, rfl, ?_⟩
  rw [foldEnclosed]
  exact folded

end Factors

section Lists

variable {rules : List Rule} {nodes : List Tree}

private theorem foldFactors_eq (folds : List.Forall₂ (FoldsItem foldFactor) rules nodes) :
    foldFactors nodes = .ok rules := by
  induction folds with
  | nil => rfl
  | cons here _ ih =>
    obtain ⟨mark, node, rfl, folded⟩ := here
    simp only [foldFactors, folded, ih]
    rfl

private theorem foldBranches_eq (folds : List.Forall₂ (FoldsItem foldConcatenation) rules nodes) :
    foldBranches nodes = .ok rules := by
  induction folds with
  | nil => rfl
  | cons here _ ih =>
    obtain ⟨mark, node, rfl, folded⟩ := here
    simp only [foldBranches, folded, ih]
    rfl

variable {text middle rest : Text} {rule : Rule}

private theorem takes_concatenation_of (takes : grammar.Takes (.reference "factor") text middle
      fun tree => foldFactor tree = .ok rule)
    (rounds : grammar.TakesRounds (.sequence [.text ",", .reference "factor"]) middle rest
      (List.Forall₂ (FoldsItem foldFactor) rules)) :
    grammar.Takes (.reference "concatenation") text rest fun tree =>
      foldConcatenation tree = .ok (oneOr .sequence (rule :: rules)) := by
  refine Grammar.takes_reference concatenation_declared ((takes_separated takes rounds).mono ?_)
  rintro _ ⟨node, nodes, rfl, folded, there⟩
  simp only [foldConcatenation, foldSequence, if_true, folded, foldFactors_eq there]
  exact concatenation_eq (List.cons_ne_nil rule rules)

private theorem takes_alternation_of (takes : grammar.Takes (.reference "concatenation") text
      middle fun tree => foldConcatenation tree = .ok rule)
    (rounds : grammar.TakesRounds (.sequence [.text "|", .reference "concatenation"]) middle rest
      (List.Forall₂ (FoldsItem foldConcatenation) rules)) :
    grammar.Takes (.reference "alternation") text rest fun tree =>
      foldAlternation tree = .ok (oneOr .choice (rule :: rules)) := by
  refine Grammar.takes_reference alternation_declared ((takes_separated takes rounds).mono ?_)
  rintro _ ⟨node, nodes, rfl, folded, there⟩
  simp only [foldAlternation, foldAlternatives, if_true, folded, foldBranches_eq there]
  exact alternatives_eq false (List.cons_ne_nil rule rules)

/-- A mark and the words of an item after it are taken. -/
private theorem takes_marked {mark : String} {c : Char} {item : Rule} {words : List Text}
    {fold : Tree → Except Error Rule} (chars : mark.toList = [c]) (known : c ∈ marks)
    (stands : Stands (mark.toList :: words) text rest)
    (takes : ∀ {text}, Stands words text rest →
      grammar.Takes item text rest fun tree => fold tree = .ok rule) :
    grammar.Takes (.sequence [.text mark, item]) text rest (FoldsItem fold rule) := by
  obtain ⟨run, middle, gap, rfl, loose, stands⟩ := Parted.cons_iff.mp stands
  exact takes_further (takes_mark gap loose chars known) (takes stands)

/-- A rule that does not match before any mark of a closing one makes no further round. -/
private theorem done_of_leads {item : Rule} {sets : List CharSet}
    (shunned : grammar.shuns 2 item sets = true) (leads : Leads (Gap IsComment) sets rest)
    (fold : Tree → Except Error Rule) :
    grammar.TakesRounds item rest rest (List.Forall₂ (FoldsItem fold) []) :=
  .done (refuses_of_leads shunned leads) .nil

end Lists

section Alternations

/-- The characters after a concatenation. -/
private abbrev After (text : Text) : Prop :=
  Leads (Gap IsComment) (.single '|' :: closers) text

private theorem after_of_bar {words : List Text} {text rest : Text}
    (stands : Stands ("|".toList :: words) text rest) : After text := by
  obtain ⟨run, middle, gap, rfl, -, -⟩ := Parted.cons_iff.mp stands
  exact .ofChar gap rfl (List.mem_cons_self ..)

private theorem after_of_closer {text : Text} (leads : Leads (Gap IsComment) closers text) :
    After text :=
  leads.mono fun _ member => List.mem_cons_of_mem _ member

mutual

private theorem takes_factor : ∀ (factor : Factor) {text rest : Text},
    Stands factor.words text rest →
      grammar.Takes (.reference "factor") text rest fun tree => foldFactor tree = .ok factor.denote
  | .reference name, text, rest, stands => takes_reference_name name stands
  | .terminal quote body filled plain, text, rest, stands => takes_quoted filled plain stands
  | .option inner, text, rest, stands => by
      refine takes_form "option" (by simp [forms]) ?_
      refine (takes_enclosed (d := ']') option_declared rfl (by decide) rfl (by decide)
        (by simp [closers]) stands (takes_alternation inner)).mono ?_
      rintro _ ⟨body, rfl, folded⟩
      exact congrArg (Except.map Rule.optional) folded
  | .repeat inner, text, rest, stands => by
      refine takes_form "repeat" (by simp [forms]) ?_
      refine (takes_enclosed (d := '\x7d') repeat_declared rfl (by decide) rfl (by decide)
        (by simp [closers]) stands (takes_alternation inner)).mono ?_
      rintro _ ⟨body, rfl, folded⟩
      exact congrArg (Except.map Rule.zeroOrMore) folded
  | .group inner, text, rest, stands => by
      refine takes_form "group" (by simp [forms]) ?_
      refine (takes_enclosed (d := ')') group_declared rfl (by decide) rfl (by decide)
        (by simp [closers]) stands (takes_alternation inner)).mono ?_
      rintro _ ⟨body, rfl, folded⟩
      exact folded

private theorem takes_factors : ∀ (factors : Concatenation) {text rest : Text},
    Stands (",".toList :: factors.words) text rest → After rest →
      grammar.TakesRounds (.sequence [.text ",", .reference "factor"]) text rest
        (List.Forall₂ (FoldsItem foldFactor) factors.denotes)
  | .last factor, text, rest, stands, after => by
      have takes := takes_marked rfl (by decide) stands (takes_factor factor)
      refine .next takes (stands.length_lt (by decide)) fun node folded => ?_
      refine (done_of_leads shunning.factor after foldFactor).mono fun nodes none => ?_
      exact .cons folded none
  | .more factor others, text, rest, stands, after => by
      rw [Concatenation.words, ← List.cons_append] at stands
      obtain ⟨middle, front, back⟩ := Parted.append_iff.mp stands
      have takes := takes_marked rfl (by decide) front (takes_factor factor)
      refine .next takes (front.length_lt (by decide)) fun node folded => ?_
      exact (takes_factors others back after).mono fun nodes there => .cons folded there

private theorem takes_concatenation : ∀ (factors : Concatenation) {text rest : Text},
    Stands factors.words text rest → After rest →
      grammar.Takes (.reference "concatenation") text rest fun tree =>
        foldConcatenation tree = .ok (oneOr .sequence factors.denotes)
  | .last factor, text, rest, stands, after =>
      takes_concatenation_of (takes_factor factor stands)
        (done_of_leads shunning.factor after foldFactor)
  | .more factor others, text, rest, stands, after => by
      obtain ⟨middle, front, back⟩ := Parted.append_iff.mp stands
      exact takes_concatenation_of (takes_factor factor front) (takes_factors others back after)

private theorem takes_branches : ∀ (branches : Alternation) {text rest : Text},
    Stands ("|".toList :: branches.words) text rest → Leads (Gap IsComment) closers rest →
      grammar.TakesRounds (.sequence [.text "|", .reference "concatenation"]) text rest
        (List.Forall₂ (FoldsItem foldConcatenation) branches.denotes)
  | .last branch, text, rest, stands, leads => by
      have takes := takes_marked rfl (by decide) stands fun stands =>
        takes_concatenation branch stands (after_of_closer leads)
      refine .next takes (stands.length_lt (by decide)) fun node folded => ?_
      refine (done_of_leads shunning.branch leads foldConcatenation).mono fun nodes none => ?_
      exact .cons folded none
  | .more branch others, text, rest, stands, leads => by
      rw [Alternation.words, ← List.cons_append] at stands
      obtain ⟨middle, front, back⟩ := Parted.append_iff.mp stands
      have takes := takes_marked rfl (by decide) front fun stands =>
        takes_concatenation branch stands (after_of_bar back)
      refine .next takes (front.length_lt (by decide)) fun node folded => ?_
      exact (takes_branches others back leads).mono fun nodes there => .cons folded there

/-- An alternation is taken before a mark that closes it. -/
theorem takes_alternation : ∀ (alternation : Alternation) {text rest : Text},
    Stands alternation.words text rest → Leads (Gap IsComment) closers rest →
      grammar.Takes (.reference "alternation") text rest fun tree =>
        foldAlternation tree = .ok alternation.denote
  | .last branch, text, rest, stands, leads =>
      takes_alternation_of (takes_concatenation branch stands (after_of_closer leads))
        (done_of_leads shunning.branch leads foldConcatenation)
  | .more branch others, text, rest, stands, leads => by
      obtain ⟨middle, front, back⟩ := Parted.append_iff.mp stands
      exact takes_alternation_of (takes_concatenation branch front (after_of_bar back))
        (takes_branches others back leads)

end

end Alternations

end Packrat.Notation.Ebnf
