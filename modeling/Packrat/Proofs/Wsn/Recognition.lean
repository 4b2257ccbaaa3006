import Packrat.Proofs.Wsn.Tokens

/-! # Written expressions are recognised

Wherever the words of an expression stand in a text before a mark that closes it, with white space
between them, the grammar of the notation takes exactly them, and the tree that it builds folds
into the rule that the expression denotes.
-/

namespace Packrat.Notation.Wsn

open Peg (oneOr)

/-- The words stand in the text with white space between them, and the rest comes after them. -/
abbrev Stands (words : List Text) (text rest : Text) : Prop :=
  Parted Blank (Loose Blank) words text rest

section Factors

variable {text rest : Text}

/-- The only form of a factor that matches is taken. -/
private theorem takes_form (kind : String) {result : Rule}
    (member : Rule.reference kind ∈ forms)
    (takes : grammar.Takes (.reference kind) text rest fun tree =>
      foldVariant tree = .ok result) :
    grammar.Takes (.reference "factor") text rest fun tree => foldFactor tree = .ok result := by
  obtain ⟨rank, ranked⟩ := wsn_agrees.tame.ranked
  have exclusive := wsn_agrees.tame.exclusive _ _ factor_declared _ (List.mem_cons_self ..)
  refine Grammar.takes_reference factor_declared ?_
  refine Grammar.takes_choice exclusive member
    (fun rule _ cursor => Grammar.exists_gives ranked rule cursor) ?_
  exact takes.mono fun tree folded => by rwa [foldFactor, if_pos rfl]

private theorem takes_reference_name (name : Name) (stands : Stands [name.1] text rest) :
    grammar.Takes (.reference "factor") text rest fun tree =>
      foldFactor tree = .ok (.reference name.string) := by
  obtain ⟨run, middle, blank, rfl, loose, last⟩ := Parted.cons_iff.mp stands
  cases last
  refine takes_form "identifier" (by simp [forms])
    (Grammar.takes_reference identifier_declared ?_)
  refine (takes_name blank name loose).mono ?_
  rintro _ ⟨offset, rfl⟩
  exact name.reference?

private theorem takes_quoted {body : Text} (filled : body ≠ [])
    (stands : Stands [enclose body] text rest) :
    grammar.Takes (.reference "factor") text rest fun tree =>
      foldFactor tree = .ok (.text (String.ofList body)) := by
  obtain ⟨run, middle, blank, rfl, loose, last⟩ := Parted.cons_iff.mp stands
  cases last
  refine takes_form "literal" (by simp [forms]) (Grammar.takes_reference literal_declared ?_)
  refine (takes_literal blank filled loose).mono ?_
  rintro _ ⟨offset, rfl⟩
  have inside : undouble (Escape.stripQuotes (enclose body)) = body := by
    rw [stripQuotes_enclose, undouble_double]
  have folded : foldVariant (.named "literal" (.token ⟨.rule "literal", enclose body, offset⟩)) =
      Rule.literal? (undouble (Escape.stripQuotes (enclose body))) false := rfl
  rw [folded, inside]
  simp [Rule.literal?, Rule.text, filled]

/-- An expression between brackets is taken if it is taken before the closing one. -/
private theorem takes_enclosed {kind opening closing : String} {c d : Char} {words : List Text}
    {rule : Rule} (declared : grammar.productions.find? kind =
      some (.sequence [.text opening, .reference "expression", .text closing]))
    (opens : opening.toList = [c]) (known : c ∈ marks) (closes : closing.toList = [d])
    (known' : d ∈ marks) (closer : .single d ∈ closers)
    (stands : Stands (opening.toList :: (words ++ [closing.toList])) text rest)
    (takes : ∀ {text rest}, Stands words text rest → Leads Blank closers rest →
      grammar.Takes (.reference "expression") text rest fun tree => foldNamed tree = .ok rule) :
    grammar.Takes (.reference kind) text rest fun tree =>
      ∃ body, tree = .named kind body ∧ foldEnclosed kind body = .ok rule := by
  obtain ⟨run, middle, blank, rfl, -, stands⟩ := Parted.cons_iff.mp stands
  obtain ⟨middle', inside, last⟩ := Parted.append_iff.mp stands
  obtain ⟨run', rest', blank', rfl, -, last⟩ := Parted.cons_iff.mp last
  cases last
  refine Grammar.takes_reference declared (Grammar.takes_sequence ?_)
  refine .cons (takes_mark blank opens known) fun first _ => ?_
  have leads : Leads Blank closers (run' ++ (closing.toList ++ rest)) :=
    .ofChar blank' closes closer
  refine .cons (takes inside leads) fun node folded => ?_
  refine .cons (takes_mark blank' closes known') fun last _ => .nil ⟨_, rfl, ?_⟩
  rw [foldEnclosed]
  exact folded

end Factors

section Lists

variable {rules : List Rule} {nodes : List Tree}

private theorem foldFactors_eq
    (folds : List.Forall₂ (fun rule node => foldFactor node = .ok rule) rules nodes) :
    foldFactors nodes = .ok rules := by
  induction folds with
  | nil => rfl
  | cons here _ ih =>
    simp only [foldFactors, here, ih]
    rfl

private theorem foldBranches_eq (folds : List.Forall₂ (FoldsItem foldTerm) rules nodes) :
    foldBranches nodes = .ok rules := by
  induction folds with
  | nil => rfl
  | cons here _ ih =>
    obtain ⟨mark, node, rfl, folded⟩ := here
    simp only [foldBranches, folded, ih]
    rfl

variable {text middle rest : Text} {rule : Rule}

private theorem takes_term_of (some : rules ≠ [])
    (rounds : grammar.TakesRounds (.reference "factor") text rest
      (List.Forall₂ (fun rule node => foldFactor node = .ok rule) rules)) :
    grammar.Takes (.reference "term") text rest fun tree =>
      foldTerm tree = .ok (oneOr .sequence rules) := by
  refine Grammar.takes_reference term_declared (Grammar.takes_repetition (rounds.mono ?_))
  intro nodes folds
  refine ⟨folds.length_eq ▸ List.length_pos_of_ne_nil some, ?_⟩
  simp only [foldTerm, foldSequence, if_true, foldFactors_eq folds]
  exact concatenation_eq some

private theorem takes_expression_of (takes : grammar.Takes (.reference "term") text middle
      fun tree => foldTerm tree = .ok rule)
    (rounds : grammar.TakesRounds (.sequence [.text "|", .reference "term"]) middle rest
      (List.Forall₂ (FoldsItem foldTerm) rules)) :
    grammar.Takes (.reference "expression") text rest fun tree =>
      foldNamed tree = .ok (oneOr .choice (rule :: rules)) := by
  refine Grammar.takes_reference expression_declared ((takes_separated takes rounds).mono ?_)
  rintro _ ⟨node, nodes, rfl, folded, there⟩
  simp only [foldNamed, foldExpression, if_true, folded, foldBranches_eq there]
  exact alternatives_eq false (List.cons_ne_nil rule rules)

/-- A bar and the words of a term after it are taken. -/
private theorem takes_barred {words : List Text} (stands : Stands ("|".toList :: words) text rest)
    (takes : ∀ {text}, Stands words text rest →
      grammar.Takes (.reference "term") text rest fun tree => foldTerm tree = .ok rule) :
    grammar.Takes (.sequence [.text "|", .reference "term"]) text rest
      (FoldsItem foldTerm rule) := by
  obtain ⟨run, middle, blank, rfl, -, stands⟩ := Parted.cons_iff.mp stands
  exact takes_further (takes_mark blank rfl (by decide)) (takes stands)

end Lists

section Expressions

/-- The characters after a term. -/
private abbrev After (text : Text) : Prop := Leads Blank (.single '|' :: closers) text

private theorem after_of_bar {words : List Text} {text rest : Text}
    (stands : Stands ("|".toList :: words) text rest) : After text := by
  obtain ⟨run, middle, blank, rfl, -, -⟩ := Parted.cons_iff.mp stands
  exact .ofChar blank rfl (List.mem_cons_self ..)

private theorem after_of_closer {text : Text} (leads : Leads Blank closers text) : After text :=
  leads.mono fun _ member => List.mem_cons_of_mem _ member

private theorem Factor.length_lt {factor : Factor} {text rest : Text}
    (stands : Stands factor.words text rest) : rest.length < text.length := by
  cases factor with
  | reference name => exact stands.length_lt name.ne_nil
  | literal text filled => exact stands.length_lt (List.cons_ne_nil _ _)
  | option inner | group inner | «repeat» inner => exact stands.length_lt (by decide)

private theorem Term.denotes_ne_nil (term : Term) : term.denotes ≠ [] := by
  cases term <;> exact List.cons_ne_nil _ _

mutual

private theorem takes_factor : ∀ (factor : Factor) {text rest : Text},
    Stands factor.words text rest →
      grammar.Takes (.reference "factor") text rest fun tree => foldFactor tree = .ok factor.denote
  | .reference name, text, rest, stands => takes_reference_name name stands
  | .literal body filled, text, rest, stands => takes_quoted filled stands
  | .option inner, text, rest, stands => by
      refine takes_form "option" (by simp [forms]) ?_
      refine (takes_enclosed (d := ']') option_declared rfl (by decide) rfl (by decide)
        (by simp [closers]) stands (takes_expression inner)).mono ?_
      rintro _ ⟨body, rfl, folded⟩
      exact congrArg (Except.map Rule.optional) folded
  | .group inner, text, rest, stands => by
      refine takes_form "group" (by simp [forms]) ?_
      refine (takes_enclosed (d := ')') group_declared rfl (by decide) rfl (by decide)
        (by simp [closers]) stands (takes_expression inner)).mono ?_
      rintro _ ⟨body, rfl, folded⟩
      exact folded
  | .repeat inner, text, rest, stands => by
      refine takes_form "repeat" (by simp [forms]) ?_
      refine (takes_enclosed (d := '\x7d') repeat_declared rfl (by decide) rfl (by decide)
        (by simp [closers]) stands (takes_expression inner)).mono ?_
      rintro _ ⟨body, rfl, folded⟩
      exact congrArg (Except.map Rule.zeroOrMore) folded

private theorem takes_factors : ∀ (factors : Term) {text rest : Text},
    Stands factors.words text rest → After rest →
      grammar.TakesRounds (.reference "factor") text rest
        (List.Forall₂ (fun rule node => foldFactor node = .ok rule) factors.denotes)
  | .last factor, text, rest, stands, after => by
      refine .next (takes_factor factor stands) (Factor.length_lt stands) fun node folded => ?_
      exact .done (refuses_of_leads shunning.factor after) (.cons folded .nil)
  | .more factor others, text, rest, stands, after => by
      obtain ⟨middle, front, back⟩ := Parted.append_iff.mp stands
      refine .next (takes_factor factor front) (Factor.length_lt front) fun node folded => ?_
      exact (takes_factors others back after).mono fun nodes there => .cons folded there

private theorem takes_branches : ∀ (branches : Expression) {text rest : Text},
    Stands ("|".toList :: branches.words) text rest → Leads Blank closers rest →
      grammar.TakesRounds (.sequence [.text "|", .reference "term"]) text rest
        (List.Forall₂ (FoldsItem foldTerm) branches.denotes)
  | .last branch, text, rest, stands, leads => by
      have takes := takes_barred stands fun stands =>
        takes_term_of branch.denotes_ne_nil (takes_factors branch stands (after_of_closer leads))
      refine .next takes (stands.length_lt (by decide)) fun node folded => ?_
      exact .done (refuses_of_leads shunning.branch leads) (.cons folded .nil)
  | .more branch others, text, rest, stands, leads => by
      rw [Expression.words, ← List.cons_append] at stands
      obtain ⟨middle, front, back⟩ := Parted.append_iff.mp stands
      have takes := takes_barred front fun stands =>
        takes_term_of branch.denotes_ne_nil (takes_factors branch stands (after_of_bar back))
      refine .next takes (front.length_lt (by decide)) fun node folded => ?_
      exact (takes_branches others back leads).mono fun nodes there => .cons folded there

/-- An expression is taken before a mark that closes it. -/
theorem takes_expression : ∀ (expression : Expression) {text rest : Text},
    Stands expression.words text rest → Leads Blank closers rest →
      grammar.Takes (.reference "expression") text rest fun tree =>
        foldNamed tree = .ok expression.denote
  | .last branch, text, rest, stands, leads =>
      takes_expression_of
        (takes_term_of branch.denotes_ne_nil (takes_factors branch stands (after_of_closer leads)))
        (.done (refuses_of_leads shunning.branch leads) .nil)
  | .more branch others, text, rest, stands, leads => by
      obtain ⟨middle, front, back⟩ := Parted.append_iff.mp stands
      exact takes_expression_of
        (takes_term_of branch.denotes_ne_nil (takes_factors branch front (after_of_bar back)))
        (takes_branches others back leads)

end

end Expressions

end Packrat.Notation.Wsn
