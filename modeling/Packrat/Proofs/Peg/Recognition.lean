import Packrat.Proofs.Notation.Written
import Packrat.Proofs.Peg.Tokens

/-! # Written expressions are recognised

Wherever the words of an expression stand in a text, with blanks between them, the grammar of the
notation takes exactly them if no item and no further alternative comes next, and the tree that it
builds folds into the rule that the expression denotes.
-/

namespace Packrat.Notation.Peg

section Names

theorem Name.string_ne_empty (name : Name) : name.string ≠ "" := by
  obtain ⟨c, rest, same, -⟩ := name.eq_cons
  rw [Name.string, same]
  simp

theorem Name.reference? (name : Name) : Rule.reference? name.string = .ok (.reference name.string) :=
  if_neg name.string_ne_empty

theorem Name.token? (name : Name) : Rule.token? name.string = .ok (.token name.string) :=
  if_neg name.string_ne_empty

end Names

section Primaries

variable {text rest : Text}

/-- The tree of a primary folds into a rule. -/
private def Folds (rule : Rule) (tree : Tree) : Prop :=
  ∃ body, tree = .named "primary" body ∧ foldVariant body = .ok rule

/-- A form of a primary is taken where the forms before it do not match. -/
private theorem takes_form (front : List Rule) {back : List Rule} {name : String} {body : Rule}
    {result : Rule}
    (split : forms = front ++ .reference name :: back)
    (declared : grammar.productions.find? name = some body)
    (refuses : ∀ rule ∈ front, grammar.Refuses rule text)
    (takes : grammar.Takes body text rest fun tree => foldVariant (.named name tree) = .ok result) :
    grammar.Takes (.reference "primary") text rest (Folds result) := by
  refine Grammar.takes_reference primary_declared ?_
  rw [split]
  refine Grammar.takes_ordered refuses (Grammar.takes_reference declared ?_)
  exact takes.mono fun tree folded => ⟨_, rfl, folded⟩

variable {run : Text} (blank : ∀ c ∈ run, CharClass.isBlank c = true)

include blank

private theorem takes_end : grammar.Takes (.reference "primary") (run ++ ("<EOF>".toList ++ rest))
    rest (Folds .endOfText) := by
  have leads : Leads [.single '<'] (run ++ ("<EOF>".toList ++ rest)) :=
    leads_of_mark '<' rfl blank (by simp)
  have group := refuses_of_leads shunning.group leads
  refine takes_form [.reference "group"] rfl end_declared (List.forall_mem_singleton.mpr group) ?_
  refine Grammar.Takes.mono (takes_mark blank rfl (by decide)) ?_
  rintro _ ⟨offset, rfl⟩
  rfl

private theorem takes_nothing : grammar.Takes (.reference "primary")
    (run ++ ("<e>".toList ++ rest)) rest (Folds .empty) := by
  have leads : Leads [.single '<'] (run ++ ("<e>".toList ++ rest)) :=
    leads_of_mark '<' rfl blank (by simp)
  have group := refuses_of_leads shunning.group leads
  have ends : grammar.Refuses (.reference "end") (run ++ ("<e>".toList ++ rest)) := by
    have differs : ¬ "<EOF>".toList <+: "<e>".toList ++ rest := nofun
    exact Grammar.refuses_reference end_declared (refuses_mark blank (by decide) differs)
  refine takes_form [.reference "group", .reference "end"] rfl nothing_declared
    (List.forall_mem_cons.mpr ⟨group, List.forall_mem_singleton.mpr ends⟩) ?_
  refine Grammar.Takes.mono (takes_mark blank rfl (by decide)) ?_
  rintro _ ⟨offset, rfl⟩
  rfl

/-- A lexical name is taken, with or without blanks inside, unless it is that of another mark. -/
private theorem takes_lexical (name : Name) {run' run'' inner : Text}
    (blank' : ∀ c ∈ run', CharClass.isBlank c = true)
    (blank'' : ∀ c ∈ run'', CharClass.isBlank c = true)
    (same : inner = run' ++ (name.1 ++ (run'' ++ (">".toList ++ rest))))
    (end' : ¬ "EOF>".toList <+: inner) (nothing : ¬ "e>".toList <+: inner) :
    grammar.Takes (.reference "primary") (run ++ ("<".toList ++ inner)) rest
      (Folds (.token name.string)) := by
  have leads : Leads [.single '<'] (run ++ ("<".toList ++ inner)) :=
    leads_of_mark '<' rfl blank (by simp)
  have differs : ¬ "<EOF>".toList <+: '<' :: inner :=
    fun whole => end' (List.cons_prefix_cons.mp whole).2
  have differs' : ¬ "<e>".toList <+: '<' :: inner :=
    fun whole => nothing (List.cons_prefix_cons.mp whole).2
  have refuses : ∀ rule ∈ [.reference "group", .reference "end", .reference "nothing"],
      grammar.Refuses rule (run ++ ("<".toList ++ inner)) := by
    refine List.forall_mem_cons.mpr ⟨refuses_of_leads shunning.group leads, ?_⟩
    refine List.forall_mem_cons.mpr ⟨?_, List.forall_mem_singleton.mpr ?_⟩
    · exact Grammar.refuses_reference end_declared (refuses_mark blank (by decide) differs)
    · exact Grammar.refuses_reference nothing_declared (refuses_mark blank (by decide) differs')
  refine takes_form _ rfl lexical_declared refuses (Grammar.takes_sequence ?_)
  refine .cons (takes_mark blank rfl (by decide)) fun first _ => ?_
  subst same
  have ends : Text.BeginsIn [.blank, .single '>'] (run'' ++ ('>' :: rest)) :=
    .after_blanks blank'' (by simp) (.single (by simp))
  refine .cons (takes_name blank' name ends) ?_
  rintro _ ⟨offset, rfl⟩
  refine .cons (takes_mark blank'' rfl (by decide)) fun last _ => .nil ?_
  exact name.token?

private theorem takes_any : grammar.Takes (.reference "primary") (run ++ (".".toList ++ rest))
    rest (Folds .anyChar) := by
  have leads : Leads [.single '.'] (run ++ (".".toList ++ rest)) :=
    leads_of_mark '.' rfl blank (by simp)
  refine takes_form (forms.take 5) rfl any_declared (refuses_each shunning.beforeAny leads) ?_
  refine Grammar.Takes.mono (takes_mark blank rfl (by decide)) ?_
  rintro _ ⟨offset, rfl⟩
  rfl

private theorem takes_literal (quote : Quote) (breaks : Breaks rest) :
    grammar.Takes (.reference "primary") (run ++ (quote.enclose text ++ rest)) rest
      (Folds (Primary.literal quote text).denote) := by
  have leads : Leads [.single '"', .single '\''] (run ++ (quote.enclose text ++ rest)) :=
    leads_of_char quote.mark blank (by cases quote <;> simp [Quote.mark])
  refine takes_form (forms.take 4) rfl literal_declared
    (refuses_each shunning.beforeLiteral leads) ?_
  refine (takes_quoted blank quote (beginsIn_of_breaks breaks (by simp))).mono ?_
  rintro _ ⟨offset, rfl⟩
  have read : Escape.unescape language (Escape.stripQuotes (quote.enclose text)) = .ok text := by
    rw [stripQuotes_enclose, unescape_escape]
  have folded : foldVariant (.named "literal"
      (.token ⟨.rule "literal", quote.enclose text, offset⟩)) = Rule.textOrEmpty text :=
    congrArg (· >>= Rule.textOrEmpty) read
  rw [folded, Rule.textOrEmpty, Primary.denote]
  cases text with
  | nil => rfl
  | cons c others => simp [Rule.literal?, Rule.text]

private theorem takes_reference_name (name : Name) (breaks : Breaks rest)
    (arrow : grammar.Refuses (.text "<-") rest) :
    grammar.Takes (.reference "primary") (run ++ (name.1 ++ rest)) rest
      (Folds (.reference name.string)) := by
  have leads : Leads [nameStarts] (run ++ (name.1 ++ rest)) := leads_of_name blank name (by simp)
  refine takes_form (forms.take 6) rfl reference_declared
    (refuses_each shunning.beforeReference leads) ?_
  refine Grammar.takes_sequence ?_
  refine .cons (takes_name blank name (beginsIn_of_breaks breaks (by simp))) ?_
  rintro _ ⟨offset, rfl⟩
  have absent : grammar.Takes (.absent (.text "<-")) rest rest fun _ => True :=
    Grammar.takes_absent arrow fun _ => trivial
  refine .cons absent fun _ _ => .nil ?_
  exact name.reference?

end Primaries

section Items

variable {text middle rest : Text} {rule : Rule}

private theorem takes_times (times : Times) {run : Text}
    (blank : ∀ c ∈ run, CharClass.isBlank c = true) :
    grammar.Takes (.ordered [.text "*", .text "+", .text "?"])
      (run ++ (times.mark.toList ++ rest)) rest fun tree =>
        repetitionOf tree rule = .ok (times.denote rule) := by
  cases times with
  | zeroOrMore =>
    refine Grammar.takes_ordered_head (Grammar.Takes.mono (takes_mark blank rfl (by decide)) ?_)
    rintro _ ⟨offset, rfl⟩
    rfl
  | oneOrMore =>
    refine Grammar.takes_ordered_tail (refuses_mark blank (by decide) nofun)
      (Grammar.takes_ordered_head (Grammar.Takes.mono (takes_mark blank rfl (by decide)) ?_))
    rintro _ ⟨offset, rfl⟩
    rfl
  | optional =>
    refine Grammar.takes_ordered_tail (refuses_mark blank (by decide) nofun)
      (Grammar.takes_ordered_tail (refuses_mark blank (by decide) nofun)
        (Grammar.takes_ordered_head (Grammar.Takes.mono (takes_mark blank rfl (by decide)) ?_)))
    rintro _ ⟨offset, rfl⟩
    rfl

private theorem takes_lookahead (lookahead : Lookahead) {run : Text}
    (blank : ∀ c ∈ run, CharClass.isBlank c = true) :
    grammar.Takes (.ordered [.text "&", .text "!"])
      (run ++ (lookahead.mark.toList ++ rest)) rest fun tree =>
        lookaheadOf tree rule = .ok (lookahead.denote rule) := by
  cases lookahead with
  | ahead =>
    refine Grammar.takes_ordered_head (Grammar.Takes.mono (takes_mark blank rfl (by decide)) ?_)
    rintro _ ⟨offset, rfl⟩
    rfl
  | absent =>
    refine Grammar.takes_ordered_tail (refuses_mark blank (by decide) nofun)
      (Grammar.takes_ordered_head (Grammar.Takes.mono (takes_mark blank rfl (by decide)) ?_))
    rintro _ ⟨offset, rfl⟩
    rfl

/-- No arrow comes where an operator may stand after an item. -/
private theorem arrow_of_times {after : Option Times}
    (spaced : Spaced Breaks (after.map fun mark => mark.mark.toList).toList middle rest)
    (calm : after = none → Calm rest) : grammar.Refuses (.text "<-") middle := by
  cases after with
  | none =>
    cases spaced
    exact (calm rfl).arrow
  | some times =>
    obtain ⟨run, rest, blank, rfl, -, -⟩ := Spaced.cons_iff.mp spaced
    cases times with
    | zeroOrMore => exact refuses_mark blank (by decide) nofun
    | oneOrMore => exact refuses_mark blank (by decide) nofun
    | optional => exact refuses_mark blank (by decide) nofun

private theorem takes_repeated {after : Option Times}
    (takes : grammar.Takes (.reference "primary") text middle (Folds rule))
    (spaced : Spaced Breaks (after.map fun mark => mark.mark.toList).toList middle rest)
    (calm : after = none → Calm rest) :
    grammar.Takes (.reference "suffix") text rest fun tree =>
      foldRepeated tree = .ok (after.elim rule (·.denote rule)) := by
  have operator : grammar.Takes (.optional (.ordered [.text "*", .text "+", .text "?"])) middle rest
      fun tree => repetitionOf tree rule = .ok (after.elim rule (·.denote rule)) := by
    cases after with
    | none =>
      cases spaced
      exact Grammar.takes_without (calm rfl).times fun offset => rfl
    | some times =>
      obtain ⟨run, rest', blank, rfl, -, last⟩ := Spaced.cons_iff.mp spaced
      cases last
      exact Grammar.takes_optional (takes_times times blank)
  refine Grammar.takes_reference repeated_declared (Grammar.takes_sequence ?_)
  refine .cons takes ?_
  rintro _ ⟨body, rfl, folded⟩
  refine .cons operator fun node applied => .nil ?_
  simp only [foldRepeated, foldRepetition, foldPrimary, if_true, folded]
  exact applied

private theorem takes_item {before : Option Lookahead}
    (takes : grammar.Takes (.reference "suffix") middle rest fun tree =>
      foldRepeated tree = .ok rule)
    (spaced : Spaced Breaks (before.map fun mark => mark.mark.toList).toList text middle)
    (leads : Leads primaryStarts middle) :
    grammar.Takes (.reference "prefix") text rest fun tree =>
      foldItem tree = .ok (before.elim rule (·.denote rule)) := by
  have operator : grammar.Takes (.optional (.ordered [.text "&", .text "!"])) text middle
      fun tree => lookaheadOf tree rule = .ok (before.elim rule (·.denote rule)) := by
    cases before with
    | none =>
      cases spaced
      have leads' := leads.mono fun set member => List.mem_append_left enders member
      exact Grammar.takes_without (refuses_of_leads shunning.lookahead leads') fun offset => rfl
    | some lookahead =>
      obtain ⟨run, middle', blank, rfl, -, last⟩ := Spaced.cons_iff.mp spaced
      cases last
      exact Grammar.takes_optional (takes_lookahead lookahead blank)
  refine Grammar.takes_reference item_declared (Grammar.takes_sequence ?_)
  refine .cons operator fun node applied => ?_
  refine .cons takes fun node' folded => .nil ?_
  simp only [foldItem, foldLookahead, if_true, folded]
  exact applied

end Items

section Expressions

variable {text middle rest : Text}

private theorem primary_words (primary : Primary) :
    ∃ word more, primary.words = word :: more ∧ word ≠ [] := by
  cases primary with
  | lexical name other apart => cases apart <;> exact ⟨_, _, rfl, nofun⟩
  | reference name =>
    obtain ⟨c, others, same, -⟩ := name.eq_cons
    exact ⟨_, _, rfl, by simp [same]⟩
  | group | endOfText | nothing | literal | any => exact ⟨_, _, rfl, nofun⟩

/-- How the text of an item begins, and that something of it is taken. -/
private theorem item_begins (item : Item) (spaced : Spaced Breaks item.words text rest) :
    Calm text ∧ rest.length < text.length := by
  obtain ⟨before, operand, after⟩ := item
  obtain ⟨middle, front, spaced⟩ := Spaced.append_iff.mp spaced
  obtain ⟨middle', inner, back⟩ := Spaced.append_iff.mp spaced
  obtain ⟨word, more, same, filled⟩ := primary_words operand
  have shorter := Spaced.length_lt filled (same ▸ inner)
  have taken := back.length_le
  have left := front.length_le
  refine ⟨?_, by omega⟩
  cases before with
  | none =>
    cases front
    exact (primary_begins operand inner).2
  | some lookahead =>
    obtain ⟨run, rest, blank, rfl, -, -⟩ := Spaced.cons_iff.mp front
    cases lookahead with
    | ahead => exact calm_of_leads (leads_of_mark '&' rfl blank (by simp [calmStarts]))
    | absent => exact calm_of_leads (leads_of_mark '!' rfl blank (by simp [calmStarts]))

private theorem sequence_begins (items : Sequence) (spaced : Spaced Breaks items.words text rest) :
    Calm text := by
  cases items with
  | last item => exact (item_begins item spaced).1
  | more item others =>
    obtain ⟨middle, front, -⟩ := Spaced.append_iff.mp spaced
    exact (item_begins item front).1

/-- What comes after the alternative before a further one. -/
private theorem slash_begins {words : List Text}
    (spaced : Spaced Breaks ("/".toList :: words) text rest) :
    Calm text ∧ grammar.Refuses (.reference "prefix") text := by
  obtain ⟨run, middle, blank, rfl, -, -⟩ := Spaced.cons_iff.mp spaced
  exact ⟨calm_of_leads (leads_of_mark '/' rfl blank (by simp [calmStarts])),
    refuses_item_of_leads (leads_of_mark '/' rfl blank (by simp [enders]))⟩

private theorem denotes_ne_nil (items : Sequence) : items.denotes ≠ [] := by
  cases items <;> exact nofun

private theorem takes_sequence {items : Sequence}
    (rounds : grammar.TakesRounds (.reference "prefix") text rest fun nodes =>
      foldAll nodes = .ok items.denotes) :
    grammar.Takes (.reference "sequence") text rest fun tree =>
      foldSequence tree = .ok (oneOr .sequence items.denotes) := by
  refine Grammar.takes_reference sequence_declared
    (Grammar.takes_repetition (rounds.mono fun nodes folded => ⟨?_, ?_⟩))
  · cases nodes with
    | nil =>
      have none : [] = items.denotes := Except.ok.inj folded
      exact absurd none.symm (denotes_ne_nil items)
    | cons node nodes => exact Nat.succ_le_succ (Nat.zero_le _)
  · simp only [foldSequence, foldItems, if_true, folded]
    exact concatenation_eq (denotes_ne_nil items)

/-- The tree of a further alternative folds into a rule. -/
private def FoldsBranch (rule : Rule) (tree : Tree) : Prop :=
  ∃ slash branch, tree = .array [slash, branch] ∧ foldSequence branch = .ok rule

private theorem takes_branch {run : Text} (blank : ∀ c ∈ run, CharClass.isBlank c = true)
    {rule : Rule} (takes : grammar.Takes (.reference "sequence") middle rest fun tree =>
      foldSequence tree = .ok rule) :
    grammar.Takes (.sequence [.text "/", .reference "sequence"])
      (run ++ ("/".toList ++ middle)) rest (FoldsBranch rule) := by
  refine Grammar.takes_sequence (.cons (takes_mark blank rfl (by decide)) fun slash _ => ?_)
  exact .cons takes fun branch folded => .nil ⟨slash, branch, rfl, folded⟩

private theorem takes_alternatives {first : Rule} {others : List Rule}
    (takes : grammar.Takes (.reference "sequence") text middle fun tree =>
      foldSequence tree = .ok first)
    (rounds : grammar.TakesRounds (.sequence [.text "/", .reference "sequence"]) middle rest
      fun nodes => foldBranches nodes = .ok others) :
    grammar.Takes (.reference "expression") text rest fun tree =>
      foldNamed tree = .ok (oneOr .ordered (first :: others)) := by
  refine Grammar.takes_reference expression_declared (Grammar.takes_sequence ?_)
  refine .cons takes fun node folded => ?_
  have repeated : grammar.Takes (.zeroOrMore (.sequence [.text "/", .reference "sequence"]))
      middle rest fun tree => ∃ nodes, tree = .array nodes ∧ foldBranches nodes = .ok others :=
    Grammar.takes_repetition (rounds.mono fun nodes there => ⟨Nat.zero_le _, nodes, rfl, there⟩)
  refine .cons repeated ?_
  rintro _ ⟨nodes, rfl, there⟩
  refine .nil ?_
  simp only [foldNamed, foldExpression, if_true, folded, there]
  exact alternatives_eq true (List.cons_ne_nil first others)

/-- A text up to a closing mark that is in neither is that of the name before the mark. -/
private theorem eq_of_closed {front name rest : Text} (out : '>' ∉ front) (out' : '>' ∉ name)
    (closed : front ++ ['>'] <+: name ++ (">".toList ++ rest)) : name = front := by
  induction front generalizing name with
  | nil =>
    cases name with
    | nil => rfl
    | cons c name =>
      obtain ⟨suffix, same⟩ := closed
      obtain ⟨rfl, -⟩ := List.cons.inj same
      exact absurd (List.mem_cons_self ..) out'
  | cons d front ih =>
    cases name with
    | nil =>
      obtain ⟨suffix, same⟩ := closed
      obtain ⟨rfl, -⟩ := List.cons.inj same
      exact absurd (List.mem_cons_self ..) out
    | cons c name =>
      obtain ⟨suffix, same⟩ := closed
      obtain ⟨rfl, tails⟩ := List.cons.inj same
      have rest := ih (fun member => out (List.mem_cons_of_mem _ member))
        (fun member => out' (List.mem_cons_of_mem _ member)) ⟨suffix, tails⟩
      rw [rest]

private theorem angle_not_mem (name : Name) : '>' ∉ name.1 := by
  obtain ⟨text, named⟩ := name
  cases text with
  | nil => exact nofun
  | cons c rest =>
    obtain ⟨start, others⟩ := Bool.and_eq_true_iff.mp named
    intro member
    rcases List.mem_cons.mp member with rfl | member
    · revert start
      decide
    · have here := List.all_eq_true.mp others '>' member
      revert here
      decide

private theorem not_prefix_of_breaks {mark : Text} (breaks : Breaks text) {c : Char}
    {others : Text} (chars : mark = c :: others) (solid : CharClass.isBlank c = false) :
    ¬ mark <+: text := by
  rintro ⟨suffix, same⟩
  subst chars
  have blank := breaks c (by rw [← same]; rfl)
  rw [solid] at blank
  cases blank

mutual

private theorem takes_operand : ∀ (primary : Primary) {text rest : Text},
    Spaced Breaks primary.words text rest → grammar.Refuses (.text "<-") rest →
      grammar.Takes (.reference "primary") text rest (Folds primary.denote)
  | .group inner, text, rest, spaced, arrow => by
      obtain ⟨run, middle, blank, rfl, -, spaced⟩ := Spaced.cons_iff.mp spaced
      obtain ⟨middle', inside, last⟩ := Spaced.append_iff.mp spaced
      obtain ⟨run', rest', blank', rfl, -, last⟩ := Spaced.cons_iff.mp last
      cases last
      have ended : Ended (run' ++ (")".toList ++ rest)) :=
        ended_of_leads (leads_of_mark ')' rfl blank' (by simp))
      refine takes_form [] rfl group_declared nofun (Grammar.takes_sequence ?_)
      refine .cons (takes_mark blank rfl (by decide)) fun first _ => ?_
      refine .cons (takes_expression inner inside ended) fun node folded => ?_
      refine .cons (takes_mark blank' rfl (by decide)) fun last _ => .nil ?_
      exact folded
  | .endOfText, text, rest, spaced, arrow => by
      obtain ⟨run, middle, blank, rfl, -, last⟩ := Spaced.cons_iff.mp spaced
      cases last
      exact takes_end blank
  | .nothing, text, rest, spaced, arrow => by
      obtain ⟨run, middle, blank, rfl, -, last⟩ := Spaced.cons_iff.mp spaced
      cases last
      exact takes_nothing blank
  | .lexical name other true, text, rest, spaced, arrow => by
      obtain ⟨run, middle, blank, rfl, breaks, spaced⟩ := Spaced.cons_iff.mp spaced
      obtain ⟨run', middle', blank', rfl, -, spaced⟩ := Spaced.cons_iff.mp spaced
      obtain ⟨run'', middle'', blank'', rfl, -, last⟩ := Spaced.cons_iff.mp spaced
      cases last
      exact takes_lexical blank name blank' blank'' rfl
        (not_prefix_of_breaks breaks rfl (by decide)) (not_prefix_of_breaks breaks rfl (by decide))
  | .lexical name other false, text, rest, spaced, arrow => by
      obtain ⟨run, middle, blank, rfl, -, last⟩ := Spaced.cons_iff.mp spaced
      cases last
      have none : ∀ c ∈ ([] : Text), CharClass.isBlank c = true := nofun
      rw [List.append_assoc, List.append_assoc]
      refine takes_lexical blank name none none rfl (fun closed => other.1 ?_)
        (fun closed => other.2 ?_)
      · exact eq_of_closed (by decide) (angle_not_mem name) closed
      · exact eq_of_closed (by decide) (angle_not_mem name) closed
  | .literal quote body, text, rest, spaced, arrow => by
      obtain ⟨run, middle, blank, rfl, breaks, last⟩ := Spaced.cons_iff.mp spaced
      cases last
      exact takes_literal blank quote breaks
  | .any, text, rest, spaced, arrow => by
      obtain ⟨run, middle, blank, rfl, -, last⟩ := Spaced.cons_iff.mp spaced
      cases last
      exact takes_any blank
  | .reference name, text, rest, spaced, arrow => by
      obtain ⟨run, middle, blank, rfl, breaks, last⟩ := Spaced.cons_iff.mp spaced
      cases last
      exact takes_reference_name blank name breaks arrow

private theorem takes_whole_item : ∀ (item : Item) {text rest : Text},
    Spaced Breaks item.words text rest → Calm rest →
      grammar.Takes (.reference "prefix") text rest fun tree => foldItem tree = .ok item.denote
  | .of before operand after, text, rest, spaced, calm => by
      obtain ⟨middle, front, spaced⟩ := Spaced.append_iff.mp spaced
      obtain ⟨middle', inner, back⟩ := Spaced.append_iff.mp spaced
      have leads := (primary_begins operand inner).1
      have takes := takes_operand operand inner (arrow_of_times back fun _ => calm)
      exact takes_item (takes_repeated takes back fun _ => calm) front leads

private theorem takes_items : ∀ (items : Sequence) {text rest : Text},
    Spaced Breaks items.words text rest → Calm rest → grammar.Refuses (.reference "prefix") rest →
      grammar.TakesRounds (.reference "prefix") text rest fun nodes =>
        foldAll nodes = .ok items.denotes
  | .last item, text, rest, spaced, calm, stops => by
      refine .next (takes_whole_item item spaced calm) (item_begins item spaced).2 ?_
      intro node folded
      refine .done stops ?_
      simp only [foldAll, folded]
      rfl
  | .more item others, text, rest, spaced, calm, stops => by
      obtain ⟨middle, front, back⟩ := Spaced.append_iff.mp spaced
      have next := sequence_begins others back
      refine .next (takes_whole_item item front next) (item_begins item front).2 ?_
      intro node folded
      refine (takes_items others back calm stops).mono fun nodes there => ?_
      simp only [foldAll, folded, there]
      rfl

private theorem takes_branches : ∀ (branches : Expression) {text rest : Text},
    Spaced Breaks ("/".toList :: branches.words) text rest → Ended rest →
      grammar.TakesRounds (.sequence [.text "/", .reference "sequence"]) text rest fun nodes =>
        foldBranches nodes = .ok branches.denotes
  | .last branch, text, rest, spaced, ended => by
      have shorter := Spaced.length_lt (by decide) spaced
      obtain ⟨run, middle, blank, rfl, -, spaced⟩ := Spaced.cons_iff.mp spaced
      have takes := takes_sequence (takes_items branch spaced ended.calm ended.item)
      refine .next (takes_branch blank takes) shorter ?_
      rintro _ ⟨slash, node, rfl, folded⟩
      refine .done (Grammar.refuses_sequence (.head ended.branch)) ?_
      simp only [foldBranches, folded]
      rfl
  | .more branch others, text, rest, spaced, ended => by
      obtain ⟨run, middle, blank, rfl, -, spaced⟩ := Spaced.cons_iff.mp spaced
      obtain ⟨middle', front, back⟩ := Spaced.append_iff.mp spaced
      obtain ⟨calm, stops⟩ := slash_begins back
      have shorter := front.length_le
      have takes := takes_sequence (takes_items branch front calm stops)
      refine .next (takes_branch blank takes) (by simp; omega) ?_
      rintro _ ⟨slash, node, rfl, folded⟩
      refine (takes_branches others back ended).mono fun nodes there => ?_
      simp only [foldBranches, folded, there]
      rfl

theorem takes_expression : ∀ (expression : Expression) {text rest : Text},
    Spaced Breaks expression.words text rest → Ended rest →
      grammar.Takes (.reference "expression") text rest fun tree =>
        foldNamed tree = .ok expression.denote
  | .last branch, text, rest, spaced, ended => by
      have takes := takes_sequence (takes_items branch spaced ended.calm ended.item)
      exact takes_alternatives takes (.done (Grammar.refuses_sequence (.head ended.branch)) rfl)
  | .more branch others, text, rest, spaced, ended => by
      obtain ⟨middle, front, back⟩ := Spaced.append_iff.mp spaced
      obtain ⟨calm, stops⟩ := slash_begins back
      have takes := takes_sequence (takes_items branch front calm stops)
      exact takes_alternatives takes (takes_branches others back ended)

end

end Expressions

end Packrat.Notation.Peg
