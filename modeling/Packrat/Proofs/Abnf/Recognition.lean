import Packrat.Proofs.Abnf.Tokens

/-! # Written alternations are recognised

Wherever the words of an alternation stand in a text, with white space and comments between them,
the grammar of the notation takes exactly them if no element and no further alternative comes next,
and the tree that it builds folds into the rule that the alternation denotes.
-/

namespace Packrat.Notation.Abnf

open Peg (oneOr)

section Elements

variable {text rest : Text}

/-- A form of an element is taken where the forms before it do not match. -/
private theorem takes_form (front : List Rule) {back : List Rule} {kind : String} {body : Rule}
    {result : Except Error Rule} (split : forms = front ++ .reference kind :: back)
    (declared : grammar.productions.find? kind = some body)
    (refuses : ∀ rule ∈ front, grammar.Refuses rule text)
    (takes : grammar.Takes body text rest fun tree =>
      foldVariant false (.named kind tree) = result) :
    grammar.Takes (.reference "element") text rest fun tree => foldElement false tree = result := by
  refine Grammar.takes_reference element_declared ?_
  rw [split]
  refine Grammar.takes_ordered refuses (Grammar.takes_reference declared ?_)
  exact takes.mono fun tree folded => by rwa [foldElement, if_pos rfl]

private theorem takes_reference_name (name : Name) (stands : Stands [name.1] text rest)
    (calm : Calm rest) :
    grammar.Takes (.reference "element") text rest fun tree =>
      foldElement false tree = .ok (.reference name.string) := by
  obtain ⟨run, middle, gap, rfl, loose, last⟩ := Parted.cons_iff.mp stands
  cases last
  refine takes_form [] rfl reference_declared nofun (Grammar.takes_sequence ?_)
  refine .cons (takes_name gap loose name) ?_
  rintro _ ⟨offset, rfl⟩
  have absent : grammar.Takes (.absent (.reference "defined-as")) rest rest fun _ => True :=
    Grammar.takes_absent calm fun _ => trivial
  refine .cons absent fun _ _ => .nil ?_
  exact name.reference?

private theorem takes_string (string : Quoted) (stands : Stands [string.word] text rest) :
    grammar.Takes (.reference "element") text rest fun tree =>
      foldElement false tree = .ok string.rule := by
  have refuses := refuses_each shunning.beforeValue ((opens_quoted string []).leads stands)
  obtain ⟨run, middle, gap, rfl, loose, last⟩ := Parted.cons_iff.mp stands
  cases last
  refine takes_form (forms.take 3) rfl charVal_declared refuses ?_
  refine (takes_quoted gap loose string).mono ?_
  rintro _ ⟨offset, rfl⟩
  exact charVal_word string

/-- A numeric value is taken, whether or not there is a rule of it. -/
private theorem takes_numeric (value : Number) (stands : Stands [value.word] text rest) :
    grammar.Takes (.reference "element") text rest fun tree =>
      foldElement false tree = numVal value.word := by
  have refuses := refuses_each shunning.beforeValue ((opens_number value []).leads stands)
  obtain ⟨run, middle, gap, rfl, loose, last⟩ := Parted.cons_iff.mp stands
  cases last
  refine takes_form (forms.take 3 ++ [.reference "char-val"]) rfl numVal_declared
    (List.forall_mem_append.mpr
      ⟨refuses, List.forall_mem_singleton.mpr (refuses_quoted gap value)⟩) ?_
  refine (takes_number gap loose value).mono ?_
  rintro _ ⟨offset, rfl⟩
  rfl

/-- An alternation between brackets is taken if it is taken before the closing one. -/
private theorem takes_enclosed (kind : String) {opening closing : String} {c d : Char}
    {words : List Text} {rules : List Rule} (some : rules ≠ []) (opens : opening.toList = [c])
    (known : c ∈ marks) (closes : closing.toList = [d])
    (known' : d ∈ marks) (closer : .single d ∈ [CharSet.single ')', .single ']'])
    (stands : Stands (opening.toList :: (words ++ [closing.toList])) text rest)
    (takes : ∀ {text rest}, Stands words text rest → Ended rest →
      grammar.Takes (.reference "alternation") text rest fun tree =>
        foldAlternation false tree = .ok rules) :
    grammar.Takes (.sequence [.text opening, .reference "alternation", .text closing]) text rest
      fun tree => foldEnclosed false kind tree = .ok (oneOr .ordered rules) := by
  obtain ⟨run, middle, gap, rfl, loose, stands⟩ := Parted.cons_iff.mp stands
  obtain ⟨middle', inside, last⟩ := Parted.append_iff.mp stands
  obtain ⟨run', rest', gap', rfl, loose', last⟩ := Parted.cons_iff.mp last
  cases last
  refine Grammar.takes_sequence ?_
  refine .cons (takes_mark gap opens known) fun first _ => ?_
  have ended : Ended (run' ++ (closing.toList ++ rest)) :=
    ended_of_leads (.ofChar gap' closes closer)
  refine .cons (takes inside ended) fun node folded => ?_
  refine .cons (takes_mark gap' closes known') fun last _ => .nil ?_
  rw [foldEnclosed, folded]
  exact alternatives_eq true some

end Elements

section Repetitions

variable {text middle rest : Text} {result : Except Error Rule}

private theorem repetitionOf_word (times : Repeat) (rule : Rule) (offset : Nat) :
    repetitionOf (.token ⟨.rule "repeat", times.word, offset⟩) rule =
      .ok (repeated (some times) rule) := by
  have read : repetitionOf (.token ⟨.rule "repeat", times.word, offset⟩) rule =
      (do let bounds ← repeatBounds times.word
          Rule.repetition? (.ok rule) bounds.1 bounds.2) := rfl
  rw [read, repeatBounds_word]
  exact repetition?_bounds times rule

/-- An element is taken with the repeat before it. -/
private theorem takes_repetition_of {times : Option Repeat} {words : List Text}
    (opens : Opens elementStarts words)
    (stands : Stands ((times.map Repeat.word).toList ++ words) text rest)
    (takes : ∀ {text}, Stands words text rest → grammar.Takes (.reference "element") text rest
      fun tree => foldElement false tree = result) :
    grammar.Takes (.reference "repetition") text rest fun tree =>
      foldRepetition false tree = result.map (repeated times) := by
  refine Grammar.takes_reference repetition_declared (Grammar.takes_sequence ?_)
  cases times with
  | none =>
    have leads := (opens.mono fun _ member => List.mem_append_left enders member).leads stands
    have calm : grammar.Refuses (.token "repeat") text := refuses_of_leads shunning.times leads
    have left : grammar.Takes (.optional (.token "repeat")) text text fun tree =>
        ∃ offset, tree = .token (.empty offset) :=
      Grammar.takes_without calm fun offset => ⟨offset, rfl⟩
    refine .cons left ?_
    rintro _ ⟨offset, rfl⟩
    refine .cons (takes stands) fun node folded => .nil ?_
    rw [foldRepetition, if_pos rfl, foldRepeated, folded]
    cases result <;> rfl
  | some times =>
    obtain ⟨run, middle, gap, rfl, loose, stands⟩ := Parted.cons_iff.mp stands
    refine .cons (Grammar.takes_optional (takes_repeat gap loose times)) ?_
    rintro _ ⟨offset, rfl⟩
    refine .cons (takes stands) fun node folded => .nil ?_
    rw [foldRepetition, if_pos rfl, foldRepeated, folded]
    cases result with
    | error fault => rfl
    | ok rule => exact repetitionOf_word times rule offset

variable {results : Except Error (List Rule)}

private theorem takes_concatenation_of
    (rounds : grammar.TakesRounds (.reference "repetition") text rest fun nodes =>
      1 ≤ nodes.length ∧ foldAll false nodes = results) :
    grammar.Takes (.reference "concatenation") text rest fun tree =>
      foldConcatenation false tree = results >>= Rule.concatenation := by
  refine Grammar.takes_reference concatenation_declared (Grammar.takes_repetition
    (rounds.mono fun nodes ⟨enough, folded⟩ => ⟨enough, ?_⟩))
  rw [foldConcatenation, if_pos rfl, foldSequence, folded]

private theorem takes_alternation_of
    (takes : grammar.Takes (.reference "concatenation") text middle fun tree =>
      foldConcatenation false tree = result)
    (rounds : grammar.TakesRounds (.sequence [.text "/", .reference "concatenation"]) middle rest
      fun nodes => foldBranches false nodes = results) :
    grammar.Takes (.reference "alternation") text rest fun tree =>
      foldAlternation false tree = do return (← result) :: (← results) := by
  refine Grammar.takes_reference alternation_declared ((takes_separated takes rounds).mono ?_)
  rintro _ ⟨node, nodes, rfl, folded, there⟩
  rw [foldAlternation, if_pos rfl, foldAlternatives, folded]
  simp only [there]

/-- A numeric value on its own is taken as an alternation, also where there is no rule of it. -/
theorem takes_alternation_of_number (value : Number) {fault : Error}
    (refused : numVal value.word = .error fault) (stands : Stands [value.word] text rest)
    (ended : Ended rest) :
    grammar.Takes (.reference "alternation") text rest fun tree =>
      foldAlternation false tree = .error fault := by
  have opens : Opens elementStarts [value.word] :=
    (opens_number value []).mono (by simp [elementStarts, valueStarts])
  have item : grammar.Takes (.reference "repetition") text rest fun tree =>
      foldRepetition false tree = .error fault :=
    (@takes_repetition_of text rest _ none [value.word] opens stands (takes_numeric value)).mono
      fun tree folded => by rw [folded, refused]; rfl
  have rounds : grammar.TakesRounds (.reference "repetition") text rest fun nodes =>
      1 ≤ nodes.length ∧ foldAll false nodes = .error fault := by
    refine .next item (opens.shorter stands) fun node folded => .done ended.item ⟨Nat.le_refl 1, ?_⟩
    simp only [foldAll, folded]
    rfl
  exact takes_alternation_of (takes_concatenation_of rounds)
    (.done (Grammar.refuses_sequence (.head ended.branch)) rfl)

end Repetitions

section Alternations

private theorem closed_of_slash {words : List Text} {text rest : Text}
    (stands : Stands ("/".toList :: words) text rest) : Closed text := by
  obtain ⟨run, middle, gap, rfl, -, -⟩ := Parted.cons_iff.mp stands
  exact closed_of_leads (.ofChar gap rfl (List.mem_cons_self ..))

/-- A slash and the concatenation after it are taken. -/
private theorem takes_branch {words : List Text} {rule : Rule} {text rest : Text}
    (stands : Stands ("/".toList :: words) text rest)
    (takes : ∀ {text}, Stands words text rest →
      grammar.Takes (.reference "concatenation") text rest fun tree =>
        foldConcatenation false tree = .ok rule) :
    grammar.Takes (.sequence [.text "/", .reference "concatenation"]) text rest
      (FoldsItem (foldConcatenation false) rule) := by
  obtain ⟨run, middle, gap, rfl, loose, stands⟩ := Parted.cons_iff.mp stands
  exact takes_further (takes_mark gap rfl (by decide)) (takes stands)

-- the recursion is that of the written tree, and what may come after a part is handed down to it
mutual

private theorem takes_element : ∀ (element : Element Number.Short) {text rest : Text},
    Stands element.words text rest → Calm rest →
      grammar.Takes (.reference "element") text rest fun tree =>
        foldElement false tree = .ok element.denote
  | .reference name, text, rest, stands, calm => takes_reference_name name stands calm
  | .group inner, text, rest, stands, calm => by
      have refuses := refuses_each shunning.beforeGroup
        ((opens_char '(' (List.mem_singleton_self _) [] _).leads stands)
      refine takes_form (forms.take 1) rfl group_declared refuses ?_
      exact takes_enclosed "group" (d := ')') inner.denotes_ne_nil rfl (by decide) rfl
        (by decide) (by simp) stands (takes_alternation inner)
  | .option inner, text, rest, stands, calm => by
      have refuses := refuses_each shunning.beforeOption
        ((opens_char '[' (List.mem_singleton_self _) [] _).leads stands)
      refine takes_form (forms.take 2) rfl option_declared refuses ?_
      refine (takes_enclosed "option" (d := ']') inner.denotes_ne_nil rfl (by decide) rfl
        (by decide) (by simp) stands (takes_alternation inner)).mono fun tree folded => ?_
      exact congrArg (Except.map Rule.optional) folded
  | .quoted string, text, rest, stands, calm => takes_string string stands
  | .number value short, text, rest, stands, calm =>
      (takes_numeric value stands).mono fun tree folded => folded.trans (numVal_word short)

private theorem takes_item : ∀ (item : Repetition Number.Short) {text rest : Text},
    Stands item.words text rest → Calm rest →
      grammar.Takes (.reference "repetition") text rest fun tree =>
        foldRepetition false tree = .ok item.denote
  | .of times element, text, rest, stands, calm =>
      takes_repetition_of element.opens stands fun stands => takes_element element stands calm

private theorem takes_items : ∀ (items : Concatenation Number.Short) {text rest : Text},
    Stands items.words text rest → Closed rest →
      grammar.TakesRounds (.reference "repetition") text rest fun nodes =>
        1 ≤ nodes.length ∧ foldAll false nodes = .ok items.denotes
  | .last item, text, rest, stands, closed => by
      refine .next (takes_item item stands closed.calm) (item.opens.shorter stands) ?_
      intro node folded
      refine .done closed.item ⟨Nat.le_refl 1, ?_⟩
      simp only [foldAll, folded]
      rfl
  | .more item others, text, rest, stands, closed => by
      obtain ⟨middle, front, back⟩ := Parted.append_iff.mp stands
      -- an item comes next, so the last name before it is not that of a rule
      have calm := calm_of_leads ((others.opens.mono fun _ member =>
        List.mem_append_left _ member).leads back)
      refine .next (takes_item item front calm) (item.opens.shorter front) ?_
      intro node folded
      refine (takes_items others back closed).mono fun nodes there => ?_
      refine ⟨Nat.succ_le_succ (Nat.zero_le _), ?_⟩
      simp only [foldAll, folded, there.2]
      rfl

private theorem takes_concatenation : ∀ (items : Concatenation Number.Short) {text rest : Text},
    Stands items.words text rest → Closed rest →
      grammar.Takes (.reference "concatenation") text rest fun tree =>
        foldConcatenation false tree = .ok (oneOr .sequence items.denotes)
  | items, text, rest, stands, closed =>
      (takes_concatenation_of (takes_items items stands closed)).mono fun tree folded =>
        folded.trans (concatenation_eq items.denotes_ne_nil)

private theorem takes_branches : ∀ (branches : Alternation Number.Short) {text rest : Text},
    Stands ("/".toList :: branches.words) text rest → Ended rest →
      grammar.TakesRounds (.sequence [.text "/", .reference "concatenation"]) text rest
        fun nodes => foldBranches false nodes = .ok branches.denotes
  | .last branch, text, rest, stands, ended => by
      have takes := takes_branch stands fun stands =>
        takes_concatenation branch stands ended.toClosed
      refine .next takes (stands.length_lt (by decide)) ?_
      rintro _ ⟨mark, node, rfl, folded⟩
      refine .done (Grammar.refuses_sequence (.head ended.branch)) ?_
      simp only [foldBranches, folded]
      rfl
  | .more branch others, text, rest, stands, ended => by
      rw [Alternation.words, ← List.cons_append] at stands
      obtain ⟨middle, front, back⟩ := Parted.append_iff.mp stands
      have takes := takes_branch front fun stands =>
        takes_concatenation branch stands (closed_of_slash back)
      refine .next takes (front.length_lt (by decide)) ?_
      rintro _ ⟨mark, node, rfl, folded⟩
      refine (takes_branches others back ended).mono fun nodes there => ?_
      simp only [foldBranches, folded, there]
      rfl

/-- An alternation is taken where it ends. -/
theorem takes_alternation : ∀ (alternation : Alternation Number.Short) {text rest : Text},
    Stands alternation.words text rest → Ended rest →
      grammar.Takes (.reference "alternation") text rest fun tree =>
        foldAlternation false tree = .ok alternation.denotes
  | .last branch, text, rest, stands, ended =>
      takes_alternation_of (takes_concatenation branch stands ended.toClosed)
        (.done (Grammar.refuses_sequence (.head ended.branch)) rfl)
  | .more branch others, text, rest, stands, ended => by
      obtain ⟨middle, front, back⟩ := Parted.append_iff.mp stands
      exact takes_alternation_of (takes_concatenation branch front (closed_of_slash back))
        (takes_branches others back ended)

end

end Alternations

end Packrat.Notation.Abnf
