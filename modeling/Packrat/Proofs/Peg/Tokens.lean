import Packrat.Proofs.Notation.Agreement
import Packrat.Proofs.Peg.Literal
import Mathlib.Tactic.MkIffOfInductiveProp

/-! # Tokens of written expressions

Which words the terminals of the notation's grammar take, and which texts its rules refuse. What
comes next in a text is told by the first character that is no blank, but for the marks that begin
like an arrow.
-/

namespace Packrat.Notation.Peg

/-- The grammar of the notation. -/
abbrev grammar : Grammar := peg.parser.grammar

theorem ignored : grammar.ignore = .blanks :: [.pattern (.of "#[^\\n]*" wellFormed_comment)] :=
  rfl

section Productions

theorem expression_declared : grammar.productions.find? "expression" = some (.sequence
    [.reference "sequence", .zeroOrMore (.sequence [.text "/", .reference "sequence"])]) :=
  (Table.find?_ofList _ _).trans rfl

theorem sequence_declared :
    grammar.productions.find? "sequence" = some (.oneOrMore (.reference "prefix")) :=
  (Table.find?_ofList _ _).trans rfl

theorem item_declared : grammar.productions.find? "prefix" = some (.sequence
    [.optional (.ordered [.text "&", .text "!"]), .reference "suffix"]) :=
  (Table.find?_ofList _ _).trans rfl

theorem repeated_declared : grammar.productions.find? "suffix" = some (.sequence
    [.reference "primary", .optional (.ordered [.text "*", .text "+", .text "?"])]) :=
  (Table.find?_ofList _ _).trans rfl

/-- The forms of a primary, which are tried in this order. -/
def forms : List Rule :=
  [.reference "group", .reference "end", .reference "nothing", .reference "lexical",
    .reference "literal", .reference "any", .reference "reference"]

theorem primary_declared :
    grammar.productions.find? "primary" = some (.ordered forms) :=
  (Table.find?_ofList _ _).trans rfl

theorem group_declared : grammar.productions.find? "group" = some (.sequence
    [.text "(", .reference "expression", .text ")"]) :=
  (Table.find?_ofList _ _).trans rfl

theorem end_declared : grammar.productions.find? "end" = some (.text "<EOF>") :=
  (Table.find?_ofList _ _).trans rfl

theorem nothing_declared : grammar.productions.find? "nothing" = some (.text "<e>") :=
  (Table.find?_ofList _ _).trans rfl

theorem lexical_declared : grammar.productions.find? "lexical" = some (.sequence
    [.text "<", .token "identifier", .text ">"]) :=
  (Table.find?_ofList _ _).trans rfl

theorem literal_declared :
    grammar.productions.find? "literal" = some (.token "literal") :=
  (Table.find?_ofList _ _).trans rfl

theorem any_declared : grammar.productions.find? "any" = some (.text ".") :=
  (Table.find?_ofList _ _).trans rfl

theorem reference_declared : grammar.productions.find? "reference" = some (.sequence
    [.token "identifier", .absent (.text "<-")]) :=
  (Table.find?_ofList _ _).trans rfl

end Productions

section Tokens

variable {run rest text : Text} (blank : ∀ c ∈ run, CharClass.isBlank c = true)

/-- The characters with which the marks of the notation begin. -/
def markStarts : Text := "()<>./;&!*+?".toList

private theorem marks_avoided :
    (markStarts.all fun c => avoids grammar.ignore [.single c]) = true := by decide +kernel

include blank

theorem takes_mark {mark : String} {c : Char} {others : Text}
    (chars : mark.toList = c :: others) (known : c ∈ markStarts) :
    grammar.Takes (.text mark) (run ++ (mark.toList ++ rest)) rest fun tree =>
      ∃ offset, tree = .token ⟨.rule mark, mark.toList, offset⟩ :=
  Grammar.takes_text ignored blank chars (List.all_eq_true.mp marks_avoided c known)

/-- A text that begins with a mark is told apart from other marks by its characters. -/
theorem refuses_mark {mark : String} {c : Char} (known : c ∈ markStarts)
    (differs : ¬ mark.toList <+: c :: rest) :
    grammar.Refuses (.text mark) (run ++ (c :: rest)) := by
  have avoided := List.all_eq_true.mp marks_avoided c known
  have clear : Clear grammar.ignore (c :: rest) :=
    clear_of_avoids avoided (.single (List.mem_singleton_self _))
  exact Grammar.refuses_text ignored blank clear differs

theorem takes_name (name : Name) (ends : rest.BeginsIn [.blank, .single '>']) :
    grammar.Takes (.token "identifier") (run ++ (name.1 ++ rest)) rest fun tree =>
      ∃ offset, tree = .token ⟨.rule "identifier", name.1, offset⟩ :=
  @Grammar.takes_token _ _ ignored _ _ _ blank _ identifierPattern _
    ((Table.find?_insertAll _ _ _).trans rfl) (by decide +kernel) (by decide +kernel)
    (by decide +kernel) name.spells ends

theorem takes_quoted (quote : Quote) (ends : rest.BeginsIn [.blank]) :
    grammar.Takes (.token "literal") (run ++ (quote.enclose text ++ rest)) rest fun tree =>
      ∃ offset, tree = .token ⟨.rule "literal", quote.enclose text, offset⟩ :=
  @Grammar.takes_token _ _ ignored _ _ _ blank _ literalPattern _
    ((Table.find?_insertAll _ _ _).trans rfl) (by decide +kernel) (by decide +kernel)
    (by decide +kernel) (quote.spells text) ends

end Tokens

section Starts

/-- The characters with which a primary begins. -/
def primaryStarts : List CharSet :=
  [.single '(', .single '<', .single '.', .single '"', .single '\'', nameStarts]

/-- The characters of which none begins an arrow or an operator after an item. -/
def calmStarts : List CharSet :=
  [.single '/', .single ')', .single ';', .single '&', .single '!', .single '(', .single '.',
    .single '"', .single '\'', nameStarts]

/-- The characters of which none begins an item. -/
def enders : List CharSet := [.single '/', .single ')', .single ';']

/-- Characters with which the rules of the notation do not begin. -/
@[mk_iff]
structure Shunning : Prop where
  group : grammar.shuns 5 (.reference "group") [.single '<'] = true
  beforeLiteral : (forms.take 4).all (grammar.shuns 5 · [.single '"', .single '\'']) = true
  beforeAny : (forms.take 5).all (grammar.shuns 5 · [.single '.']) = true
  beforeReference : (forms.take 6).all (grammar.shuns 5 · [nameStarts]) = true
  arrow : grammar.shuns 5 (.text "<-") calmStarts = true
  times : grammar.shuns 5 (.ordered [.text "*", .text "+", .text "?"])
    (.single '<' :: calmStarts) = true
  lookahead : grammar.shuns 5 (.ordered [.text "&", .text "!"]) (primaryStarts ++ enders) = true
  repeated : grammar.shuns 5 (.reference "suffix") enders = true
  slash : grammar.shuns 5 (.text "/") [.single ')', .single ';', nameStarts] = true
  closer : grammar.shuns 5 (.text ";") [nameStarts] = true
  rule : grammar.shuns 5 (.reference "rule") [] = true

-- one check for all, since the patterns of the grammar are read anew in each
theorem shunning : Shunning := by
  rw [shunning_iff]
  decide +kernel

/-- After blanks the text ends or goes on with a character of one of the sets. -/
def Leads (sets : List CharSet) (text : Text) : Prop :=
  ∃ run rest, (∀ c ∈ run, CharClass.isBlank c = true) ∧ text = run ++ rest ∧ rest.BeginsIn sets

theorem Leads.mono {sets sets' : List CharSet} {text : Text} (leads : Leads sets text)
    (inside : ∀ set ∈ sets, set ∈ sets') : Leads sets' text := by
  obtain ⟨run, rest, blank, same, begins⟩ := leads
  exact ⟨run, rest, blank, same, begins.mono inside⟩

theorem leads_of_blank {text : Text} (blank : ∀ c ∈ text, CharClass.isBlank c = true)
    (sets : List CharSet) : Leads sets text :=
  ⟨text, [], blank, (List.append_nil text).symm, .nil⟩

theorem leads_of_char {run rest : Text} (c : Char)
    (blank : ∀ c ∈ run, CharClass.isBlank c = true) {sets : List CharSet}
    (member : CharSet.single c ∈ sets) : Leads sets (run ++ (c :: rest)) :=
  ⟨run, c :: rest, blank, rfl, .single member⟩

theorem leads_of_mark {run rest others : Text} {mark : String} (c : Char)
    (chars : mark.toList = c :: others) (blank : ∀ c ∈ run, CharClass.isBlank c = true)
    {sets : List CharSet} (member : CharSet.single c ∈ sets) :
    Leads sets (run ++ (mark.toList ++ rest)) := by
  rw [chars]
  exact leads_of_char c blank member

theorem leads_of_name {run rest : Text} (blank : ∀ c ∈ run, CharClass.isBlank c = true)
    (name : Name) {sets : List CharSet} (member : nameStarts ∈ sets) :
    Leads sets (run ++ (name.1 ++ rest)) := by
  obtain ⟨c, others, same, start⟩ := name.eq_cons
  exact ⟨run, name.1 ++ rest, blank, rfl, same ▸ .cons member (contains_nameStarts start)⟩

theorem refuses_of_leads {rule : Rule} {sets : List CharSet} {text : Text}
    (shunned : grammar.shuns 5 rule sets = true) (leads : Leads sets text) :
    grammar.Refuses rule text := by
  obtain ⟨rank, ranked⟩ := peg_agrees.tame.ranked
  obtain ⟨run, rest, blank, rfl, begins⟩ := leads
  exact Grammar.refuses_of_shuns ignored blank ranked shunned begins

theorem refuses_each {rules : List Rule} {sets : List CharSet} {text : Text}
    (shunned : rules.all (grammar.shuns 5 · sets) = true) (leads : Leads sets text) :
    ∀ rule ∈ rules, grammar.Refuses rule text :=
  fun rule member => refuses_of_leads (List.all_eq_true.mp shunned rule member) leads

theorem beginsIn_of_breaks {text : Text} {sets : List CharSet} (breaks : Breaks text)
    (member : .blank ∈ sets) : text.BeginsIn sets :=
  fun c head => ⟨.blank, member, (CharSet.contains_blank c).trans (breaks c head)⟩

end Starts

/-- Neither an arrow nor an operator after an item comes next. -/
structure Calm (text : Text) : Prop where
  arrow : grammar.Refuses (.text "<-") text
  times : grammar.Refuses (.ordered [.text "*", .text "+", .text "?"]) text

theorem calm_of_leads {text : Text} (leads : Leads calmStarts text) : Calm text where
  arrow := refuses_of_leads shunning.arrow leads
  times := refuses_of_leads shunning.times
    (leads.mono fun _ member => List.mem_cons_of_mem _ member)

theorem calm_of_angle {run rest : Text} (blank : ∀ c ∈ run, CharClass.isBlank c = true)
    (differs : rest.head? ≠ some '-') : Calm (run ++ ('<' :: rest)) where
  arrow := by
    have differs' : ¬ "<-".toList <+: '<' :: rest := by
      rintro ⟨suffix, same⟩
      obtain ⟨-, same⟩ := List.cons.inj same
      exact differs (same ▸ rfl)
    exact refuses_mark blank (by decide) differs'
  times := refuses_of_leads shunning.times (leads_of_char '<' blank (List.mem_cons_self ..))

private theorem name_char_ne_hyphen (name : Name) (rest : Text) :
    (name.1 ++ rest).head? ≠ some '-' := by
  obtain ⟨c, others, same, start⟩ := name.eq_cons
  rw [same]
  intro head
  obtain rfl : c = '-' := by simpa using head
  revert start
  decide

/-- How the text of a primary begins. -/
theorem primary_begins (primary : Primary) {text rest : Text}
    (spaced : Spaced Breaks primary.words text rest) : Leads primaryStarts text ∧ Calm text := by
  cases primary with
  | group inner =>
    obtain ⟨run, middle, blank, rfl, -, -⟩ := Spaced.cons_iff.mp spaced
    exact ⟨leads_of_mark '(' rfl blank (by simp [primaryStarts]),
      calm_of_leads (leads_of_mark '(' rfl blank (by simp [calmStarts]))⟩
  | endOfText =>
    obtain ⟨run, middle, blank, rfl, -, -⟩ := Spaced.cons_iff.mp spaced
    have differs : ("EOF>".toList ++ middle).head? ≠ some '-' := nofun
    exact ⟨leads_of_mark '<' rfl blank (by simp [primaryStarts]), calm_of_angle blank differs⟩
  | nothing =>
    obtain ⟨run, middle, blank, rfl, -, -⟩ := Spaced.cons_iff.mp spaced
    have differs : ("e>".toList ++ middle).head? ≠ some '-' := nofun
    exact ⟨leads_of_mark '<' rfl blank (by simp [primaryStarts]), calm_of_angle blank differs⟩
  | lexical name other apart =>
    cases apart with
    | true =>
      obtain ⟨run, middle, blank, rfl, breaks, -⟩ := Spaced.cons_iff.mp spaced
      have differs : middle.head? ≠ some '-' := by
        intro head
        have blank := breaks '-' head
        revert blank
        decide
      exact ⟨leads_of_mark '<' rfl blank (by simp [primaryStarts]), calm_of_angle blank differs⟩
    | false =>
      obtain ⟨run, middle, blank, rfl, -, -⟩ := Spaced.cons_iff.mp spaced
      have differs := name_char_ne_hyphen name (">".toList ++ middle)
      rw [List.append_assoc, List.append_assoc]
      exact ⟨leads_of_mark '<' rfl blank (by simp [primaryStarts]), calm_of_angle blank differs⟩
  | literal quote text =>
    obtain ⟨run, middle, blank, rfl, -, -⟩ := Spaced.cons_iff.mp spaced
    have start : CharSet.single quote.mark ∈ primaryStarts := by
      cases quote <;> simp [primaryStarts, Quote.mark]
    have calm : CharSet.single quote.mark ∈ calmStarts := by
      cases quote <;> simp [calmStarts, Quote.mark]
    exact ⟨leads_of_char _ blank start, calm_of_leads (leads_of_char _ blank calm)⟩
  | any =>
    obtain ⟨run, middle, blank, rfl, -, -⟩ := Spaced.cons_iff.mp spaced
    exact ⟨leads_of_mark '.' rfl blank (by simp [primaryStarts]),
      calm_of_leads (leads_of_mark '.' rfl blank (by simp [calmStarts]))⟩
  | reference name =>
    obtain ⟨run, middle, blank, rfl, -, -⟩ := Spaced.cons_iff.mp spaced
    exact ⟨leads_of_name blank name (by simp [primaryStarts]),
      calm_of_leads (leads_of_name blank name (by simp [calmStarts]))⟩

/-- No item comes next. -/
theorem refuses_item_of_leads {text : Text} (leads : Leads enders text) :
    grammar.Refuses (.reference "prefix") text := by
  have calm : grammar.Refuses (.ordered [.text "&", .text "!"]) text :=
    refuses_of_leads shunning.lookahead
      (leads.mono fun set member => List.mem_append_right _ member)
  have none : grammar.Takes (.optional (.ordered [.text "&", .text "!"])) text text fun _ => True :=
    Grammar.takes_without calm fun _ => trivial
  exact Grammar.refuses_reference item_declared (Grammar.refuses_sequence
    (.tail none (.head (refuses_of_leads shunning.repeated leads))))

/-- Neither an item nor a further alternative comes next. -/
structure Ended (text : Text) : Prop where
  calm : Calm text
  item : grammar.Refuses (.reference "prefix") text
  branch : grammar.Refuses (.text "/") text

theorem ended_of_leads {text : Text} (leads : Leads [.single ')', .single ';'] text) :
    Ended text where
  calm := calm_of_leads (leads.mono (by simp [calmStarts]))
  item := refuses_item_of_leads (leads.mono (by simp [enders]))
  branch := refuses_of_leads shunning.slash (leads.mono (by simp))

/-- The name of the next rule is no item. -/
theorem ended_of_rule {name : Name} {words : List Text} {text rest : Text}
    (spaced : Spaced Breaks (name.1 :: "<-".toList :: words) text rest) : Ended text := by
  obtain ⟨run, middle, blank, rfl, breaks, arrow⟩ := Spaced.cons_iff.mp spaced
  obtain ⟨run', middle', blank', rfl, -, -⟩ := Spaced.cons_iff.mp arrow
  have leads : Leads [nameStarts] (run ++ (name.1 ++ (run' ++ ("<-".toList ++ middle')))) :=
    leads_of_name blank name (by simp)
  refine ⟨calm_of_leads (leads.mono (by simp [calmStarts])), ?_,
    refuses_of_leads shunning.slash (leads.mono (by simp))⟩
  have calm := refuses_of_leads shunning.lookahead (leads.mono (by simp [primaryStarts]))
  have none : grammar.Takes (.optional (.ordered [.text "&", .text "!"])) _ _ fun _ => True :=
    Grammar.takes_without calm fun _ => trivial
  have reference : grammar.Refuses (.reference "reference")
      (run ++ (name.1 ++ (run' ++ ("<-".toList ++ middle')))) := by
    have taken := takes_name blank name (beginsIn_of_breaks breaks (by simp))
    refine Grammar.refuses_reference reference_declared (Grammar.refuses_sequence (.tail taken ?_))
    exact .head (Grammar.refuses_absent (takes_mark blank' rfl (by decide)))
  have others := refuses_each shunning.beforeReference leads
  have primary := Grammar.refuses_reference primary_declared (Grammar.refuses_ordered
    (List.forall_mem_append.mpr ⟨others, List.forall_mem_singleton.mpr reference⟩))
  have repeated := Grammar.refuses_reference repeated_declared
    (Grammar.refuses_sequence (.head primary))
  exact Grammar.refuses_reference item_declared
    (Grammar.refuses_sequence (.tail none (.head repeated)))

end Packrat.Notation.Peg
