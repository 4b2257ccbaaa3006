import Packrat.Proofs.Abnf.Patterns
import Packrat.Proofs.Notation.Agreement
import Mathlib.Tactic.MkIffOfInductiveProp

/-! # Tokens of written augmented Backus-Naur form

Which words the terminals of the notation's grammar take after white space and comments, and which
texts its rules refuse. What comes next in a text is told by the first character after the gap, but
for the name of the next rule, which looks like one more element.
-/

namespace Packrat.Notation.Abnf

/-- The grammar of the notation. -/
abbrev grammar : Grammar := abnf.parser.grammar

theorem ignored : grammar.ignore = [.blanks, .pattern commentPattern] := rfl

section Productions

theorem rulelist_declared :
    grammar.productions.find? "rulelist" = some (.oneOrMore (.reference "rule")) :=
  (Table.find?_ofList _ _).trans rfl

theorem rule_declared : grammar.productions.find? "rule" = some (.sequence
    [.token "rulename", .reference "defined-as", .reference "alternation"]) :=
  (Table.find?_ofList _ _).trans rfl

theorem definedAs_declared :
    grammar.productions.find? "defined-as" = some (.ordered [.text "=/", .text "="]) :=
  (Table.find?_ofList _ _).trans rfl

theorem alternation_declared : grammar.productions.find? "alternation" = some (.sequence
    [.reference "concatenation",
      .zeroOrMore (.sequence [.text "/", .reference "concatenation"])]) :=
  (Table.find?_ofList _ _).trans rfl

theorem concatenation_declared :
    grammar.productions.find? "concatenation" = some (.oneOrMore (.reference "repetition")) :=
  (Table.find?_ofList _ _).trans rfl

theorem repetition_declared : grammar.productions.find? "repetition" = some (.sequence
    [.optional (.token "repeat"), .reference "element"]) :=
  (Table.find?_ofList _ _).trans rfl

/-- The forms of an element, which are tried in this order. -/
def forms : List Rule :=
  [.reference "reference", .reference "group", .reference "option", .reference "char-val",
    .reference "num-val", .reference "prose-val"]

theorem element_declared : grammar.productions.find? "element" = some (.ordered forms) :=
  (Table.find?_ofList _ _).trans rfl

theorem reference_declared : grammar.productions.find? "reference" = some (.sequence
    [.token "rulename", .absent (.reference "defined-as")]) :=
  (Table.find?_ofList _ _).trans rfl

theorem group_declared : grammar.productions.find? "group" = some (.sequence
    [.text "(", .reference "alternation", .text ")"]) :=
  (Table.find?_ofList _ _).trans rfl

theorem option_declared : grammar.productions.find? "option" = some (.sequence
    [.text "[", .reference "alternation", .text "]"]) :=
  (Table.find?_ofList _ _).trans rfl

theorem charVal_declared : grammar.productions.find? "char-val" = some (.token "char-val") :=
  (Table.find?_ofList _ _).trans rfl

theorem numVal_declared : grammar.productions.find? "num-val" = some (.token "num-val") :=
  (Table.find?_ofList _ _).trans rfl

end Productions

section Tokens

variable {run text rest : Text}

/-- A gap before a clear text is skipped. -/
theorem skips_gap (clear : Clear grammar.ignore text) (gap : Gap IsComment run) :
    Skips grammar.ignore run text := by
  refine Skips.of_gap rfl clear (fun piece run comment skips => ?_) gap
  obtain ⟨body, rfl, line⟩ := comment
  have counted := matchCount?_comment line (run ++ text)
  -- the end of the line is skipped as a blank
  have ended : Skips grammar.ignore ('\n' :: run) text := skips.blank rfl (by decide)
  have skipped : Skips grammar.ignore (';' :: body ++ '\n' :: run) text :=
    Skips.after_comment ignored (by decide) counted ended
  rwa [List.cons_append, List.append_assoc]

/-- A word is before the end, white space or a comment. -/
theorem beginsIn_of_loose (loose : Loose (Gap IsComment) rest) : rest.BeginsIn gapStarts := by
  refine loose.beginsIn ?_
  rintro _ ⟨body, rfl, -⟩
  rfl

/-- The marks of the notation, with the sign before numeric values. -/
def marks : Text := "=/()[]%".toList

private theorem marks_avoided :
    (marks.all fun c => avoids grammar.ignore [.single c]) = true := by decide +kernel

private theorem charVal_listed :
    grammar.lexicon.find? "char-val" = some (.pattern quotedPattern) :=
  (Table.find?_insertAll _ _ _).trans rfl

/-- Nothing of a mark is skipped. -/
theorem clear_mark {c : Char} (known : c ∈ marks) (rest : Text) :
    Clear grammar.ignore (c :: rest) :=
  clear_of_avoids (List.all_eq_true.mp marks_avoided c known)
    (.single (List.mem_singleton_self _))

private theorem clear_number (number : Number) (rest : Text) :
    Clear grammar.ignore (number.word ++ rest) := by
  obtain ⟨radix, capital, others, same⟩ := number.word_eq_cons
  rw [same]
  exact clear_mark (by decide) _

section Words

variable (gap : Gap IsComment run)

include gap

theorem takes_mark {mark : String} {c : Char} (chars : mark.toList = [c]) (known : c ∈ marks) :
    grammar.Takes (.text mark) (run ++ (mark.toList ++ rest)) rest fun tree =>
      ∃ offset, tree = .token ⟨.rule mark, mark.toList, offset⟩ := by
  have clear : Clear grammar.ignore (mark.toList ++ rest) := by
    rw [chars]
    exact clear_mark known rest
  exact (skips_gap clear gap).takes_text (by simp [chars])

variable (loose : Loose (Gap IsComment) rest)

include loose

/-- An equals sign before a gap is not taken for the mark of further alternatives. -/
theorem takes_definedAs :
    grammar.Takes (.reference "defined-as") (run ++ ("=".toList ++ rest)) rest fun tree =>
      ∃ offset, tree = .named "defined-as" (.token ⟨.rule "=", ['='], offset⟩) := by
  have clear : Clear grammar.ignore ('=' :: rest) := clear_mark (by decide) rest
  have differs : ¬ "=/".toList <+: '=' :: rest := by
    rintro ⟨suffix, same⟩
    obtain ⟨-, rfl⟩ := List.cons.inj same
    obtain ⟨set, member, belongs⟩ := beginsIn_of_loose loose '/' rfl
    revert set
    decide
  refine Grammar.takes_reference definedAs_declared
    (Grammar.takes_ordered_tail ((skips_gap clear gap).refuses_text differs)
      (Grammar.takes_ordered_head ((takes_mark gap rfl (by decide)).mono ?_)))
  rintro _ ⟨offset, rfl⟩
  exact ⟨offset, rfl⟩

theorem takes_name (name : Name) :
    grammar.Takes (.token "rulename") (run ++ (name.1 ++ rest)) rest fun tree =>
      ∃ offset, tree = .token ⟨.rule "rulename", name.1, offset⟩ := by
  have declared : grammar.lexicon.find? "rulename" = some (.pattern namePattern) :=
    (Table.find?_insertAll _ _ _).trans rfl
  exact Skips.takes_spelled (fun _ clear => skips_gap clear gap) declared (by decide +kernel)
    (by decide +kernel) (by decide +kernel) (spells_name name) (beginsIn_of_loose loose)

theorem takes_quoted (quoted : Quoted) :
    grammar.Takes (.token "char-val") (run ++ (quoted.word ++ rest)) rest fun tree =>
      ∃ offset, tree = .token ⟨.rule "char-val", quoted.word, offset⟩ := by
  exact Skips.takes_spelled (fun _ clear => skips_gap clear gap) charVal_listed (by decide +kernel)
    (by decide +kernel) (by decide +kernel) (spells_quoted quoted) (beginsIn_of_loose loose)

theorem takes_repeat (times : Repeat) :
    grammar.Takes (.token "repeat") (run ++ (times.word ++ rest)) rest fun tree =>
      ∃ offset, tree = .token ⟨.rule "repeat", times.word, offset⟩ := by
  have declared : grammar.lexicon.find? "repeat" = some (.pattern repeatPattern) :=
    (Table.find?_insertAll _ _ _).trans rfl
  have solid : repeatPattern.regex.nullable = false := by decide +kernel
  have spells := spells_repeat times
  have clear : Clear grammar.ignore (times.word ++ rest) :=
    clear_of_avoids (by decide +kernel) (Regex.beginsIn_of_solid spells solid rest)
  exact (skips_gap clear gap).takes_token declared (spells.ne_nil solid)
    (matchCount?_repeat times (beginsIn_of_loose loose))

theorem takes_number (number : Number) :
    grammar.Takes (.token "num-val") (run ++ (number.word ++ rest)) rest fun tree =>
      ∃ offset, tree = .token ⟨.rule "num-val", number.word, offset⟩ := by
  have declared : grammar.lexicon.find? "num-val" = some (.pattern numberPattern) :=
    (Table.find?_insertAll _ _ _).trans rfl
  obtain ⟨radix, capital, others, same⟩ := number.word_eq_cons
  have clear := clear_number number rest
  exact (skips_gap clear gap).takes_token declared (by simp [same])
    (matchCount?_number (beginsIn_of_loose loose) number)

omit loose in
/-- A numeric value is no string. -/
theorem refuses_quoted (number : Number) :
    grammar.Refuses (.reference "char-val") (run ++ (number.word ++ rest)) := by
  have lexical : (Terminal.listed "char-val").lexical? grammar.lexicon =
      some ("char-val", .pattern quotedPattern, false) := by
    rw [Terminal.lexical?, charVal_listed]
    rfl
  obtain ⟨radix, capital, others, same⟩ := number.word_eq_cons
  have other : markLetters.contains (radix.letter capital) = false := by
    cases radix <;> cases capital <;> decide
  have clear := clear_number number rest
  have none : quotedPattern.matchCount? (number.word ++ rest) = none := by
    rw [same]
    exact matchCount?_quoted_eq_none other _
  exact Grammar.refuses_reference charVal_declared
    ((skips_gap clear gap).refuses_terminal lexical (.inr none))

end Words

end Tokens

section Starts

/-- The characters with which an element begins. -/
def elementStarts : List CharSet :=
  [letters, .single '(', .single '[', .single '"', .single '%']

/-- The marks with which a string or a numeric value begins. -/
def valueStarts : List CharSet := [.single '"', .single '%']

/-- The characters with which a repeat begins. -/
def repeatStarts : List CharSet := [Radix.decimal.digits, .single '*']

/-- The marks after a concatenation. -/
def enders : List CharSet := [.single '/', .single ')', .single ']']

/-- Characters with which the rules of the notation do not begin. -/
@[mk_iff]
structure Shunning : Prop where
  beforeGroup : (forms.take 1).all (grammar.shuns 2 · [.single '(']) = true
  beforeOption : (forms.take 2).all (grammar.shuns 2 · [.single '[']) = true
  beforeValue : (forms.take 3).all (grammar.shuns 2 · valueStarts) = true
  afterReference : (forms.drop 1).all (grammar.shuns 2 · [letters]) = true
  times : grammar.shuns 2 (.token "repeat") (elementStarts ++ enders) = true
  element : grammar.shuns 2 (.reference "element") enders = true
  definedAs : grammar.shuns 2 (.reference "defined-as")
    (elementStarts ++ repeatStarts ++ enders) = true
  slash : grammar.shuns 2 (.text "/") [.single ')', .single ']', letters] = true
  rule : grammar.shuns 2 (.reference "rule") [] = true

-- one check for all, since the patterns of the grammar are read anew in each
theorem shunning : Shunning := by
  rw [shunning_iff]
  decide +kernel

/-- A rule does not match before characters that it does not begin with. -/
theorem refuses_of_leads {rule : Rule} {sets : List CharSet} {text : Text}
    (shunned : grammar.shuns 2 rule sets = true) (leads : Leads (Gap IsComment) sets text) :
    grammar.Refuses rule text := by
  obtain ⟨rank, ranked⟩ := abnf_agrees.tame.ranked
  obtain ⟨run, rest, gap, rfl, begins⟩ := leads
  have clear := Grammar.clear_of_shuns shunned begins
  exact (skips_gap clear gap).refuses_of_shuns ranked shunned begins

theorem refuses_each {rules : List Rule} {sets : List CharSet} {text : Text}
    (shunned : rules.all (grammar.shuns 2 · sets) = true)
    (leads : Leads (Gap IsComment) sets text) : ∀ rule ∈ rules, grammar.Refuses rule text :=
  fun rule member => refuses_of_leads (List.all_eq_true.mp shunned rule member) leads

/-- The words stand in the text with gaps between them, and the rest comes after them. -/
abbrev Stands (words : List Text) (text rest : Text) : Prop :=
  Parted (Gap IsComment) (Loose (Gap IsComment)) words text rest

/-- The first of the words begins with a character of one of the sets. -/
def Opens (sets : List CharSet) (words : List Text) : Prop :=
  ∃ c word more, words = (c :: word) :: more ∧ ∃ set ∈ sets, set.contains c = true

namespace Opens

variable {sets sets' : List CharSet} {words : List Text} {text rest : Text}

theorem mono (opens : Opens sets words) (inside : ∀ set ∈ sets, set ∈ sets') :
    Opens sets' words := by
  obtain ⟨c, word, more, same, set, member, belongs⟩ := opens
  exact ⟨c, word, more, same, set, inside set member, belongs⟩

theorem append (opens : Opens sets words) (others : List Text) : Opens sets (words ++ others) := by
  obtain ⟨c, word, more, rfl, begins⟩ := opens
  exact ⟨c, word, more ++ others, rfl, begins⟩

theorem leads (opens : Opens sets words) (stands : Stands words text rest) :
    Leads (Gap IsComment) sets text := by
  obtain ⟨c, word, more, rfl, set, member, belongs⟩ := opens
  obtain ⟨run, middle, gap, rfl, -, -⟩ := Parted.cons_iff.mp stands
  exact ⟨run, c :: word ++ middle, gap, rfl, .cons member belongs⟩

theorem shorter (opens : Opens sets words) (stands : Stands words text rest) :
    rest.length < text.length := by
  obtain ⟨c, word, more, rfl, -⟩ := opens
  exact stands.length_lt (List.cons_ne_nil c word)

end Opens

variable {allowed : Number → Prop}

theorem opens_name (name : Name) (more : List Text) : Opens [letters] (name.1 :: more) := by
  obtain ⟨c, others, same, letter, -⟩ := name.eq_cons
  exact ⟨c, others, more, by rw [same], letters, List.mem_singleton_self _, contains_letters letter⟩

theorem opens_repeat (times : Repeat) (more : List Text) :
    Opens repeatStarts (times.word :: more) := by
  have begins : repeatPattern.regex.begins =
      [Radix.decimal.digits, .single '*', Radix.decimal.digits] := by decide +kernel
  have spells := spells_repeat times
  obtain ⟨c, word, same⟩ := List.exists_cons_of_ne_nil (spells.ne_nil (by decide +kernel))
  obtain ⟨set, member, belongs⟩ := Regex.begins_of_spells spells same
  have inside : set ∈ repeatStarts := by
    simp only [begins, List.mem_cons, List.not_mem_nil, or_false] at member
    rcases member with rfl | rfl | rfl <;> simp [repeatStarts]
  exact ⟨c, word, more, by rw [same], set, inside, belongs⟩

theorem opens_char {sets : List CharSet} (c : Char) (member : .single c ∈ sets)
    (word : Text) (more : List Text) : Opens sets ((c :: word) :: more) :=
  ⟨c, word, more, rfl, .single c, member, (CharSet.contains_single c c).mpr rfl⟩

theorem opens_quoted (string : Quoted) (more : List Text) :
    Opens valueStarts (string.word :: more) := by
  obtain ⟨mark, text, plain⟩ := string
  cases mark with
  | none => exact opens_char '"' (by simp [valueStarts]) _ more
  | some mark => exact opens_char '%' (by simp [valueStarts]) _ more

theorem opens_number (value : Number) (more : List Text) :
    Opens valueStarts (value.word :: more) := by
  obtain ⟨radix, capital, others, same⟩ := value.word_eq_cons
  rw [same]
  exact opens_char '%' (by simp [valueStarts]) _ more

/-- How an element begins. -/
theorem Element.opens (element : Element allowed) : Opens elementStarts element.words := by
  cases element with
  | reference name => exact (opens_name name []).mono (by simp [elementStarts])
  | group inner => exact opens_char '(' (by simp [elementStarts]) [] _
  | option inner => exact opens_char '[' (by simp [elementStarts]) [] _
  | quoted string => exact (opens_quoted string []).mono (by simp [elementStarts, valueStarts])
  | number value here =>
    exact (opens_number value []).mono (by simp [elementStarts, valueStarts])

/-- How a repetition begins. -/
theorem Repetition.opens (item : Repetition allowed) :
    Opens (elementStarts ++ repeatStarts) item.words := by
  obtain ⟨times, element⟩ := item
  cases times with
  | none => exact element.opens.mono fun _ member => List.mem_append_left _ member
  | some times =>
    exact (opens_repeat times element.words).mono fun _ member => List.mem_append_right _ member

/-- How a concatenation begins. -/
theorem Concatenation.opens (items : Concatenation allowed) :
    Opens (elementStarts ++ repeatStarts) items.words := by
  cases items with
  | last item => exact item.opens
  | more item rest => exact item.opens.append rest.words

end Starts

section Ends

variable {text : Text}

/-- No mark of a definition comes next. -/
abbrev Calm (text : Text) : Prop := grammar.Refuses (.reference "defined-as") text

theorem calm_of_leads
    (leads : Leads (Gap IsComment) (elementStarts ++ repeatStarts ++ enders) text) : Calm text :=
  refuses_of_leads shunning.definedAs leads

/-- Where no element comes next there is no repetition. -/
private theorem refuses_repetition (times : grammar.Refuses (.token "repeat") text)
    (element : grammar.Refuses (.reference "element") text) :
    grammar.Refuses (.reference "repetition") text := by
  have none : grammar.Takes (.optional (.token "repeat")) text text fun _ => True :=
    Grammar.takes_without times fun _ => trivial
  exact Grammar.refuses_reference repetition_declared
    (Grammar.refuses_sequence (.tail none (.head element)))

/-- Neither an element nor the mark of a definition comes next. -/
structure Closed (text : Text) : Prop where
  calm : Calm text
  item : grammar.Refuses (.reference "repetition") text

theorem closed_of_leads (leads : Leads (Gap IsComment) enders text) : Closed text where
  calm := calm_of_leads (leads.mono fun _ member => List.mem_append_right _ member)
  item := refuses_repetition
    (refuses_of_leads shunning.times (leads.mono fun _ member => List.mem_append_right _ member))
    (refuses_of_leads shunning.element leads)

/-- Neither an element nor a further alternative comes next. -/
structure Ended (text : Text) : Prop extends Closed text where
  branch : grammar.Refuses (.text "/") text

theorem ended_of_leads (leads : Leads (Gap IsComment) [.single ')', .single ']'] text) :
    Ended text where
  toClosed := closed_of_leads (leads.mono (by simp [enders]))
  branch := refuses_of_leads shunning.slash (leads.mono (by simp))

/-- The name of the next rule is no element. -/
theorem ended_of_rule {name : Name} {words : List Text} {rest : Text}
    (stands : Stands (name.1 :: "=".toList :: words) text rest) : Ended text := by
  have leads := (opens_name name _).leads stands
  obtain ⟨run, middle, gap, rfl, loose, stands⟩ := Parted.cons_iff.mp stands
  obtain ⟨run', middle', gap', rfl, loose', -⟩ := Parted.cons_iff.mp stands
  have reference : grammar.Refuses (.reference "reference")
      (run ++ (name.1 ++ (run' ++ ("=".toList ++ middle')))) := by
    refine Grammar.refuses_reference reference_declared
      (Grammar.refuses_sequence (.tail (takes_name gap loose name) ?_))
    exact .head (Grammar.refuses_absent (takes_definedAs gap' loose'))
  have element := Grammar.refuses_reference element_declared (Grammar.refuses_ordered
    (List.forall_mem_cons.mpr ⟨reference, refuses_each shunning.afterReference leads⟩))
  have times := refuses_of_leads shunning.times (leads.mono (by simp [elementStarts]))
  exact ⟨⟨calm_of_leads (leads.mono (by simp [elementStarts])), refuses_repetition times element⟩,
    refuses_of_leads shunning.slash (leads.mono (by simp))⟩

end Ends

end Packrat.Notation.Abnf
