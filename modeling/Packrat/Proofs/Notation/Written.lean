import Packrat.Notation.Basic
import Packrat.Notation.Shape
import Packrat.Proofs.Peg.Literal
import Mathlib.Data.List.Forall2

/-! # Parts of written grammars

What the notations have in common when they are written: names that begin with a letter, lists of
rules with a mark between any two, of which a single one stands for itself, and productions that
are declared one by one.
-/

namespace Packrat.Notation

open Peg (oneOr)

section Names

/-- The letters with which a name begins. -/
def isLetter (c : Char) : Bool := CharClass.isAsciiUpper c || CharClass.isAsciiLower c

/-- The characters of a name after the first, of which some are marks. -/
def isNameChar (marks : List Char) (c : Char) : Bool :=
  isLetter c || CharClass.isAsciiDigit c || marks.contains c

/-- Whether a text is a letter and letters, digits or marks after it. -/
def isName (marks : List Char) : Text → Bool
  | [] => false
  | c :: rest => isLetter c && rest.all (isNameChar marks)

/-- Names with the given marks. -/
abbrev Name (marks : List Char) : Type := { text : Text // isName marks text = true }

namespace Name

variable {marks : List Char}

/-- The name as a string. -/
def string (name : Name marks) : String := String.ofList name.1

theorem eq_cons (name : Name marks) :
    ∃ c rest, name.1 = c :: rest ∧ isLetter c = true ∧ rest.all (isNameChar marks) = true := by
  obtain ⟨text, named⟩ := name
  cases text with
  | nil => cases named
  | cons c rest => exact ⟨c, rest, rfl, Bool.and_eq_true_iff.mp named⟩

theorem ne_nil (name : Name marks) : name.1 ≠ [] := by
  obtain ⟨c, rest, same, -⟩ := name.eq_cons
  rw [same]
  exact List.cons_ne_nil c rest

theorem string_ne_empty (name : Name marks) : name.string ≠ "" := by
  obtain ⟨c, rest, same, -⟩ := name.eq_cons
  rw [string, same]
  simp

theorem string_injective {name other : Name marks} (same : name.string = other.string) :
    name = other :=
  Subtype.ext (String.ofList_injective same)

/-- Distinct names are distinct strings. -/
theorem nodup_strings {Definition : Type} {name : Definition → Name marks}
    {definitions : List Definition} (distinct : (definitions.map name).Nodup) :
    (definitions.map fun definition => (name definition).string).Nodup := by
  have strings := distinct.map (f := string) fun _ _ same => string_injective same
  rwa [List.map_map] at strings

theorem reference? (name : Name marks) :
    Rule.reference? name.string = .ok (.reference name.string) :=
  if_neg name.string_ne_empty

end Name

/-- The characters but one. -/
def others (c : Char) : CharSet := ⟨[(0, c.toNat - 1), (c.toNat + 1, 0x10FFFF)]⟩

theorem contains_others {c d : Char} (differs : d ≠ c) (positive : 0 < c.toNat) :
    (others c).contains d = true := by
  have valid : d.toNat < 0xD800 ∨ 0xDFFF < d.toNat ∧ d.toNat < 0x110000 := d.valid
  have apart : d.toNat ≠ c.toNat := fun same => differs (Char.toNat_inj.mp same)
  simp only [others, CharSet.contains, CharSet.within, Bool.and_eq_true, Bool.or_eq_true,
    decide_eq_true_eq, Bool.false_eq_true, or_false]
  omega

/-- The letters. -/
def letters : CharSet := ⟨[(65, 90), (97, 122)]⟩

theorem toNat_le_iff {c d : Char} : c ≤ d ↔ c.toNat ≤ d.toNat := by
  rw [Char.le_def, UInt32.le_iff_toNat_le]
  rfl

theorem contains_letters {c : Char} (letter : isLetter c = true) : letters.contains c = true := by
  simp only [isLetter, CharClass.isAsciiUpper, CharClass.isAsciiLower, Bool.or_eq_true,
    Bool.and_eq_true, decide_eq_true_eq, toNat_le_iff, Char.reduceToNat] at letter
  simp only [letters, CharSet.contains, CharSet.within, Bool.and_eq_true, Bool.or_eq_true,
    decide_eq_true_eq, Bool.false_eq_true, or_false]
  omega

/-- A name is a letter and a run of the characters that may follow. -/
theorem Name.spells {marks : List Char} (name : Name marks) {set : CharSet}
    (inside : ∀ c, isNameChar marks c = true → set.contains c = true) :
    Regex.Spells (.seq (.look .textStart) (.seq (.chars letters)
      (.repetition 0 none true (.chars set)))) name.1 := by
  obtain ⟨c, rest, same, letter, others⟩ := name.eq_cons
  have run : Regex.Spells (.repetition 0 none true (.chars set)) rest :=
    .run (fun d member => inside d (List.all_eq_true.mp others d member)) (Nat.zero_le _)
  rw [same]
  exact .seq .look (.seq (.chars (contains_letters letter)) run)

end Names

section Lists

variable {rules : List Rule}

private theorem operands_of_ok (kind : String) (many : 2 ≤ rules.length) :
    Rule.operands kind (rules.map .ok) = .ok rules := by
  have all : ∀ rules : List Rule,
      (rules.map (.ok : Rule → Except Error Rule)).mapM id = .ok rules := by
    intro rules
    induction rules with
    | nil => rfl
    | cons rule rules ih =>
      rw [List.map_cons, List.mapM_cons, ih]
      rfl
  rw [Rule.operands, all]
  exact if_neg (Nat.not_lt.mpr many)

/-- Rules one after the other are put together, a single one standing for itself. -/
theorem concatenation_eq (some : rules ≠ []) :
    Rule.concatenation rules = .ok (oneOr .sequence rules) := by
  match rules with
  | [rule] => rfl
  | first :: second :: more =>
    have many := @operands_of_ok (first :: second :: more) "sequence" (by simp)
    rw [Rule.concatenation, Rule.sequence?, many]
    · rfl
    · exact nofun

/-- Alternatives are put together, a single one standing for itself. -/
theorem alternatives_eq (ordered : Bool) (some : rules ≠ []) :
    Rule.alternatives ordered rules =
      .ok (oneOr (if ordered then .ordered else .choice) rules) := by
  match rules with
  | [rule] => rfl
  | first :: second :: more =>
    cases ordered with
    | true =>
      have many := @operands_of_ok (first :: second :: more) "ordered choice" (by simp)
      rw [Rule.alternatives, if_pos rfl, Rule.ordered?, many]
      · rfl
      · exact nofun
    | false =>
      have many := @operands_of_ok (first :: second :: more) "choice" (by simp)
      rw [Rule.alternatives, if_neg (by decide), Rule.choice?, many]
      · rfl
      · exact nofun

end Lists

section Separated

variable {grammar : Grammar} {item : Rule} {mark : String} {fold : Tree → Except Error Rule}
  {rule : Rule} {text middle rest : Text}

/-- The tree of a mark and the item after it folds into a rule. -/
def FoldsItem (fold : Tree → Except Error Rule) (rule : Rule) (tree : Tree) : Prop :=
  ∃ mark node, tree = .array [mark, node] ∧ fold node = .ok rule

theorem takes_further {holds : Tree → Prop} (marked : grammar.Takes (.text mark) text middle holds)
    (takes : grammar.Takes item middle rest fun tree => fold tree = .ok rule) :
    grammar.Takes (.sequence [.text mark, item]) text rest (FoldsItem fold rule) := by
  refine Grammar.takes_sequence (.cons marked fun mark _ => ?_)
  exact .cons takes fun node folded => .nil ⟨mark, node, rfl, folded⟩

/-- Items with a mark between any two are taken as the first and those after it. -/
theorem takes_separated {holds : Tree → Prop} {all : List Tree → Prop}
    (takes : grammar.Takes item text middle holds)
    (rounds : grammar.TakesRounds (.sequence [.text mark, item]) middle rest all) :
    grammar.Takes (.sequence [item, .zeroOrMore (.sequence [.text mark, item])]) text rest
      fun tree => ∃ node nodes, tree = .array [node, .array nodes] ∧ holds node ∧ all nodes := by
  refine Grammar.takes_sequence (.cons takes fun node here => ?_)
  have repeated : grammar.Takes (.zeroOrMore (.sequence [.text mark, item])) middle rest
      fun tree => ∃ nodes, tree = .array nodes ∧ all nodes :=
    Grammar.takes_repetition (rounds.mono fun nodes there => ⟨Nat.zero_le _, nodes, rfl, there⟩)
  refine .cons repeated ?_
  rintro _ ⟨nodes, rfl, there⟩
  exact .nil ⟨node, nodes, rfl, here, there⟩

end Separated

section Declarations

variable {State Node Definition Value : Type} {name : Definition → String}
  {definitions : List Definition} {nodes : List Node}

/-- Where every node gives a name of its own a value, each name has its value in the end, and the
others keep theirs. -/
theorem foldlM_inserts {table : State → Table Value} {value : Definition → Value}
    {fold : State → Node → Except Error State}
    (inserts : List.Forall₂ (fun definition node => ∀ state,
      (table state).find? (name definition) = none → ∃ state', fold state node = .ok state' ∧
        table state' = (table state).insert (name definition) (value definition))
      definitions nodes)
    (distinct : (definitions.map name).Nodup) (state : State)
    (fresh : ∀ definition ∈ definitions, (table state).find? (name definition) = none) :
    ∃ state', nodes.foldlM fold state = .ok state' ∧ ∀ key found,
      (table state').find? key = some found ↔
        (∃ definition ∈ definitions, name definition = key ∧ value definition = found) ∨
        (table state).find? key = some found := by
  induction inserts generalizing state with
  | nil => exact ⟨state, rfl, fun key found => by simp⟩
  | @cons definition node definitions nodes here _ ih =>
    obtain ⟨apart, distinct⟩ := List.nodup_cons.mp distinct
    obtain ⟨unknown, fresh⟩ := List.forall_mem_cons.mp fresh
    obtain ⟨middle, stepped, inserted⟩ := here state unknown
    have fresh' : ∀ other ∈ definitions, (table middle).find? (name other) = none := by
      intro other member
      have different : name definition ≠ name other :=
        fun same => apart (same ▸ List.mem_map_of_mem member)
      rw [inserted, Table.find?_insert, if_neg different]
      exact fresh other member
    obtain ⟨state', folded, held⟩ := ih distinct middle fresh'
    refine ⟨state', ?_, fun key found => ?_⟩
    · rw [List.foldlM_cons, stepped]
      exact folded
    · rw [held key found, inserted, Table.find?_insert]
      by_cases same : name definition = key
      · subst same
        simp [unknown, or_comm]
      · simp [same]

/-- Definitions with distinct names are all declared, each under its name. -/
theorem foldlM_declares {rule : Definition → Rule}
    {fold : Specification → Node → Except Error Specification}
    (declares : List.Forall₂ (fun definition node => ∀ spec, fold spec node =
      spec.production (name definition) (.ok (rule definition))) definitions nodes)
    (named : ∀ definition ∈ definitions, name definition ≠ "")
    (distinct : (definitions.map name).Nodup) (spec : Specification)
    (fresh : ∀ definition ∈ definitions, spec.productions.find? (name definition) = none) :
    ∃ spec', nodes.foldlM fold spec = .ok spec' ∧ ∀ key value,
      spec'.productions.find? key = some value ↔
        (∃ definition ∈ definitions, name definition = key ∧ rule definition = value) ∨
        spec.productions.find? key = some value := by
  refine foldlM_inserts ?_ distinct spec fresh
  have filled := (List.forall₂_and_left _ _).mpr ⟨named, declares⟩
  refine filled.imp fun definition node ⟨named, here⟩ spec unknown => ?_
  refine ⟨{ spec with
    productions := spec.productions.insert (name definition) (rule definition) }, ?_, rfl⟩
  rw [here spec, Specification.production, if_neg named, Table.contains, unknown]
  rfl

/-- A grammar whose tree folds definitions with distinct names compiles, and its productions are
those that are declared. -/
theorem compile_of_declares (language : Notation)
    (fold : Specification → Node → Except Error Specification) {text : Text} {tree : Tree}
    {rule : Definition → Rule}
    (parsed : language.parser.parseAll language.grammarProduction text = .ok tree)
    (folds : language.foldGrammar tree = nodes.foldlM fold .empty)
    (declares : List.Forall₂ (fun definition node => ∀ spec, fold spec node =
      spec.production (name definition) (.ok (rule definition))) definitions nodes)
    (named : ∀ definition ∈ definitions, name definition ≠ "")
    (distinct : (definitions.map name).Nodup) (ignore : List LexRule) :
    ∃ parser, language.compile text ignore = .ok parser ∧ ∀ key value,
      parser.grammar.productions.find? key = some value ↔
        ∃ definition ∈ definitions, name definition = key ∧ rule definition = value := by
  obtain ⟨spec, folded, found⟩ := foldlM_declares declares named distinct .empty
    fun definition _ => Table.find?_empty _
  have read : language.read text = .ok spec := by
    rw [Notation.read, parsed]
    exact folds.trans folded
  refine ⟨(spec.ignoringAll ignore).parser, ?_, fun key value => (found key value).trans ?_⟩
  · rw [Notation.compile, read]
    rfl
  · simp [Specification.empty]

end Declarations

end Packrat.Notation
