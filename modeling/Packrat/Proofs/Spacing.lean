import Packrat.Lexicon.Standard
import Packrat.Proofs.Skipping
import Packrat.Proofs.Yield
import Mathlib.Data.List.TakeWhile

/-! # Words and the blanks before them

`Spaced` says of a text that it consists of words, each after a run of white space. Where a
grammar ignores white space first and nothing that a word begins with, its terminals take the
words one by one, and what they leave begins with the run before the next word.
-/

namespace Packrat

namespace CharSet

theorem contains_blank (c : Char) : blank.contains c = CharClass.isBlank c := by
  have space : c = ' ' ↔ c.toNat = 32 :=
    ⟨fun same => same ▸ rfl, fun same => Char.toNat_inj.mp same⟩
  rw [Bool.eq_iff_iff]
  unfold CharClass.isBlank
  split
  · simp only [contains, blank, within, CharClass.blankRanges, Bool.and_eq_true, Bool.or_eq_true,
      decide_eq_true_eq, space]
    omega
  · simp only [contains, blank, within, CharClass.blankRanges, CharClass.inRanges, List.any_cons,
      List.any_nil, Bool.and_eq_true, Bool.or_eq_true, decide_eq_true_eq, Bool.false_eq_true,
      or_false]
    omega

theorem contains_complement_blank {c : Char} (solid : CharClass.isBlank c = false) :
    blank.complement.contains c = true := by
  have valid : c.toNat < 0xD800 ∨ 0xDFFF < c.toNat ∧ c.toNat < 0x110000 := c.valid
  have ranges : blank.complement.ranges =
      [(0, 8), (14, 31), (33, 132), (134, 159), (161, 5759), (5761, 8191), (8203, 8231),
       (8234, 8238), (8240, 8286), (8288, 12287), (12289, 1114111)] := by decide +kernel
  rw [← contains_blank] at solid
  simp only [contains, blank, within, CharClass.blankRanges, Bool.and_eq_false_iff,
    Bool.or_eq_false_iff, decide_eq_false_iff_not] at solid
  simp only [contains, ranges, within, Bool.and_eq_true, Bool.or_eq_true, decide_eq_true_eq]
  omega

end CharSet

/-- Blanks may stand before what a text begins with. -/
theorem Text.BeginsIn.after_blanks {sets : List CharSet} {run rest : Text}
    (blank : ∀ c ∈ run, CharClass.isBlank c = true) (among : .blank ∈ sets)
    (begins : rest.BeginsIn sets) : Text.BeginsIn sets (run ++ rest) := by
  cases run with
  | nil => exact begins
  | cons c run =>
    have here := blank c (List.mem_cons_self ..)
    exact .cons among ((CharSet.contains_blank c).trans here)

/-- The words stand in the text, each after a run of blanks and before what may follow a word, and
the rest comes after them. -/
inductive Spaced (joins : Text → Prop) : List Text → Text → Text → Prop where
  | nil {text} : Spaced joins [] text text
  | cons {run word words text rest} (blank : ∀ c ∈ run, CharClass.isBlank c = true)
      (joined : joins text) (more : Spaced joins words text rest) :
      Spaced joins (word :: words) (run ++ (word ++ text)) rest

/-- Spaced words are parted by runs of blanks. -/
theorem spaced_iff {joins : Text → Prop} {words : List Text} {text rest : Text} :
    Spaced joins words text rest ↔
      Parted (fun run => ∀ c ∈ run, CharClass.isBlank c = true) joins words text rest := by
  constructor
  · intro spaced
    induction spaced with
    | nil => exact .nil
    | cons blank joined _ ih => exact .cons blank joined ih
  · intro parted
    induction parted with
    | nil => exact .nil
    | cons blank joined _ ih => exact .cons blank joined ih

namespace Spaced

variable {joins : Text → Prop} {words words' : List Text} {text rest : Text}

theorem append_iff : Spaced joins (words ++ words') text rest ↔
    ∃ middle, Spaced joins words text middle ∧ Spaced joins words' middle rest := by
  simp only [spaced_iff]
  exact Parted.append_iff

theorem cons_iff {word : Text} : Spaced joins (word :: words) text rest ↔
    ∃ run middle, (∀ c ∈ run, CharClass.isBlank c = true) ∧ text = run ++ (word ++ middle) ∧
      joins middle ∧ Spaced joins words middle rest := by
  simp only [spaced_iff]
  exact Parted.cons_iff

/-- More blanks may stand before the first word. -/
theorem after {run word : Text} (blank : ∀ c ∈ run, CharClass.isBlank c = true)
    (spaced : Spaced joins (word :: words) text rest) :
    Spaced joins (word :: words) (run ++ text) rest := by
  obtain ⟨run', middle, blank', rfl, joined, more⟩ := cons_iff.mp spaced
  rw [← List.append_assoc]
  exact .cons (List.forall_mem_append.mpr ⟨blank, blank'⟩) joined more

theorem length_le (spaced : Spaced joins words text rest) : rest.length ≤ text.length :=
  (spaced_iff.mp spaced).length_le

theorem length_lt {word : Text} (filled : word ≠ [])
    (spaced : Spaced joins (word :: words) text rest) : rest.length < text.length :=
  (spaced_iff.mp spaced).length_lt filled

end Spaced

namespace LexRule

/-- The rule of a run of blanks. -/
def blanks : LexRule := .pattern (.of "\\s+" Pattern.wellFormed_blanks)

private theorem blanks_regex : (Pattern.of "\\s+" Pattern.wellFormed_blanks).regex =
    .seq (.look .textStart) (.repetition 1 none true (.chars .blank)) := by decide +kernel

/-- A run of blanks is taken as a whole. -/
theorem matchCount?_blanks {run rest : Text} (filled : run ≠ [])
    (blank : ∀ c ∈ run, CharClass.isBlank c = true)
    (solid : ∀ c ∈ rest.head?, CharClass.isBlank c = false) :
    blanks.matchCount? false (run ++ rest) = some run.length := by
  have steady : (Pattern.of "\\s+" Pattern.wellFormed_blanks).steady
      [CharSet.blank.complement] = true := by decide +kernel
  refine Pattern.matchCount?_of_spells steady ?_ fun c first =>
    ⟨_, List.mem_singleton_self _, CharSet.contains_complement_blank (solid c first)⟩
  have rounds : Regex.Spells (.repetition 1 none true (.chars .blank)) run :=
    .run (fun c member => (CharSet.contains_blank c).trans (blank c member))
      (List.length_pos_of_ne_nil filled)
  rw [blanks_regex]
  exact .seq .look rounds

/-- Nothing is taken before a character that is no blank. -/
theorem matchCount?_blanks_eq_none {c : Char} (solid : CharClass.isBlank c = false)
    (rest : Text) : blanks.matchCount? false (c :: rest) = none := by
  have begins : blanks.begins = some [.blank] := by decide +kernel
  have begins' : Text.BeginsIn [CharSet.blank.complement] (c :: rest) :=
    .cons (List.mem_singleton_self _) (CharSet.contains_complement_blank solid)
  exact matchCount?_eq_none begins begins' (by decide +kernel)

/-- What is taken are the blanks at the front of a text, if there are any. -/
theorem matchCount?_takeWhile {text : Text} (filled : text.takeWhile CharClass.isBlank ≠ []) :
    blanks.matchCount? false text = some (text.takeWhile CharClass.isBlank).length := by
  have solid : ∀ c ∈ (text.dropWhile CharClass.isBlank).head?, CharClass.isBlank c = false := by
    intro c head
    have stops := List.head?_dropWhile_not CharClass.isBlank text
    rw [head] at stops
    simpa using stops
  have counted := matchCount?_blanks filled (fun c => List.mem_takeWhile_imp) solid
  rwa [List.takeWhile_append_dropWhile] at counted

/-- What the rule of blanks takes is blank. -/
theorem blank_of_matchCount? {text : Text} {count : Nat}
    (counted : blanks.matchCount? false text = some count) :
    ∀ c ∈ text.take count, CharClass.isBlank c = true := by
  obtain ⟨word, rest, rfl, rfl, spells⟩ :=
    Pattern.spells_of_matchCount? (by decide +kernel) (by decide +kernel) counted
  rw [blanks_regex] at spells
  rw [List.take_left]
  intro c member
  cases spells with
  | seq front back =>
    cases front
    cases back with
    | repetition enough bounded rounds =>
      obtain ⟨word, among, member⟩ := List.mem_flatten.mp member
      cases rounds word among with
      | chars belongs =>
        rw [List.mem_singleton.mp member, ← CharSet.contains_blank]
        exact belongs

end LexRule

section Skip

variable {ignore others : List LexRule} (first : ignore = .blanks :: others) {run text : Text}
  (clear : Clear ignore text)

include first clear

private theorem head_solid : ∀ c ∈ text.head?, CharClass.isBlank c = false := by
  intro c head
  refine Bool.eq_false_iff.mpr fun blank => ?_
  obtain ⟨rest, rfl⟩ := List.head?_eq_some_iff.mp head
  have counted := @LexRule.matchCount?_takeWhile (c :: rest) (by simp [blank])
  rw [clear .blanks (by simp [first])] at counted
  cases counted

/-- What is skipped before a clear text is the run of blanks. -/
theorem skips_of_blank (blank : ∀ c ∈ run, CharClass.isBlank c = true) :
    Skips ignore run text := by
  cases run with
  | nil => exact .of_clear clear
  | cons c run =>
    have here : LexRule.blanks.matchCount? false (c :: run ++ ([] ++ text)) =
        some (c :: run).length :=
      LexRule.matchCount?_blanks nofun blank (head_solid first clear)
    have ignored : ignoredCount? ignore (c :: run ++ ([] ++ text)) = some (c :: run).length := by
      rw [ignoredCount?, first, List.findSome?_cons, here]
      rfl
    have skips := Skips.after_piece (List.cons_ne_nil c run) ignored (.of_clear clear)
    rwa [List.append_nil] at skips

end Skip

private theorem blank_of_skipCount {text : Text} {pending : Nat}
    (known : ∀ c ∈ text.take pending, CharClass.isBlank c = true) :
    ∀ c ∈ text.take (skipCount [.blanks] pending text), CharClass.isBlank c = true := by
  induction text generalizing pending with
  | nil => simp
  | cons c text ih =>
    cases pending with
    | succ pending =>
      obtain ⟨here, rest⟩ := List.forall_mem_cons.mp known
      exact List.forall_mem_cons.mpr ⟨here, ih rest⟩
    | zero =>
      unfold skipCount
      split
      · rename_i count ignored
        have taken : LexRule.blanks.matchCount? false (c :: text) = some (count + 1) := by
          simpa [ignoredCount?] using ignored
        obtain ⟨here, rest⟩ := List.forall_mem_cons.mp (LexRule.blank_of_matchCount? taken)
        exact List.forall_mem_cons.mpr ⟨here, ih rest⟩
      · simp

/-- Where only white space is ignored, what is skipped is a run of blanks. -/
theorem Cursor.rest_eq_skip (cursor : Cursor) : ∃ run, (∀ c ∈ run, CharClass.isBlank c = true) ∧
    cursor.rest = run ++ (cursor.skip [.blanks]).rest := by
  refine ⟨cursor.rest.take (skipCount [.blanks] 0 cursor.rest), ?_, ?_⟩
  · exact blank_of_skipCount nofun
  · rw [Cursor.skip, Cursor.rest_forward, List.take_append_drop]

/-- Where only white space is ignored, words that lie between two cursors are spaced. -/
theorem Lies.spaced {words : List Text} {cursor next : Cursor}
    (lies : Lies [.blanks] words cursor next) :
    Spaced (fun _ => True) words cursor.rest next.rest := by
  induction lies with
  | nil => exact .nil
  | @cons cursor count words next _ ih =>
    obtain ⟨run, blank, left⟩ := cursor.rest_eq_skip
    have split : cursor.rest = run ++ ((cursor.skip [.blanks]).rest.take count ++
        ((cursor.skip [.blanks]).forward count).rest) := by
      rw [left, Cursor.rest_forward, List.take_append_drop]
    rw [split]
    exact .cons blank trivial ih

namespace Grammar

variable {grammar : Grammar} {others : List LexRule} (first : grammar.ignore = .blanks :: others)

section Terminal

variable {leaf : Terminal} {name : String} {rule : LexRule} {caseless : Bool}
  (lexical : leaf.lexical? grammar.lexicon = some (name, rule, caseless))
  {run word text rest : Text} (blank : ∀ c ∈ run, CharClass.isBlank c = true)

include first lexical blank

/-- A terminal takes the next word if its lexical rule does. -/
theorem takes_terminal {holds : Tree → Prop} (clear : Clear grammar.ignore (word ++ rest))
    (filled : word ≠ []) (counted : rule.matchCount? caseless (word ++ rest) = some word.length)
    (tree : ∀ offset, holds (.token ⟨.rule name, word, offset⟩)) :
    grammar.Takes (.terminal leaf) (run ++ (word ++ rest)) rest holds :=
  Skips.takes_terminal lexical (skips_of_blank first clear blank) filled
    counted tree

/-- A terminal refuses a text from which its lexical rule takes nothing. -/
theorem refuses_terminal (clear : Clear grammar.ignore text)
    (none : rule.matchCount? caseless text = none) :
    grammar.Refuses (.terminal leaf) (run ++ text) :=
  Skips.refuses_terminal lexical (skips_of_blank first clear blank)
    (.inr none)

end Terminal

variable {run word text rest : Text} (blank : ∀ c ∈ run, CharClass.isBlank c = true)

include first blank

/-- A rule refuses a text that begins with a character of none of its sets. -/
theorem refuses_of_shuns {rank : String → Nat} (ranked : grammar.Ranked rank) {depth : Nat}
    {rule : Rule} {sets : List CharSet} (shunned : grammar.shuns depth rule sets = true)
    (begins : text.BeginsIn sets) : grammar.Refuses rule (run ++ text) := by
  have skips := skips_of_blank first (clear_of_shuns shunned begins) blank
  exact skips.refuses_of_shuns ranked shunned begins

/-- A literal takes itself. -/
theorem takes_text {mark : String} {c : Char} {others : Text} (chars : mark.toList = c :: others)
    (avoided : avoids grammar.ignore [.single c] = true) :
    grammar.Takes (.text mark) (run ++ (mark.toList ++ rest)) rest fun tree =>
      ∃ offset, tree = .token ⟨.rule mark, mark.toList, offset⟩ := by
  have clear : Clear grammar.ignore (mark.toList ++ rest) := by
    refine clear_of_avoids avoided ?_
    rw [chars]
    exact .single (List.mem_singleton_self _)
  exact (skips_of_blank first clear blank).takes_text (by simp [chars])

/-- A literal refuses a text that does not begin with it. -/
theorem refuses_text {mark : String} (clear : Clear grammar.ignore text)
    (differs : ¬ mark.toList <+: text) : grammar.Refuses (.text mark) (run ++ text) :=
  (skips_of_blank first clear blank).refuses_text differs

/-- A token of a steady pattern takes a word of the pattern. -/
theorem takes_token {name : String} {pattern : Pattern} {follow : List CharSet}
    (declared : grammar.lexicon.find? name = some (.pattern pattern))
    (steady : pattern.steady follow = true) (solid : pattern.regex.nullable = false)
    (avoided : avoids grammar.ignore pattern.regex.begins = true)
    (spells : pattern.regex.Spells word) (follows : rest.BeginsIn follow) :
    grammar.Takes (.token name) (run ++ (word ++ rest)) rest fun tree =>
      ∃ offset, tree = .token ⟨.rule name, word, offset⟩ :=
  Skips.takes_spelled (fun _ clear => skips_of_blank first clear blank) declared steady solid
    avoided spells follows

end Grammar

/-- A text is parsed if its production takes it up to a run of blanks. -/
theorem Parser.parseAll_of_takes {parser : Parser} {others : List LexRule}
    (first : parser.grammar.ignore = .blanks :: others)
    (avoided : avoids parser.grammar.ignore [] = true) {production : String} {text rest : Text}
    {holds : Tree → Prop}
    (takes : parser.grammar.Takes (.reference production) text rest holds)
    (blank : ∀ c ∈ rest, CharClass.isBlank c = true) :
    ∃ tree, parser.parseAll production text = .ok tree ∧ holds (.named production tree) :=
  (skips_of_blank first (clear_of_avoids avoided .nil) blank).parseAll takes

end Packrat
