import Packrat.Proofs.Ebnf.Written
import Packrat.Proofs.Notation.Agreement
import Mathlib.Tactic.MkIffOfInductiveProp

/-! # Tokens of written extended Backus-Naur form

Which words the terminals of the notation's grammar take after white space and comments, and
before which marks its rules do not match. The bracket of a group is never read as the beginning
of a comment, because what comes after it is white space or a comment.
-/

namespace Packrat.Notation.Ebnf

open Peg (Quote)

/-- The grammar of the notation. -/
abbrev grammar : Grammar := ebnf.parser.grammar

section Patterns

/-- The pattern of names. -/
def namePattern : Pattern := .of "[A-Za-z][A-Za-z0-9_\\-]*" Pattern.wellFormed_hyphenated

/-- The pattern of terminals. -/
def terminalPattern : Pattern := .of "\"[^\"]+\"|'[^']+'" wellFormed_terminal

/-- The pattern of comments. -/
def commentPattern : Pattern := .of "(?s)\\(\\*.*?\\*\\)" wellFormed_comment

theorem ignored : grammar.ignore = [.blanks, .pattern commentPattern] := rfl

/-- Every name is a word of the pattern of names. -/
theorem spells_name (name : Name) : namePattern.regex.Spells name.1 := by
  have regex : namePattern.regex = .seq (.look .textStart) (.seq (.chars letters)
      (.repetition 0 none true
        (.chars ⟨[(45, 45), (48, 57), (65, 90), (95, 95), (97, 122)]⟩))) := by decide +kernel
  rw [regex]
  refine name.spells fun c inside => ?_
  simp only [isNameChar, isLetter, CharClass.isAsciiUpper, CharClass.isAsciiLower,
    CharClass.isAsciiDigit, List.contains_eq_mem, List.mem_cons, List.not_mem_nil, or_false,
    Bool.or_eq_true, Bool.and_eq_true, decide_eq_true_eq, toNat_le_iff, ← Char.toNat_inj,
    Char.reduceToNat] at inside
  simp only [CharSet.contains, CharSet.within, Bool.and_eq_true, Bool.or_eq_true,
    decide_eq_true_eq, Bool.false_eq_true, or_false]
  omega

/-- Every written terminal is a word of the pattern of terminals. -/
theorem spells_terminal {quote : Quote} {text : Text} (filled : text ≠ [])
    (plain : quote.mark ∉ text) : terminalPattern.regex.Spells (enclose quote text) := by
  let enclosed (quote : Quote) : Regex := .seq (.literal [quote.mark])
    (.seq (.repetition 1 none true (.chars (others quote.mark))) (.literal [quote.mark]))
  have regex : terminalPattern.regex =
      .seq (.look .textStart) (.alt (enclosed .double) (enclosed .single)) := by decide +kernel
  have positive : 0 < quote.mark.toNat := by cases quote <;> decide
  have run : Regex.Spells (.repetition 1 none true (.chars (others quote.mark))) text :=
    .run (fun c member => contains_others (fun same => plain (same ▸ member)) positive)
      (List.length_pos_of_ne_nil filled)
  have here : (enclosed quote).Spells (enclose quote text) :=
    @Regex.Spells.seq _ _ [quote.mark] _ .literal (.seq run .literal)
  rw [regex]
  cases quote with
  | single => exact .seq .look (.other here)
  | double => exact .seq .look (.preferred here)

private theorem comment_regex : commentPattern.regex =
    .seq (.look .textStart) (.seq (.literal ['(', '*'])
      (.seq (.repetition 0 none false (.chars .all)) (.literal ['*', ')']))) := by
  decide +kernel

/-- The mark of the end of a comment does not stand before its end. -/
private theorem not_prefix_of_closed {body : Text} (closed : ¬ ['*', ')'] <:+: body) {c : Char}
    {back rest : Text} (tail : c :: back <:+ body) :
    ¬ ['*', ')'] <+: c :: back ++ (['*', ')'] ++ rest) := by
  rintro ⟨suffix, same⟩
  cases back with
  | nil => cases same
  | cons d back =>
    simp only [List.cons_append, List.nil_append, List.cons.injEq] at same
    obtain ⟨rfl, rfl, -⟩ := same
    have inside : ['*', ')'] <:+: '*' :: ')' :: back := ⟨[], back, rfl⟩
    exact closed (inside.trans tail.isInfix)

/-- A comment is taken as a whole. -/
theorem matchCount?_comment {piece : Text} (comment : IsComment piece) (rest : Text) :
    commentPattern.matchCount? (piece ++ rest) = some piece.length := by
  obtain ⟨body, rfl, closed⟩ := comment
  have late (c : Char) (back : Text) (tail : c :: back <:+ body) (place : Place)
      (after : place.after = c :: back ++ (['*', ')'] ++ rest)) :
      (Regex.literal ['*', ')']).ends place = [] :=
    Regex.literalEnds_eq_nil (after ▸ not_prefix_of_closed closed tail)
  refine Pattern.matchCount?_of_prefers comment_regex (by decide) fun place after => ?_
  have opened : place.after = ['(', '*'] ++ (body ++ (['*', ')'] ++ rest)) := by
    simpa using after
  exact (Regex.Prefers.literal opened).bind fun next after =>
    .lazily (fun c _ => CharSet.contains_all c) late (fun place after => .literal after) after

end Patterns

section Productions

theorem grammar_declared :
    grammar.productions.find? "grammar" = some (.zeroOrMore (.reference "rule")) :=
  (Table.find?_ofList _ _).trans rfl

theorem rule_declared : grammar.productions.find? "rule" = some (.sequence
    [.token "meta-identifier", .text "=", .reference "alternation",
      .choice [.text ";", .text "."]]) :=
  (Table.find?_ofList _ _).trans rfl

theorem alternation_declared : grammar.productions.find? "alternation" = some (.sequence
    [.reference "concatenation", .zeroOrMore (.sequence [.text "|", .reference "concatenation"])]) :=
  (Table.find?_ofList _ _).trans rfl

theorem concatenation_declared : grammar.productions.find? "concatenation" = some (.sequence
    [.reference "factor", .zeroOrMore (.sequence [.text ",", .reference "factor"])]) :=
  (Table.find?_ofList _ _).trans rfl

/-- The forms of a factor, of which one matches at the most. -/
def forms : List Rule :=
  [.reference "reference", .reference "terminal", .reference "option", .reference "repeat",
    .reference "group"]

theorem factor_declared : grammar.productions.find? "factor" = some (.choice forms) :=
  (Table.find?_ofList _ _).trans rfl

theorem reference_declared :
    grammar.productions.find? "reference" = some (.token "meta-identifier") :=
  (Table.find?_ofList _ _).trans rfl

theorem terminal_declared : grammar.productions.find? "terminal" = some (.token "terminal") :=
  (Table.find?_ofList _ _).trans rfl

theorem option_declared : grammar.productions.find? "option" = some (.sequence
    [.text "[", .reference "alternation", .text "]"]) :=
  (Table.find?_ofList _ _).trans rfl

theorem repeat_declared : grammar.productions.find? "repeat" = some (.sequence
    [.text "\x7b", .reference "alternation", .text "\x7d"]) :=
  (Table.find?_ofList _ _).trans rfl

theorem group_declared : grammar.productions.find? "group" = some (.sequence
    [.text "(", .reference "alternation", .text ")"]) :=
  (Table.find?_ofList _ _).trans rfl

end Productions

section Tokens

variable {run text rest : Text}

/-- A gap before a clear text is skipped. -/
theorem skips_gap (clear : Clear grammar.ignore text) (gap : Gap IsComment run) :
    Skips grammar.ignore run text := by
  refine Skips.of_gap rfl clear (fun piece run comment skips => ?_) gap
  have counted := matchCount?_comment comment (run ++ text)
  obtain ⟨body, rfl, -⟩ := comment
  exact Skips.after_comment ignored (by decide) counted skips

/-- A word is before the end, white space or a comment. -/
theorem beginsIn_of_loose (loose : Loose (Gap IsComment) rest) :
    rest.BeginsIn [.blank, .single '('] := by
  refine loose.beginsIn ?_
  rintro _ ⟨body, rfl, -⟩
  rfl

/-- The marks of the notation. -/
def marks : Text := "=,|;.[]()\x7b\x7d".toList

private theorem marks_avoided :
    (marks.all fun c => c = '(' || avoids grammar.ignore [.single c]) = true := by decide +kernel

/-- An opening bracket before white space or a comment does not begin a comment. -/
private theorem clear_open (loose : Loose (Gap IsComment) rest) :
    Clear grammar.ignore ('(' :: rest) := by
  intro rule member
  rw [ignored] at member
  rcases List.mem_cons.mp member with rfl | member
  · exact LexRule.matchCount?_blanks_eq_none (by decide) rest
  obtain rfl := List.mem_singleton.mp member
  refine Option.eq_none_iff_forall_ne_some.mpr fun count counted => ?_
  obtain ⟨word, after, same, -, spells⟩ :=
    Pattern.spells_of_matchCount? (by decide +kernel) (by decide +kernel) counted
  rw [comment_regex] at spells
  cases spells with
  | seq start spells =>
    cases start
    cases spells with
    | seq opened spells =>
      cases opened
      obtain ⟨-, rfl⟩ := List.cons.inj same
      obtain ⟨set, member, belongs⟩ := beginsIn_of_loose loose '*' rfl
      revert set
      decide

/-- Nothing of a mark is skipped. -/
theorem clear_mark {c : Char} (known : c ∈ marks) (loose : Loose (Gap IsComment) rest) :
    Clear grammar.ignore (c :: rest) := by
  have checked := List.all_eq_true.mp marks_avoided c known
  simp only [Bool.or_eq_true, decide_eq_true_eq] at checked
  rcases checked with rfl | avoided
  · exact clear_open loose
  · exact clear_of_avoids avoided (.single (List.mem_singleton_self _))

section Words

variable (gap : Gap IsComment run) (loose : Loose (Gap IsComment) rest)

include gap loose

theorem takes_mark {mark : String} {c : Char} (chars : mark.toList = [c]) (known : c ∈ marks) :
    grammar.Takes (.text mark) (run ++ (mark.toList ++ rest)) rest fun tree =>
      ∃ offset, tree = .token ⟨.rule mark, mark.toList, offset⟩ := by
  have clear : Clear grammar.ignore (mark.toList ++ rest) := by
    rw [chars]
    exact clear_mark known loose
  exact (skips_gap clear gap).takes_text (by simp [chars])

theorem takes_name (name : Name) :
    grammar.Takes (.token "meta-identifier") (run ++ (name.1 ++ rest)) rest fun tree =>
      ∃ offset, tree = .token ⟨.rule "meta-identifier", name.1, offset⟩ := by
  have declared : grammar.lexicon.find? "meta-identifier" = some (.pattern namePattern) :=
    (Table.find?_insertAll _ _ _).trans rfl
  exact Skips.takes_spelled (fun _ clear => skips_gap clear gap) declared (by decide +kernel)
    (by decide +kernel) (by decide +kernel) (spells_name name) (beginsIn_of_loose loose)

theorem takes_terminal {quote : Quote} (filled : text ≠ []) (plain : quote.mark ∉ text) :
    grammar.Takes (.token "terminal") (run ++ (enclose quote text ++ rest)) rest fun tree =>
      ∃ offset, tree = .token ⟨.rule "terminal", enclose quote text, offset⟩ := by
  have declared : grammar.lexicon.find? "terminal" = some (.pattern terminalPattern) :=
    (Table.find?_insertAll _ _ _).trans rfl
  exact Skips.takes_spelled (fun _ clear => skips_gap clear gap) declared (by decide +kernel)
    (by decide +kernel) (by decide +kernel) (spells_terminal filled plain)
    (beginsIn_of_loose loose)

end Words

end Tokens

section Marks

/-- A rule does not match before characters that it does not begin with. -/
theorem refuses_of_leads {rule : Rule} {sets : List CharSet} {text : Text}
    (shunned : grammar.shuns 2 rule sets = true) (leads : Leads (Gap IsComment) sets text) :
    grammar.Refuses rule text := by
  obtain ⟨rank, ranked⟩ := ebnf_agrees.tame.ranked
  obtain ⟨run, rest, gap, rfl, begins⟩ := leads
  have clear := Grammar.clear_of_shuns shunned begins
  exact (skips_gap clear gap).refuses_of_shuns ranked shunned begins

/-- The marks at the end of an alternation. -/
def closers : List CharSet :=
  [.single ']', .single '\x7d', .single ')', .single ';', .single '.']

/-- Marks with which the rules of the notation do not begin. -/
@[mk_iff]
structure Shunning : Prop where
  factor : grammar.shuns 2 (.sequence [.text ",", .reference "factor"])
    (.single '|' :: closers) = true
  branch : grammar.shuns 2 (.sequence [.text "|", .reference "concatenation"]) closers = true
  rule : grammar.shuns 2 (.reference "rule") [] = true

theorem shunning : Shunning := by
  rw [shunning_iff]
  decide +kernel

end Marks

end Packrat.Notation.Ebnf
