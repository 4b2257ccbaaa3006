import Packrat.Proofs.Notation.Agreement
import Packrat.Proofs.Wsn.Written
import Mathlib.Tactic.MkIffOfInductiveProp

/-! # Tokens of written Wirth syntax notation

Which words the terminals of the notation's grammar take after white space, and before which marks
its rules do not match. The pattern of literals goes on over every pair of quotes, so it stops at
the quote that white space follows, and reading pairs of quotes back gives the text of the literal.
-/

namespace Packrat.Notation.Wsn

/-- The grammar of the notation. -/
abbrev grammar : Grammar := wsn.parser.grammar

theorem ignored : grammar.ignore = [.blanks] := rfl

section Patterns

/-- The pattern of names. -/
def namePattern : Pattern := .of "[A-Za-z][A-Za-z0-9_]*" wellFormed_identifier

/-- The pattern of literals. -/
def literalPattern : Pattern := .of "\"(?:[^\"]|\"\")+\"" wellFormed_literal

/-- Every name is a word of the pattern of names. -/
theorem spells_name (name : Name) : namePattern.regex.Spells name.1 := by
  have regex : namePattern.regex = .seq (.look .textStart) (.seq (.chars letters)
      (.repetition 0 none true
        (.chars ⟨[(48, 57), (65, 90), (95, 95), (97, 122)]⟩))) := by decide +kernel
  rw [regex]
  refine name.spells fun c inside => ?_
  simp only [isNameChar, isLetter, CharClass.isAsciiUpper, CharClass.isAsciiLower,
    CharClass.isAsciiDigit, List.contains_eq_mem, List.mem_cons, List.not_mem_nil, or_false,
    Bool.or_eq_true, Bool.and_eq_true, decide_eq_true_eq, toNat_le_iff, ← Char.toNat_inj,
    Char.reduceToNat] at inside
  simp only [CharSet.contains, CharSet.within, Bool.and_eq_true, Bool.or_eq_true,
    decide_eq_true_eq, Bool.false_eq_true, or_false]
  omega

/-- What stands for one character of a literal: the character, or two quotes. -/
private def piece : Regex := .alt (.chars (others '"')) (.literal ['"', '"'])

private theorem literal_regex : literalPattern.regex =
    .seq (.look .textStart) (.seq (.literal ['"'])
      (.seq (.repetition 1 none true piece) (.literal ['"']))) := by decide +kernel

/-- The pieces of a literal of a text, one for every character. -/
private def pieces (text : Text) : List Text := text.map fun c => double [c]

private theorem flatten_pieces (text : Text) : (pieces text).flatten = double text := by
  induction text with
  | nil => rfl
  | cons c rest ih =>
    simp only [pieces, List.map_cons, List.flatten_cons] at ih ⊢
    rw [ih]
    simp only [double]
    split <;> rfl

private theorem others_contains_quote : (others '"').contains '"' = false := by decide

/-- A piece is taken whatever comes after it. -/
private theorem prefers_piece (c : Char) {rest : Text} {place : Place}
    (after : place.after = double [c] ++ rest) :
    Regex.Prefers piece.ends place (double [c]) rest := by
  simp only [double] at after ⊢
  split at after
  · rename_i quote
    rw [if_pos quote]
    refine Regex.Prefers.append_right ?_ (.literal after)
    simp [Regex.ends, Place.take?_cons after, others_contains_quote]
  · rename_i plain
    rw [if_neg plain]
    exact (Regex.Prefers.take after (contains_others plain (by decide))).append_left

/-- No piece begins with a quote that stands alone. -/
private theorem piece_ends_eq_nil {rest : Text} (alone : rest.head? ≠ some '"') {place : Place}
    (after : place.after = '"' :: rest) : piece.ends place = [] := by
  have differs : ¬ ['"', '"'] <+: place.after := by
    rw [after]
    rintro ⟨suffix, same⟩
    obtain ⟨-, same⟩ := List.cons.inj same
    exact alone (same ▸ rfl)
  have none : (Regex.literal ['"', '"']).ends place = [] := Regex.literalEnds_eq_nil differs
  rw [piece, Regex.ends, none]
  simp [Regex.ends, Place.take?_cons after, others_contains_quote]

/-- A literal is taken as a whole if no quote follows it. -/
theorem matchCount?_enclose {text rest : Text} (filled : text ≠ [])
    (alone : rest.head? ≠ some '"') :
    literalPattern.matchCount? (enclose text ++ rest) = some (enclose text).length := by
  refine Pattern.matchCount?_of_prefers literal_regex (by decide) fun place after => ?_
  have opened : place.after = ['"'] ++ (double text ++ (['"'] ++ rest)) := by
    simpa [enclose] using after
  -- the pieces are not steady before the last quote, which two quotes begin with: only what comes
  -- after the literal tells that the rounds end there
  have rounds (next : Place) (after : next.after = double text ++ (['"'] ++ rest)) :
      Regex.Prefers (Regex.repetition 1 none true piece).ends next (double text)
        (['"'] ++ rest) := by
    rw [← flatten_pieces] at after ⊢
    refine @Regex.Prefers.repetition _ next _ (fun word => ∃ c, word = double [c])
      (fun _ => True) ?_ (fun _ _ _ _ => trivial) _ ?_ trivial _ _ _ rfl ?_ ?_ nofun ?_ after
    · rintro _ rest ⟨c, rfl⟩ - place after
      exact prefers_piece c after
    · intro word member
      obtain ⟨c, -, rfl⟩ := List.mem_map.mp member
      exact ⟨c, rfl⟩
    · rintro _ ⟨c, rfl⟩
      simp only [double]
      split <;> exact List.cons_ne_nil _ _
    · rw [pieces, List.length_map]
      exact List.length_pos_of_ne_nil filled
    · exact fun _ next after => piece_ends_eq_nil alone after
  exact (Regex.Prefers.literal opened).bind fun next after =>
    (rounds next after).bind fun last after => .literal after

/-- Reading pairs of quotes as one quote gives back what was written twice. -/
theorem undouble_double (text : Text) : undouble (double text) = text := by
  induction text with
  | nil => rfl
  | cons c rest ih =>
    simp only [double]
    split
    · rename_i quote
      rw [undouble, ih, quote]
    · rename_i plain
      rw [undouble, ih]
      exact fun _ same => absurd same plain

theorem stripQuotes_enclose (text : Text) : Escape.stripQuotes (enclose text) = double text := by
  rw [Escape.stripQuotes, enclose, List.tail_cons, List.dropLast_concat]

end Patterns

section Productions

theorem syntax_declared :
    grammar.productions.find? "syntax" = some (.zeroOrMore (.reference "production")) :=
  (Table.find?_ofList _ _).trans rfl

theorem production_declared : grammar.productions.find? "production" = some (.sequence
    [.token "identifier", .text "=", .reference "expression", .text "."]) :=
  (Table.find?_ofList _ _).trans rfl

theorem expression_declared : grammar.productions.find? "expression" = some (.sequence
    [.reference "term", .zeroOrMore (.sequence [.text "|", .reference "term"])]) :=
  (Table.find?_ofList _ _).trans rfl

theorem term_declared :
    grammar.productions.find? "term" = some (.oneOrMore (.reference "factor")) :=
  (Table.find?_ofList _ _).trans rfl

/-- The forms of a factor, of which one matches at the most. -/
def forms : List Rule :=
  [.reference "identifier", .reference "literal", .reference "option", .reference "group",
    .reference "repeat"]

theorem factor_declared : grammar.productions.find? "factor" = some (.choice forms) :=
  (Table.find?_ofList _ _).trans rfl

theorem identifier_declared :
    grammar.productions.find? "identifier" = some (.token "identifier") :=
  (Table.find?_ofList _ _).trans rfl

theorem literal_declared : grammar.productions.find? "literal" = some (.token "literal") :=
  (Table.find?_ofList _ _).trans rfl

theorem option_declared : grammar.productions.find? "option" = some (.sequence
    [.text "[", .reference "expression", .text "]"]) :=
  (Table.find?_ofList _ _).trans rfl

theorem group_declared : grammar.productions.find? "group" = some (.sequence
    [.text "(", .reference "expression", .text ")"]) :=
  (Table.find?_ofList _ _).trans rfl

theorem repeat_declared : grammar.productions.find? "repeat" = some (.sequence
    [.text "\x7b", .reference "expression", .text "\x7d"]) :=
  (Table.find?_ofList _ _).trans rfl

end Productions

section Words

variable {run text rest : Text} (blank : Blank run)

/-- A word is before the end or white space. -/
theorem beginsIn_of_loose (loose : Loose Blank rest) : rest.BeginsIn [.blank] := by
  rcases loose with rfl | ⟨run, rest, blank, filled, rfl⟩
  · exact .nil
  · obtain ⟨c, others, rfl⟩ := List.exists_cons_of_ne_nil filled
    exact .cons (List.mem_singleton_self _)
      ((CharSet.contains_blank c).trans (blank c (List.mem_cons_self ..)))

/-- The marks of the notation. -/
def marks : Text := "=|.[]()\x7b\x7d".toList

private theorem marks_avoided :
    (marks.all fun c => avoids grammar.ignore [.single c]) = true := by decide +kernel

include blank

theorem takes_mark {mark : String} {c : Char} (chars : mark.toList = [c]) (known : c ∈ marks) :
    grammar.Takes (.text mark) (run ++ (mark.toList ++ rest)) rest fun tree =>
      ∃ offset, tree = .token ⟨.rule mark, mark.toList, offset⟩ :=
  Grammar.takes_text ignored blank chars (List.all_eq_true.mp marks_avoided c known)

theorem takes_name (name : Name) (loose : Loose Blank rest) :
    grammar.Takes (.token "identifier") (run ++ (name.1 ++ rest)) rest fun tree =>
      ∃ offset, tree = .token ⟨.rule "identifier", name.1, offset⟩ := by
  have declared : grammar.lexicon.find? "identifier" = some (.pattern namePattern) :=
    (Table.find?_insertAll _ _ _).trans rfl
  exact Grammar.takes_token ignored blank declared (by decide +kernel) (by decide +kernel)
    (by decide +kernel) (spells_name name) (beginsIn_of_loose loose)

theorem takes_literal (filled : text ≠ []) (loose : Loose Blank rest) :
    grammar.Takes (.token "literal") (run ++ (enclose text ++ rest)) rest fun tree =>
      ∃ offset, tree = .token ⟨.rule "literal", enclose text, offset⟩ := by
  have declared : grammar.lexicon.find? "literal" = some (.pattern literalPattern) :=
    (Table.find?_insertAll _ _ _).trans rfl
  have alone : rest.head? ≠ some '"' := by
    intro head
    obtain ⟨set, member, belongs⟩ := beginsIn_of_loose loose '"' head
    revert set
    decide
  have quote : Text.BeginsIn [.single '"'] (enclose text ++ rest) :=
    .single (List.mem_singleton_self _)
  have skips : Skips grammar.ignore run (enclose text ++ rest) :=
    skips_of_blank ignored (clear_of_avoids (by decide +kernel) quote) blank
  exact skips.takes_token declared (List.cons_ne_nil _ _) (matchCount?_enclose filled alone)

end Words

section Marks

/-- A rule does not match before characters that it does not begin with. -/
theorem refuses_of_leads {rule : Rule} {sets : List CharSet} {text : Text}
    (shunned : grammar.shuns 2 rule sets = true) (leads : Leads Blank sets text) :
    grammar.Refuses rule text := by
  obtain ⟨rank, ranked⟩ := wsn_agrees.tame.ranked
  obtain ⟨run, rest, blank, rfl, begins⟩ := leads
  exact Grammar.refuses_of_shuns ignored blank ranked shunned begins

/-- The marks at the end of an expression. -/
def closers : List CharSet := [.single ']', .single ')', .single '\x7d', .single '.']

/-- Marks with which the rules of the notation do not begin. -/
@[mk_iff]
structure Shunning : Prop where
  factor : grammar.shuns 2 (.reference "factor") (.single '|' :: closers) = true
  branch : grammar.shuns 2 (.sequence [.text "|", .reference "term"]) closers = true
  production : grammar.shuns 2 (.reference "production") [] = true

theorem shunning : Shunning := by
  rw [shunning_iff]
  decide +kernel

end Marks

end Packrat.Notation.Wsn
