import Packrat.Notation.Bnf
import Packrat.Proofs.Notation.Written

/-! # Written Backus-Naur form

The rules of the notation apart from any text, the rules that they denote, and all the ways to
write them. Lines matter: a rule ends with its line, but line ends may stand before the bar of an
alternative. They are words of their own among those of a grammar, and between any two words there
may be spaces.
-/

namespace Packrat.Notation.Bnf

open Peg (Quote oneOr)

/-- The names of rules. -/
abbrev Name : Type := Notation.Name ['_', '-']

/-- A reference to a rule, or a text. -/
inductive Term where
  | reference (name : Name)
  | literal (text : Text)

/-- Terms one after the other, of which there is one at least. -/
structure Branch where
  terms : List Term
  filled : terms ≠ []

/-- A rule of a grammar, which has one alternative at least. -/
structure Definition where
  name : Name
  branches : List Branch
  filled : branches ≠ []

section Denotations

/-- The rule that a term denotes. -/
def Term.denote : Term → Rule
  | .reference name => .reference name.string
  | .literal text => if text.isEmpty then .empty else .text (String.ofList text)

/-- The rule that the terms of an alternative denote. -/
def Branch.denote (branch : Branch) : Rule := oneOr .sequence (branch.terms.map Term.denote)

/-- The rule that the alternatives of a rule denote. -/
def Definition.denote (definition : Definition) : Rule :=
  oneOr .choice (definition.branches.map Branch.denote)

end Denotations

section Layout

/-- The characters that stand between words. -/
def isSpace (c : Char) : Bool := c = ' ' || c = '\t'

/-- A run of such characters. -/
abbrev Spaces (run : Text) : Prop := ∀ c ∈ run, isSpace c = true

/-- The end of a line, with or without a carriage return. -/
def lineEnd (carriage : Bool) : Text := if carriage then ['\r', '\n'] else ['\n']

/-- Ends of lines, with spaces only between any two. -/
inductive LineEnds : Text → Prop where
  | one (carriage : Bool) : LineEnds (lineEnd carriage)
  | more (carriage : Bool) {run rest} (spaces : Spaces run) (others : LineEnds rest) :
      LineEnds (lineEnd carriage ++ (run ++ rest))

/-- Where the lines may be broken: no words, or the ends of lines. -/
inductive Break : List Text → Prop where
  | none : Break []
  | lines {word} (ends : LineEnds word) : Break [word]

end Layout

section Words

/-- The body of a literal between quotes stands for the text. Backslashes, the quote itself and ends
of lines are escaped, and the other quote may be. -/
inductive Spelled (quote : Quote) : Text → Text → Prop where
  | nil : Spelled quote [] []
  | plain {c text body} (plain : c ≠ '\\' ∧ c ≠ quote.mark ∧ c ≠ '\n')
      (more : Spelled quote text body) : Spelled quote (c :: text) (c :: body)
  | escaped {c text body} (marked : c = '\\' ∨ c = '"' ∨ c = '\'')
      (more : Spelled quote text body) : Spelled quote (c :: text) ('\\' :: c :: body)
  | newline {text body} (more : Spelled quote text body) :
      Spelled quote ('\n' :: text) ('\\' :: 'n' :: body)

/-- A body between quotes. -/
def enclose (quote : Quote) (body : Text) : Text := quote.mark :: (body ++ [quote.mark])

/-- The words are those of a term. -/
inductive WritesTerm : Term → List Text → Prop where
  | reference {name} : WritesTerm (.reference name) ["<".toList, name.1, ">".toList]
  | literal {quote text body} (spelled : Spelled quote text body) :
      WritesTerm (.literal text) [enclose quote body]

/-- The words are those of several terms. -/
inductive WritesTerms : List Term → List Text → Prop where
  | nil : WritesTerms [] []
  | cons {term terms words words'} (here : WritesTerm term words)
      (more : WritesTerms terms words') : WritesTerms (term :: terms) (words ++ words')

/-- The words are those of several alternatives, with a bar between any two that may begin a new
line. -/
inductive WritesBranches : List Branch → List Text → Prop where
  | last {branch : Branch} {words} (here : WritesTerms branch.terms words) :
      WritesBranches [branch] words
  | more {branch : Branch} {branches words turn words'} (here : WritesTerms branch.terms words)
      (breaks : Break turn) (others : WritesBranches branches words') :
      WritesBranches (branch :: branches) (words ++ (turn ++ "|".toList :: words'))

/-- The words are those of a rule. -/
inductive WritesRule : Definition → List Text → Prop where
  | rule {definition : Definition} {words} (body : WritesBranches definition.branches words) :
      WritesRule definition ("<".toList :: definition.name.1 :: ">".toList :: "::=".toList :: words)

/-- The words are those of several rules, with the ends of lines between any two. -/
inductive WritesRules : List Definition → List Text → Prop where
  | last {definition words turn} (here : WritesRule definition words) (breaks : Break turn) :
      WritesRules [definition] (words ++ turn)
  | more {definition definitions words word words'} (here : WritesRule definition words)
      (ends : LineEnds word) (others : WritesRules definitions words') :
      WritesRules (definition :: definitions) (words ++ word :: words')

/-- The words stand in the text with spaces between them, and the rest comes after them. -/
abbrev Stands (words : List Text) (text rest : Text) : Prop :=
  Parted Spaces (fun _ => True) words text rest

/-- The text consists of the words of the rules, after blank lines or right at its beginning. -/
def Renders (definitions : List Definition) (text : Text) : Prop :=
  ∃ turn words rest, Break turn ∧ WritesRules definitions words ∧
    Stands (turn ++ words) text rest ∧ Spaces rest

/-- The words, each after a run of its own, and the rest. -/
def lay (pairs : List (Text × Text)) (rest : Text) : Text :=
  pairs.flatMap (fun pair => pair.1 ++ pair.2) ++ rest

/-- Words stand in a text behind any runs of spaces. -/
theorem stands_lay {pairs : List (Text × Text)} (blank : ∀ pair ∈ pairs, Spaces pair.1)
    (rest : Text) : Stands (pairs.map Prod.snd) (lay pairs rest) rest := by
  induction pairs with
  | nil => exact .nil
  | cons pair pairs ih =>
    obtain ⟨here, others⟩ := List.forall_mem_cons.mp blank
    rw [lay, List.flatMap_cons, List.append_assoc, List.append_assoc]
    exact .cons here trivial (ih others)

end Words

section Printing

/-- How a character is written between double quotes. -/
def escape (c : Char) : Text :=
  if c = '\n' then ['\\', 'n'] else if c = '\\' ∨ c = '"' then ['\\', c] else [c]

theorem spelled_escape (text : Text) : Spelled .double text (text.flatMap escape) := by
  induction text with
  | nil => exact .nil
  | cons c text ih =>
    rw [List.flatMap_cons, escape]
    split_ifs with newline marked
    · exact newline ▸ .newline ih
    · exact .escaped (marked.imp_right .inl) ih
    · exact .plain ⟨fun same => marked (.inl same), fun same => marked (.inr same), newline⟩ ih

/-- The words of a term, with a literal between double quotes. -/
def Term.words : Term → List Text
  | .reference name => ["<".toList, name.1, ">".toList]
  | .literal text => [enclose .double (text.flatMap escape)]

/-- The words of alternatives on one line. -/
def wordsOf : List Branch → List Text
  | [] => []
  | [branch] => branch.terms.flatMap Term.words
  | branch :: others => branch.terms.flatMap Term.words ++ "|".toList :: wordsOf others

/-- The words of a rule on one line, and the end of the line. -/
def Definition.words (definition : Definition) : List Text :=
  "<".toList :: definition.name.1 :: ">".toList :: "::=".toList :: wordsOf definition.branches ++
    [lineEnd false]

/-- The rules one on a line, with a space before every word. -/
def print (definitions : List Definition) : Text :=
  lay ((definitions.flatMap Definition.words).map ([' '], ·)) []

private theorem writesTerms_words (terms : List Term) :
    WritesTerms terms (terms.flatMap Term.words) := by
  induction terms with
  | nil => exact .nil
  | cons term terms ih =>
    refine .cons ?_ ih
    cases term with
    | reference name => exact .reference
    | literal text => exact .literal (spelled_escape text)

private theorem writesBranches_words {branches : List Branch} (filled : branches ≠ []) :
    WritesBranches branches (wordsOf branches) := by
  induction branches with
  | nil => exact absurd rfl filled
  | cons branch branches ih =>
    cases branches with
    | nil => exact .last (writesTerms_words _)
    | cons next branches =>
      exact .more (writesTerms_words _) .none (ih (List.cons_ne_nil _ _))

private theorem writesRules_words {definitions : List Definition} (filled : definitions ≠ []) :
    WritesRules definitions (definitions.flatMap Definition.words) := by
  have ends : LineEnds (lineEnd false) := .one false
  induction definitions with
  | nil => exact absurd rfl filled
  | cons definition definitions ih =>
    have here : WritesRule definition _ := .rule (writesBranches_words definition.filled)
    cases definitions with
    | nil =>
      rw [List.flatMap_cons, List.flatMap_nil, List.append_nil]
      exact .last here (.lines ends)
    | cons next definitions =>
      rw [List.flatMap_cons, Definition.words, List.append_assoc, List.singleton_append]
      exact .more here ends (ih (List.cons_ne_nil _ _))

/-- Every grammar of one rule at least can be rendered. -/
theorem renders_print {definitions : List Definition} (filled : definitions ≠ []) :
    Renders definitions (print definitions) := by
  refine ⟨[], _, [], .none, writesRules_words filled, ?_, nofun⟩
  have blank : Spaces [' '] := List.forall_mem_singleton.mpr rfl
  have stands := @stands_lay ((definitions.flatMap Definition.words).map ([' '], ·))
    (List.forall_mem_map.mpr fun _ _ => blank) []
  rwa [List.map_map, show Prod.snd ∘ (([' '], ·) : Text → Text × Text) = id from rfl,
    List.map_id] at stands

end Printing

end Packrat.Notation.Bnf
