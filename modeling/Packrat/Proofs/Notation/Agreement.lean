import Packrat.Proofs.Notation.Abnf
import Packrat.Proofs.Notation.Bnf
import Packrat.Proofs.Notation.Ebnf
import Packrat.Proofs.Notation.Peg
import Packrat.Proofs.Notation.Wsn

/-! # Parsers and folds of notations agree

The grammar that describes a notation and the folds that read its trees are written apart from
each other. For every text the parser of a notation rejects it or gives a tree whose nodes the
folds all recognise, so that a text is refused only with a reason of its own.
-/

namespace Packrat.Notation

/-- A notation whose grammar never leads back to itself or into an ambiguity and whose folds
recognise all that it builds. -/
structure Agrees (language : Notation) (recognised : String → Tree → Prop) : Prop where
  tame : language.parser.grammar.Tame
  closed : ∀ name rule tree, language.parser.grammar.productions.find? name = some rule →
    rule.Builds language.parser.grammar.lexicon recognised tree → recognised name tree
  declared : ∀ production, production = language.grammarProduction ∨
      production = language.fragmentProduction →
    (language.parser.grammar.productions.find? production).isSome = true
  grammar : ∀ tree, recognised language.grammarProduction tree →
    Reads language.name (language.foldGrammar tree)
  fragment : ∀ tree, recognised language.fragmentProduction tree →
    Reads language.name (language.foldFragment tree)

/-- A text does not match the production that it is read as. -/
def Rejects (production : String) (fault : Error) : Prop :=
  ∃ position message, fault = .rejected production position message

namespace Agrees

variable {language : Notation} {recognised : String → Tree → Prop}

/-- What follows the parser of a notation fails only with a reject or a refusal. -/
private theorem fault_of_parse {α : Type} (agrees : language.Agrees recognised)
    {production : String} (declared : production = language.grammarProduction ∨
      production = language.fragmentProduction) {fold : Tree → Except Error α}
    (reads : ∀ tree, recognised production tree → Reads language.name (fold tree)) {text : Text}
    {fault : Error}
    (failed : (do fold (← language.parser.parseAll production text)) = .error fault) :
    Rejects production fault ∨ Refusal language.name fault := by
  obtain ⟨rule, found⟩ := Option.isSome_iff_exists.mp (agrees.declared production declared)
  rcases Parser.parseAll_of_tame agrees.tame found text with
    ⟨tree, parsed⟩ | ⟨position, message, rejected⟩
  · cases Parser.every_of_parseAll agrees.closed parsed with
    | named here =>
      rw [parsed] at failed
      exact .inr (reads tree here fault failed)
  · rw [rejected] at failed
    cases failed
    exact .inl ⟨position, message, rfl⟩

/-- A grammar that does not compile is rejected or refused. -/
theorem compile_fault (agrees : language.Agrees recognised) {text : Text} {ignore : List LexRule}
    {fault : Error} (failed : language.compile text ignore = .error fault) :
    Rejects language.grammarProduction fault ∨ Refusal language.name fault := by
  unfold compile at failed
  cases read : language.read text with
  | ok spec =>
    rw [read] at failed
    cases failed
  | error other =>
    rw [read] at failed
    cases failed
    exact agrees.fault_of_parse (.inl rfl) agrees.grammar read

/-- An expression that does not compile is rejected or refused. -/
theorem compileFragment_fault (agrees : language.Agrees recognised) {text : Text} {fault : Error}
    (failed : language.compileFragment text = .error fault) :
    Rejects language.fragmentProduction fault ∨ Refusal language.name fault :=
  agrees.fault_of_parse (.inr rfl) agrees.fragment failed

end Agrees

theorem bnf_agrees : bnf.Agrees Bnf.Recognised where
  tame := @Grammar.Tame.of_checks _
    ["reference", "literal", "list", "expression", "rule", "syntax"] 0
    (by decide +kernel) (by decide +kernel)
  closed := Bnf.recognised_of_builds
  declared := by rintro _ (rfl | rfl) <;> decide +kernel
  grammar _ recognised := recognised
  fragment _ recognised := recognised

theorem ebnf_agrees : ebnf.Agrees Ebnf.Recognised where
  tame := @Grammar.Tame.of_checks _
    ["reference", "terminal", "option", "repeat", "group", "factor", "concatenation",
      "alternation", "rule", "grammar"] 2
    (by decide +kernel) (by decide +kernel)
  closed := Ebnf.recognised_of_builds
  declared := by rintro _ (rfl | rfl) <;> decide +kernel
  grammar _ recognised := recognised
  fragment _ recognised := recognised

theorem abnf_agrees : abnf.Agrees Abnf.Recognised where
  tame := @Grammar.Tame.of_checks _
    ["defined-as", "reference", "group", "option", "char-val", "num-val", "prose-val", "element",
      "repetition", "concatenation", "alternation", "rule", "rulelist"] 0
    (by decide +kernel) (by decide +kernel)
  closed := Abnf.recognised_of_builds
  declared := by rintro _ (rfl | rfl) <;> decide +kernel
  grammar _ recognised := recognised
  fragment _ recognised := (recognised true).bind fun rules _ => .alternatives true rules

theorem peg_agrees : peg.Agrees Peg.Recognised where
  tame := @Grammar.Tame.of_checks _
    ["group", "end", "nothing", "lexical", "literal", "any", "reference", "primary", "suffix",
      "prefix", "sequence", "expression", "rule", "grammar"] 0
    (by decide +kernel) (by decide +kernel)
  closed := Peg.recognised_of_builds
  declared := by rintro _ (rfl | rfl) <;> decide +kernel
  grammar _ recognised := recognised
  fragment _ recognised := recognised

theorem wsn_agrees : wsn.Agrees Wsn.Recognised where
  tame := @Grammar.Tame.of_checks _
    ["identifier", "literal", "option", "group", "repeat", "factor", "term", "expression",
      "production", "syntax"] 2
    (by decide +kernel) (by decide +kernel)
  closed := Wsn.recognised_of_builds
  declared := by rintro _ (rfl | rfl) <;> decide +kernel
  grammar _ recognised := recognised
  fragment _ recognised := recognised

/-- The notations, each with what its folds recognise at the nodes of a tree. -/
def all : List (Notation × (String → Tree → Prop)) :=
  [(bnf, Bnf.Recognised), (ebnf, Ebnf.Recognised), (abnf, Abnf.Recognised),
   (peg, Peg.Recognised), (wsn, Wsn.Recognised)]

theorem agrees_of_mem {language : Notation} {recognised : String → Tree → Prop}
    (known : (language, recognised) ∈ all) : language.Agrees recognised := by
  simp only [all, List.mem_cons, Prod.mk.injEq, List.not_mem_nil, or_false] at known
  rcases known with ⟨rfl, rfl⟩ | ⟨rfl, rfl⟩ | ⟨rfl, rfl⟩ | ⟨rfl, rfl⟩ | ⟨rfl, rfl⟩
  · exact bnf_agrees
  · exact ebnf_agrees
  · exact abnf_agrees
  · exact peg_agrees
  · exact wsn_agrees

/-- Whatever the text, each notation compiles it as a grammar and as an expression, rejects it, or
refuses it for a fault of construction or, in one notation, for prose. The folds recognise every
node of every tree that the parser of the notation gives, and no unordered choice in its grammar
has two rules that match at one place. -/
theorem parser_and_folds_agree {language : Notation} {recognised : String → Tree → Prop}
    (known : (language, recognised) ∈ all) (text : Text) :
    (∀ ignore fault, language.compile text ignore = .error fault →
      Rejects language.grammarProduction fault ∨ Refusal language.name fault) ∧
    (∀ fault, language.compileFragment text = .error fault →
      Rejects language.fragmentProduction fault ∨ Refusal language.name fault) ∧
    (∀ production tree, language.parser.parseAll production text = .ok tree →
      (Tree.named production tree).Every recognised) ∧
    ∀ name rule, language.parser.grammar.productions.find? name = some rule →
      ∀ rules ∈ rule.choices, language.parser.grammar.Exclusive rules := by
  have agrees := agrees_of_mem known
  exact ⟨fun _ _ => agrees.compile_fault, fun _ => agrees.compileFragment_fault,
    fun _ _ => Parser.every_of_parseAll agrees.closed, agrees.tame.exclusive⟩

/-- A rule that is given in prose is refused. -/
theorem parser_and_folds_agree_on_prose :
    ∃ fault, abnf.compile "a = <b>".toList [] = .error fault ∧
      (Rejects "rulelist" fault ∨ Refusal "ABNF" fault) := by
  have known : (abnf, Abnf.Recognised) ∈ all := by simp [all]
  cases compiled : abnf.compile "a = <b>".toList [] with
  | ok parser =>
    have refused : (abnf.compile "a = <b>".toList []).toBool = false := by
      rw [compile, read, Parser.parseAll, Parser.run_eq]
      decide +kernel
    rw [compiled] at refused
    cases refused
  | error fault =>
    exact ⟨fault, rfl, (parser_and_folds_agree known _).1 [] fault compiled⟩

end Packrat.Notation
