import Packrat.Proofs.Bnf.RoundTrip
import Packrat.Proofs.Ebnf.RoundTrip
import Packrat.Proofs.Notation.Placeless
import Packrat.Proofs.Peg.RoundTrip
import Packrat.Proofs.Wsn.RoundTrip
import Mathlib.Tactic.MkIffOfInductiveProp

/-! # Expressions on their own and in a grammar

An expression is read on its own or as the body of a rule. In a grammar the name of the rule stands
before it, and after it a line with the mark that ends the rule or nothing at all. No terminal of an
expression takes any of that, so a grammar of one rule compiles to what the expression compiles to
(`compile_oneRule`).
-/

namespace Packrat.Notation

/-- The text is a grammar in the language that consists of one rule, with the given name and body.
-/
inductive OneRule : Notation → String → Text → Text → Prop where
  | bnf (name : Bnf.Name) (body : Text) :
      OneRule bnf name.string body ("<".toList ++ (name.1 ++ ("> ::= ".toList ++ body)))
  | ebnf (name : Ebnf.Name) (body : Text) :
      OneRule ebnf name.string body (name.1 ++ (" = ".toList ++ (body ++ "\n;".toList)))
  | peg (name : Peg.Name) (body : Text) :
      OneRule peg name.string body (name.1 ++ (" <- ".toList ++ body))
  | wsn (name : Wsn.Name) (body : Text) :
      OneRule wsn name.string body (name.1 ++ (" = ".toList ++ (body ++ "\n.".toList)))

/-- The tree of a rule declares one production. -/
private def AddsRule (fold : Specification → Tree → Except Error Specification) (name : String)
    (rule : Rule) (tree : Tree) : Prop :=
  fold .empty tree = Specification.empty.production name (.ok rule)

/-- An expression that compiles has a tree, and all trees that differ from it in offsets only stand
for its rule. -/
private theorem exists_tree {language : Notation} {body : Text} {rule : Rule}
    (placeless : ∀ tree, language.foldFragment tree.placeless = language.foldFragment tree)
    (compiled : language.compileFragment body = .ok rule) :
    ∃ tree, language.parser.parseAll language.fragmentProduction body = .ok tree ∧
      ∀ other : Tree, other.placeless = tree.placeless →
        language.foldFragment other = .ok rule := by
  rw [compileFragment] at compiled
  cases parsed : language.parser.parseAll language.fragmentProduction body with
  | error fault =>
    rw [parsed] at compiled
    cases compiled
  | ok tree =>
    rw [parsed] at compiled
    refine ⟨tree, rfl, fun other same => ?_⟩
    rw [← placeless other, same, placeless tree]
    exact compiled

section Frames

variable {grammar : Grammar} {item : Rule} {text rest run : Text}

private theorem length_le_of_takes {holds : Tree → Prop}
    (takes : grammar.Takes item text rest holds) : rest.length ≤ text.length := by
  obtain ⟨found, gives, rfl, -⟩ := takes (.start text) rfl
  exact Grammar.gives_length_le gives

/-- A terminal refuses what is ignored at the end of a text. -/
private theorem refuses_at_end {leaf : Terminal} {named : String × LexRule × Bool}
    (lexical : leaf.lexical? grammar.lexicon = some named) (skips : Skips grammar.ignore run []) :
    grammar.Refuses (.terminal leaf) run := by
  have refuses := skips.refuses_terminal lexical (.inl rfl)
  rwa [List.append_nil] at refuses

/-- A rule refuses what is ignored at the end of a text if it does not match nothing. -/
private theorem refuses_of_ended {depth : Nat} (tame : grammar.Tame)
    (shunned : grammar.shuns depth item [] = true) (skips : Skips grammar.ignore run []) :
    grammar.Refuses item run := by
  obtain ⟨rank, ranked⟩ := tame.ranked
  have refuses := skips.refuses_of_shuns ranked shunned .nil
  rwa [List.append_nil] at refuses

/-- A repetition takes a single round. -/
private theorem takes_single {min : Nat} {holds : Tree → Prop}
    (takes : grammar.Takes item text rest holds) (shorter : rest.length < text.length)
    (refuses : grammar.Refuses item rest) (few : min ≤ 1) :
    grammar.Takes (.repetition item min none) text rest fun tree =>
      ∃ node, tree = .array [node] ∧ holds node :=
  Grammar.takes_repetition (.next takes shorter fun node here =>
    .done refuses ⟨few, node, rfl, here⟩)

end Frames

/-- The text compiles to a grammar of one production. -/
private def CompilesTo (language : Notation) (text : Text) (name : String) (rule : Rule) : Prop :=
  ∀ ignore, ∃ parser, language.compile text ignore = .ok parser ∧
    parser.grammar.productions = .ofList [(name, rule)]

section Compiling

variable {language : Notation} {text rest : Text} {name : String} {rule : Rule}
  {fold : Specification → Tree → Except Error Specification}

private theorem compiles_of_tree {tree node : Tree}
    (parsed : language.parser.parseAll language.grammarProduction text = .ok tree)
    (folds : language.foldGrammar tree = [node].foldlM fold .empty)
    (declares : AddsRule fold name rule node) (named : name ≠ "") :
    CompilesTo language text name rule := by
  intro ignore
  rw [List.foldlM_cons, show fold .empty node = _ from declares, Specification.production,
    if_neg named] at folds
  rw [compile, Notation.read, parsed]
  simp only [bind, Except.bind, folds]
  exact ⟨_, rfl, rfl⟩

/-- A text of one rule compiles where a grammar is a repetition of rules. -/
private theorem compiles_of_takes {item : Rule} {min : Nat}
    (declared : language.parser.grammar.productions.find? language.grammarProduction =
      some (.repetition item min none))
    (takes : language.parser.grammar.Takes item text rest (AddsRule fold name rule))
    (shorter : rest.length < text.length) (skips : Skips language.parser.grammar.ignore rest [])
    (refuses : language.parser.grammar.Refuses item rest) (few : min ≤ 1)
    (folds : ∀ node, language.foldGrammar (.array [node]) = [node].foldlM fold .empty)
    (named : name ≠ "") : CompilesTo language text name rule := by
  have whole : language.parser.grammar.Takes (.reference language.grammarProduction) text rest
      fun tree => ∃ node, tree = .named language.grammarProduction (.array [node]) ∧
        AddsRule fold name rule node := by
    refine Grammar.takes_reference declared ((takes_single takes shorter refuses few).mono ?_)
    rintro _ ⟨node, rfl, declares⟩
    exact ⟨node, rfl, declares⟩
  obtain ⟨tree, parsed, node, same, declares⟩ := skips.parseAll whole
  obtain ⟨-, rfl⟩ := Tree.named.inj same
  exact compiles_of_tree parsed (folds node) declares named

end Compiling

section Checks

private def Bnf.expressionNames : List String := ["expression", "list", "reference", "literal"]

private def Ebnf.expressionNames : List String :=
  ["alternation", "concatenation", "factor", "reference", "terminal", "option", "repeat", "group"]

private def Peg.expressionNames : List String :=
  ["expression", "sequence", "prefix", "suffix", "primary", "group", "end", "nothing", "lexical",
    "literal", "any", "reference"]

private def Wsn.expressionNames : List String :=
  ["expression", "term", "factor", "identifier", "literal", "option", "group", "repeat"]

/-- The productions that read expressions, and the comments in them, are settled where the end of a
rule follows. -/
@[mk_iff]
structure Settled : Prop where
  bnf : Bnf.grammar.settled [] [] Bnf.expressionNames = true
  ebnf : Ebnf.grammar.settled ['\n', ';'] [';'] Ebnf.expressionNames = true
  comment : (LexRule.pattern Ebnf.commentPattern).settled ['\n', ';'] = true
  advances : (LexRule.pattern Ebnf.commentPattern).advances = true
  peg : Peg.grammar.settled [] [] Peg.expressionNames = true
  wsn : Wsn.grammar.settled ['\n', '.'] ['.'] Wsn.expressionNames = true

theorem settled : Settled := by
  rw [settled_iff]
  decide +kernel

end Checks

namespace Ebnf

private theorem follows : Follows grammar.ignore ['\n', ';'] [';'] := by
  have clear : Clear grammar.ignore [';'] := clear_mark (by decide) (.inl rfl)
  exact follows_blank ignored (by decide) clear (List.forall_mem_singleton.mpr settled.comment)
    (List.forall_mem_singleton.mpr settled.advances)

private theorem takes_oneRule (name : Name) {body : Text} {rule : Rule}
    (compiled : ebnf.compileFragment body = .ok rule) :
    grammar.Takes (.reference "rule") (name.1 ++ (" = ".toList ++ (body ++ "\n;".toList))) []
      (AddsRule foldRule name.string rule) := by
  obtain ⟨tree, parsed, folded⟩ := exists_tree foldAlternatives_placeless compiled
  -- the tree in the grammar is another one, since its tokens stand further to the right
  obtain ⟨run, takes, skips⟩ := Parser.takes_of_parseAll follows settled.ebnf (by decide)
    (follows.after_blank ignored (show CharClass.isBlank ' ' = true from rfl) body) parsed
  have gap : Gap IsComment [' '] := .blank (by decide) .nil
  have loose (rest : Text) : Loose (Gap IsComment) (' ' :: rest) :=
    .inr ⟨[' '], rest, gap, List.cons_ne_nil _ _, rfl⟩
  refine Grammar.takes_reference rule_declared (Grammar.takes_sequence ?_)
  refine .cons (takes_name .nil (loose _) name) ?_
  rintro _ ⟨offset, rfl⟩
  refine .cons (takes_mark gap (loose _) (c := '=') rfl (by decide)) fun equals _ => ?_
  refine .cons takes ?_
  rintro _ ⟨inner, rfl, same⟩
  refine .cons (@takes_closing _ ";" (by simp) (by decide) _ skips) fun mark _ => .nil ?_
  have inside : foldAlternatives inner = .ok rule := folded inner same
  simp only [AddsRule, foldRule, foldAlternation, if_true, inside]
  rfl

private theorem compiles_oneRule (name : Name) {body : Text} {rule : Rule}
    (compiled : ebnf.compileFragment body = .ok rule) :
    CompilesTo ebnf (name.1 ++ (" = ".toList ++ (body ++ "\n;".toList))) name.string rule := by
  have ended : Skips grammar.ignore [] [] := .of_clear (Grammar.clear_of_shuns shunning.rule .nil)
  refine compiles_of_takes grammar_declared (takes_oneRule name compiled) ?_ ended
    (refuses_of_ended ebnf_agrees.tame shunning.rule ended) (Nat.zero_le 1) (fun _ => rfl)
    name.string_ne_empty
  rw [List.length_append]
  exact Nat.add_pos_right _ (List.length_pos_of_ne_nil (List.cons_ne_nil _ _))

end Ebnf

namespace Wsn

private theorem follows : Follows grammar.ignore ['\n', '.'] ['.'] := by
  have clear : Clear grammar.ignore ['.'] :=
    Grammar.clear_of_shuns shunning.branch (.single (by simp [closers]))
  exact follows_blank ignored rfl clear nofun nofun

private theorem takes_oneRule (name : Name) {body : Text} {rule : Rule}
    (compiled : wsn.compileFragment body = .ok rule) :
    grammar.Takes (.reference "production") (name.1 ++ (" = ".toList ++ (body ++ "\n.".toList))) []
      (AddsRule foldRule name.string rule) := by
  obtain ⟨tree, parsed, folded⟩ := exists_tree foldExpression_placeless compiled
  obtain ⟨run, takes, skips⟩ := Parser.takes_of_parseAll follows settled.wsn (by decide)
    (follows.after_blank ignored (show CharClass.isBlank ' ' = true from rfl) body) parsed
  have blank : Blank [' '] := List.forall_mem_singleton.mpr rfl
  have loose (rest : Text) : Loose Blank (' ' :: rest) :=
    .inr ⟨[' '], rest, blank, List.cons_ne_nil _ _, rfl⟩
  refine Grammar.takes_reference production_declared (Grammar.takes_sequence ?_)
  refine .cons (takes_name (List.forall_mem_nil _) name (loose _)) ?_
  rintro _ ⟨offset, rfl⟩
  refine .cons (takes_mark blank (c := '=') rfl (by decide)) fun equals _ => ?_
  refine .cons takes ?_
  rintro _ ⟨inner, rfl, same⟩
  refine .cons (@Skips.takes_text _ _ _ "." skips (by decide)) fun mark _ => .nil ?_
  have inside : foldExpression inner = .ok rule := folded inner same
  simp only [AddsRule, foldRule, foldNamed, if_true, inside]
  rfl

private theorem compiles_oneRule (name : Name) {body : Text} {rule : Rule}
    (compiled : wsn.compileFragment body = .ok rule) :
    CompilesTo wsn (name.1 ++ (" = ".toList ++ (body ++ "\n.".toList))) name.string rule := by
  have ended : Skips grammar.ignore [] [] :=
    .of_clear (Grammar.clear_of_shuns shunning.production .nil)
  refine compiles_of_takes syntax_declared (takes_oneRule name compiled) ?_ ended
    (refuses_of_ended wsn_agrees.tame shunning.production ended) (Nat.zero_le 1) (fun _ => rfl)
    name.string_ne_empty
  rw [List.length_append]
  exact Nat.add_pos_right _ (List.length_pos_of_ne_nil (List.cons_ne_nil _ _))

end Wsn

namespace Peg

private theorem takes_oneRule (name : Name) {body : Text} {rule : Rule}
    (compiled : peg.compileFragment body = .ok rule) :
    ∃ run, grammar.Takes (.reference "rule") (name.1 ++ (" <- ".toList ++ body)) run
        (AddsRule foldRule name.string rule) ∧
      run.length < (name.1 ++ (" <- ".toList ++ body)).length ∧ Skips grammar.ignore run [] := by
  obtain ⟨tree, parsed, folded⟩ := exists_tree foldExpression_placeless compiled
  have mirrors := (follows_nil grammar.ignore).after_blank ignored
    (show CharClass.isBlank ' ' = true from rfl) body
  rw [List.append_nil] at mirrors
  obtain ⟨run, takes, skips⟩ :=
    Parser.takes_of_parseAll (follows_nil _) settled.peg (by decide) mirrors parsed
  rw [List.append_nil] at takes
  have blank : ∀ c ∈ [' '], CharClass.isBlank c = true := List.forall_mem_singleton.mpr rfl
  have unmarked : grammar.Refuses (.text ";") run := refuses_at_end rfl skips
  have shorter : run.length < (name.1 ++ (" <- ".toList ++ body)).length := by
    have within : run.length ≤ body.length + 1 := length_le_of_takes takes
    rw [List.length_append, List.length_append, show " <- ".toList.length = 4 from rfl]
    omega
  refine ⟨run, ?_, shorter, skips⟩
  refine Grammar.takes_reference rule_declared (Grammar.takes_sequence ?_)
  refine .cons (takes_name (List.forall_mem_nil _) name
    (.cons (List.mem_cons_self ..) (CharSet.contains_blank ' '))) ?_
  rintro _ ⟨offset, rfl⟩
  refine .cons (takes_mark blank (c := '<') rfl (by decide)) fun arrow _ => ?_
  refine .cons takes ?_
  rintro _ ⟨inner, rfl, same⟩
  have without : grammar.Takes (.optional (.text ";")) run run fun _ => True :=
    Grammar.takes_without unmarked fun _ => trivial
  refine .cons without fun mark _ => .nil ?_
  have inside : foldExpression inner = .ok rule := folded inner same
  simp only [AddsRule, foldRule, foldNamed, if_true, inside]
  rfl

private theorem compiles_oneRule (name : Name) {body : Text} {rule : Rule}
    (compiled : peg.compileFragment body = .ok rule) :
    CompilesTo peg (name.1 ++ (" <- ".toList ++ body)) name.string rule := by
  obtain ⟨run, takes, shorter, skips⟩ := takes_oneRule name compiled
  exact compiles_of_takes grammar_declared takes shorter skips
    (refuses_of_ended peg_agrees.tame shunning.rule skips) (Nat.le_refl 1) (fun _ => rfl)
    name.string_ne_empty

end Peg

namespace Bnf

/-- After a space the same is left of a text as before it. The lemma for blanks does not apply,
since line ends are words of the notation. -/
private theorem mirrors_after_space (body : Text) (second : Cursor)
    (left : second.rest = ' ' :: body) :
    Mirrors grammar.ignore [] [] (.start body) second := by
  have clear : Clear grammar.ignore (body.dropWhile isSpace) := clear_of_solid fun c head => by
    have stops := List.head?_dropWhile_not isSpace body
    rw [Option.mem_def.mp head] at stops
    simpa using stops
  have blank : Spaces (body.takeWhile isSpace) := fun c => List.mem_takeWhile_imp
  have here : ((Cursor.start body).skip grammar.ignore).rest = body.dropWhile isSpace :=
    skips_spaces clear blank (.start body) List.takeWhile_append_dropWhile.symm
  have there : (second.skip grammar.ignore).rest = body.dropWhile isSpace :=
    @skips_spaces (' ' :: body.takeWhile isSpace) _ clear (List.forall_mem_cons.mpr ⟨rfl, blank⟩)
      second (by rw [left, List.cons_append, List.takeWhile_append_dropWhile])
  rw [Mirrors, here, there]
  split
  · assumption
  · rw [List.append_nil]

private theorem takes_ending {run : Text} (skips : Skips grammar.ignore run []) :
    grammar.Takes ending run run fun _ => True := by
  have noLine : grammar.Refuses (.token "line-end") run := refuses_at_end rfl skips
  have noChar : grammar.Refuses .anyChar run := refuses_at_end rfl skips
  have ended : grammar.Takes (.absent .anyChar) run run fun _ => True :=
    Grammar.takes_absent noChar fun _ => trivial
  exact Grammar.takes_ordered_tail noLine (Grammar.takes_ordered_head ended)

private theorem takes_oneRule (name : Name) {body : Text} {rule : Rule}
    (compiled : bnf.compileFragment body = .ok rule) :
    ∃ run, grammar.Takes (.reference "rule")
        ("<".toList ++ (name.1 ++ ("> ::= ".toList ++ body))) run
        (AddsRule foldRule name.string rule) ∧
      run.length < ("<".toList ++ (name.1 ++ ("> ::= ".toList ++ body))).length ∧
      Skips grammar.ignore run [] := by
  obtain ⟨tree, parsed, folded⟩ := exists_tree foldExpression_placeless compiled
  obtain ⟨run, takes, skips⟩ := Parser.takes_of_parseAll (follows_nil _) settled.bnf
    (by decide) (mirrors_after_space body) parsed
  rw [List.append_nil] at takes
  have shorter : run.length < ("<".toList ++ (name.1 ++ ("> ::= ".toList ++ body))).length := by
    have within : run.length ≤ body.length + 1 := length_le_of_takes takes
    simp only [List.length_append, show "> ::= ".toList.length = 6 from rfl]
    omega
  have none : Spaces [] := List.forall_mem_nil _
  have closes (rest : Text) : Text.BeginsIn [spaces, .single '>'] ('>' :: rest) :=
    .single (List.mem_cons_of_mem _ (List.mem_singleton_self _))
  refine ⟨run, ?_, shorter, skips⟩
  refine Grammar.takes_reference rule_declared (Grammar.takes_sequence ?_)
  refine .cons (takes_mark none (c := '<') rfl (by decide)) fun opening _ => ?_
  refine .cons (takes_name none name (closes _)) ?_
  rintro _ ⟨offset, rfl⟩
  refine .cons (takes_mark none (c := '>') rfl (by decide)) fun closing _ => ?_
  refine .cons (takes_mark (List.forall_mem_singleton.mpr rfl) (c := ':') rfl (by decide))
    fun defines _ => ?_
  refine .cons takes ?_
  rintro _ ⟨inner, rfl, same⟩
  refine .cons (takes_ending skips) fun turn _ => .nil ?_
  have inside : foldExpression inner = .ok rule := folded inner same
  simp only [AddsRule, foldRule, if_true, inside]
  rfl

private theorem compiles_oneRule (name : Name) {body : Text} {rule : Rule}
    (compiled : bnf.compileFragment body = .ok rule) :
    CompilesTo bnf ("<".toList ++ (name.1 ++ ("> ::= ".toList ++ body))) name.string rule := by
  obtain ⟨run, takes, shorter, skips⟩ := takes_oneRule name compiled
  have refuses := refuses_of_ended bnf_agrees.tame shunning.rule skips
  have single := takes_single takes shorter refuses (Nat.le_refl 1)
  have leads : Leads Spaces [.single '<', .single '|']
      ("<".toList ++ (name.1 ++ ("> ::= ".toList ++ body))) :=
    ⟨[], _, List.forall_mem_nil _, rfl, .single (List.mem_cons_self ..)⟩
  have unbroken : grammar.Takes (.optional (.token "line-end")) _ _ fun _ => True :=
    Grammar.takes_without (refuses_of_leads shunning.lineEnd leads) fun _ => trivial
  have whole : grammar.Takes (.reference "syntax")
      ("<".toList ++ (name.1 ++ ("> ::= ".toList ++ body))) run fun tree => ∃ first node,
        tree = .named "syntax" (.array [first, .array [node]]) ∧
          AddsRule foldRule name.string rule node := by
    refine Grammar.takes_reference syntax_declared (Grammar.takes_sequence ?_)
    refine .cons unbroken fun first _ => .cons single ?_
    rintro _ ⟨node, rfl, declares⟩
    exact .nil ⟨first, node, rfl, declares⟩
  obtain ⟨tree, parsed, first, node, same, declares⟩ := skips.parseAll whole
  obtain ⟨-, rfl⟩ := Tree.named.inj same
  exact compiles_of_tree parsed rfl declares name.string_ne_empty

end Bnf

/-- If an expression compiles on its own, the grammar of one rule with it as the body compiles, and
its only production is the compiled rule under the name. -/
theorem compile_oneRule {language : Notation} {name : String} {body text : Text}
    (oneRule : OneRule language name body text) {rule : Rule}
    (compiled : language.compileFragment body = .ok rule) (ignore : List LexRule) :
    ∃ parser, language.compile text ignore = .ok parser ∧
      parser.grammar.productions = .ofList [(name, rule)] := by
  cases oneRule with
  | bnf name body => exact Bnf.compiles_oneRule name compiled ignore
  | ebnf name body => exact Ebnf.compiles_oneRule name compiled ignore
  | peg name body => exact Peg.compiles_oneRule name compiled ignore
  | wsn name body => exact Wsn.compiles_oneRule name compiled ignore

/-- A written expression compiles to the rule that it denotes. -/
theorem Wsn.compileFragment_written {expression : Wsn.Expression} {body : Text}
    (written : Written Wsn.Blank expression.words body) :
    wsn.compileFragment body = .ok expression.denote := by
  obtain ⟨rest, stands, blank⟩ := written
  have takes := Wsn.takes_expression expression stands (.ofGap blank _)
  have ended : Skips Wsn.grammar.ignore rest [] :=
    skips_of_blank Wsn.ignored (Grammar.clear_of_shuns Wsn.shunning.production .nil) blank
  obtain ⟨tree, parsed, folded⟩ := ended.parseAll takes
  rw [Wsn.foldNamed, if_pos rfl] at folded
  rw [compileFragment, show wsn.parser.parseAll wsn.fragmentProduction body = _ from parsed]
  exact folded

/-- The last literal ends with a quote, which stands before the mark at the end of the rule. -/
theorem compile_oneRule_quoted :
    OneRule wsn "word" "item | \"say\" \"\"\"\"".toList
        "word = item | \"say\" \"\"\"\"\n.".toList ∧
      wsn.compileFragment "item | \"say\" \"\"\"\"".toList =
        .ok (.choice [.reference "item", .sequence [.text "say", .text "\""]]) ∧
      ∃ parser, wsn.compile "word = item | \"say\" \"\"\"\"\n.".toList [] = .ok parser ∧
        parser.grammar.productions = .ofList
          [("word", .choice [.reference "item", .sequence [.text "say", .text "\""]])] := by
  let word : Wsn.Name := ⟨"word".toList, rfl⟩
  let item : Wsn.Name := ⟨"item".toList, rfl⟩
  let say : Wsn.Factor := .literal "say".toList (List.cons_ne_nil _ _)
  let quote : Wsn.Factor := .literal ['"'] (List.cons_ne_nil _ _)
  let expression : Wsn.Expression :=
    .more (.last (.reference item)) (.last (.more say (.last quote)))
  have oneRule : OneRule wsn "word" "item | \"say\" \"\"\"\"".toList _ := .wsn word _
  have blank : Wsn.Blank [' '] := List.forall_mem_singleton.mpr rfl
  have written : Written Wsn.Blank expression.words "item | \"say\" \"\"\"\"".toList :=
    written_intercalate (List.forall_mem_nil _) blank (List.cons_ne_nil _ _) expression.words
  have compiled := Wsn.compileFragment_written written
  exact ⟨oneRule, compiled, compile_oneRule oneRule compiled []⟩

end Packrat.Notation
