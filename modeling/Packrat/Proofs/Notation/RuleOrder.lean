import Packrat.Proofs.Declarations
import Packrat.Proofs.Notation.Placeless

/-! # Grammars with their rules in any order

The folds of the notations go through the rules of a tree and declare a production for each. What
is declared for a rule does not depend on the productions there are (`ReadsAlone`), so the order of
the rules matters no more than that of declarations (`foldlM_perm`), nor does it matter where in
a text they stand.
-/

namespace Packrat.Notation

/-- The step declares the same production whatever others there are. -/
def StepDeclares (step : Specification → Tree → Except Error Specification) (node : Tree)
    (entry : String × Rule) : Prop :=
  ∀ spec, step spec node = spec.production entry.1 (.ok entry.2)

/-- Whatever productions there are, the step fails in the same way or declares the same one. -/
def ReadsAlone (step : Specification → Tree → Except Error Specification) (node : Tree) : Prop :=
  (∃ fault, ∀ spec, step spec node = .error fault) ∨ ∃ entry, StepDeclares step node entry

section Steps

variable {step : Specification → Tree → Except Error Specification} {nodes nodes' : List Tree}
  {entries : List (String × Rule)}

theorem foldlM_of_declares (declared : List.Forall₂ (StepDeclares step) nodes entries)
    (spec : Specification) : nodes.foldlM step spec = spec.declareEach entries := by
  induction declared generalizing spec with
  | nil => rfl
  | cons here _ ih =>
    rw [List.foldlM_cons, Specification.declareEach, List.foldlM_cons, here spec]
    exact congrArg _ (funext ih)

/-- Where steps come to a specification, each of them declares a production. -/
theorem declares_of_foldlM (alone : ∀ node, ReadsAlone step node) {spec result : Specification}
    (folded : nodes.foldlM step spec = .ok result) :
    ∃ entries, List.Forall₂ (StepDeclares step) nodes entries := by
  induction nodes generalizing spec with
  | nil => exact ⟨[], .nil⟩
  | cons node nodes ih =>
    rw [List.foldlM_cons] at folded
    rcases alone node with ⟨fault, failed⟩ | ⟨entry, here⟩
    · rw [failed] at folded
      cases folded
    · cases first : step spec node with
      | error fault =>
        rw [first] at folded
        cases folded
      | ok next =>
        rw [first] at folded
        obtain ⟨entries, others⟩ := ih folded
        exact ⟨entry :: entries, .cons here others⟩

private theorem foldlM_of_perm (alone : ∀ node, ReadsAlone step node) (perm : nodes.Perm nodes')
    {spec result : Specification} (folded : nodes.foldlM step spec = .ok result) :
    nodes'.foldlM step spec = .ok result := by
  obtain ⟨entries, declared⟩ := declares_of_foldlM alone folded
  obtain ⟨entries', declared', perm'⟩ := List.perm_comp_forall₂ perm.symm declared
  rw [foldlM_of_declares declared] at folded
  rw [foldlM_of_declares declared', Specification.declareEach_perm perm', folded]

/-- Steps that read their nodes alone come to the same in any order, if they do not fail. -/
theorem foldlM_perm (alone : ∀ node, ReadsAlone step node) (perm : nodes.Perm nodes')
    {spec result : Specification} :
    nodes.foldlM step spec = .ok result ↔ nodes'.foldlM step spec = .ok result :=
  ⟨foldlM_of_perm alone perm, foldlM_of_perm alone perm.symm⟩

/-- Steps that do not look at offsets come to the same for rules that stand elsewhere. -/
theorem foldlM_placeless_perm (alone : ∀ node, ReadsAlone step node)
    (placeless : ∀ spec node, step spec (Tree.placeless node) = step spec node)
    (perm : (nodes.map Tree.placeless).Perm (nodes'.map Tree.placeless))
    {spec result : Specification} :
    nodes.foldlM step spec = .ok result ↔ nodes'.foldlM step spec = .ok result := by
  have moved (nodes : List Tree) :
      (nodes.map Tree.placeless).foldlM step spec = nodes.foldlM step spec := by
    rw [List.foldlM_map]
    simp only [placeless]
  rw [← moved nodes, ← moved nodes', foldlM_perm alone perm]

/-- A step that reads the rule and the name first and then declares what it has read. -/
theorem ReadsAlone.of_reads {node : Tree} (rule : Except Error Rule) (name : Except Error String)
    (reads : ∀ spec, step spec node = do
      let rule ← rule
      spec.production (← name) (.ok rule)) : ReadsAlone step node := by
  cases rule with
  | error fault => exact .inl ⟨fault, reads⟩
  | ok rule =>
    cases name with
    | error fault => exact .inl ⟨fault, reads⟩
    | ok name => exact .inr ⟨(name, rule), reads⟩

end Steps

section Rules

/-- The step of a notation whose rules have four parts, of which the first is the name and the
third the expression. -/
def foldFour (language kind : String) (read : Tree → Except Error Rule) (spec : Specification) :
    Tree → Except Error Specification
  | node@(.named name body) =>
      if name = kind then
        match body with
        | .array [defined, _, expression, _] => do
            let rule ← read expression
            spec.production (← defined.leafName language kind) (.ok rule)
        | other => other.defect language kind
      else node.defect language kind
  | node => node.defect language kind

theorem ebnf_foldRule_eq :
    Ebnf.foldRule = foldFour Ebnf.language "rule" Ebnf.foldAlternation := rfl

theorem peg_foldRule_eq : Peg.foldRule = foldFour Peg.language "rule" Peg.foldNamed := rfl

theorem wsn_foldRule_eq : Wsn.foldRule = foldFour Wsn.language "production" Wsn.foldNamed := rfl

theorem readsAlone_foldFour (language kind : String) (read : Tree → Except Error Rule)
    (node : Tree) : ReadsAlone (foldFour language kind read) node := by
  match node with
  | .token _ | .array _ => exact .inl ⟨_, fun _ => rfl⟩
  | .named name body =>
    by_cases named : name = kind
    · subst named
      by_cases parts :
          ∃ defined sign expression last, body = .array [defined, sign, expression, last]
      · obtain ⟨defined, _, expression, _, rfl⟩ := parts
        exact .of_reads (read expression) (defined.leafName language name) fun _ => if_pos rfl
      · refine .inl ⟨.structural language name body.shape, fun spec => ?_⟩
        simp only [foldFour, if_true]
        split
        · exact absurd ⟨_, _, _, _, rfl⟩ parts
        · rfl
    · exact .inl ⟨_, fun _ => if_neg named⟩

theorem foldFour_placeless {language kind : String} {read : Tree → Except Error Rule}
    (each : ∀ tree, read (Tree.placeless tree) = read tree) (spec : Specification) :
    ∀ node : Tree,
      foldFour language kind read spec node.placeless = foldFour language kind read spec node
  | .token _ => rfl
  | .array nodes => Tree.defect_placeless language kind (.array nodes)
  | .named name (.array [defined, _, expression, _]) => by
      simp only [Tree.placeless, Tree.placelessAll, foldFour, each, Tree.leafName_placeless]
      rfl
  | .named name (.array (first :: second :: third :: fourth :: fifth :: more)) =>
      congrArg (if name = kind then · else _)
        (Tree.defect_placeless language kind
          (.array (first :: second :: third :: fourth :: fifth :: more)))
  | .named name (.array []) | .named name (.array [_]) | .named name (.array [_, _])
  | .named name (.array [_, _, _]) | .named name (.token _) | .named name (.named _ _) => rfl

theorem readsAlone_bnf (node : Tree) : ReadsAlone Bnf.foldRule node := by
  match node with
  | .token _ | .array _ => exact .inl ⟨_, fun _ => rfl⟩
  | .named name body =>
    by_cases named : name = "rule"
    · subst named
      by_cases parts : ∃ first defined second third expression last,
          body = .array [first, defined, second, third, expression, last]
      · obtain ⟨_, defined, _, _, expression, _, rfl⟩ := parts
        match expression with
        | .token _ | .array _ => exact .inl ⟨_, fun _ => rfl⟩
        | .named kind inner =>
          by_cases kinds : kind = "expression"
          · subst kinds
            exact .of_reads (Bnf.foldExpression inner) (defined.leafName Bnf.language "rule")
              fun _ => rfl
          · exact .inl ⟨_, fun _ => if_neg kinds⟩
      · refine .inl ⟨.structural Bnf.language "rule" body.shape, fun spec => ?_⟩
        simp only [Bnf.foldRule, if_true]
        split
        · exact absurd ⟨_, _, _, _, _, _, rfl⟩ parts
        · rfl
    · exact .inl ⟨_, fun _ => if_neg named⟩

theorem bnf_foldRule_placeless (spec : Specification) :
    ∀ node : Tree, Bnf.foldRule spec node.placeless = Bnf.foldRule spec node
  | .token _ => rfl
  | .array nodes => Tree.defect_placeless Bnf.language "rule" (.array nodes)
  | .named name (.array [_, defined, _, _, .named kind inner, _]) => by
      simp only [Tree.placeless, Tree.placelessAll, Bnf.foldRule, Bnf.foldExpression_placeless,
        Tree.leafName_placeless]
      rfl
  | .named name (.array [_, _, _, _, .array nodes, _]) =>
      congrArg (if name = "rule" then · else _)
        (Tree.defect_placeless Bnf.language "expression" (.array nodes))
  | .named name
      (.array (first :: second :: third :: fourth :: fifth :: sixth :: seventh :: more)) =>
      congrArg (if name = "rule" then · else _)
        (Tree.defect_placeless Bnf.language "rule"
          (.array (first :: second :: third :: fourth :: fifth :: sixth :: seventh :: more)))
  | .named name (.array [_, _, _, _, .token _, _]) | .named name (.array [])
  | .named name (.array [_]) | .named name (.array [_, _]) | .named name (.array [_, _, _])
  | .named name (.array [_, _, _, _]) | .named name (.array [_, _, _, _, _])
  | .named name (.token _) | .named name (.named _ _) => rfl

end Rules

/-- The trees are those of grammars with the same rules in some order, wherever these stand. -/
inductive Reordered : Notation → Tree → Tree → Prop where
  | bnf {start start' : Tree} {rules rules' : List Tree}
      (perm : (rules.map Tree.placeless).Perm (rules'.map Tree.placeless)) :
      Reordered bnf (.array [start, .array rules]) (.array [start', .array rules'])
  | ebnf {rules rules' : List Tree}
      (perm : (rules.map Tree.placeless).Perm (rules'.map Tree.placeless)) :
      Reordered ebnf (.array rules) (.array rules')
  | peg {rules rules' : List Tree}
      (perm : (rules.map Tree.placeless).Perm (rules'.map Tree.placeless)) :
      Reordered peg (.array rules) (.array rules')
  | wsn {rules rules' : List Tree}
      (perm : (rules.map Tree.placeless).Perm (rules'.map Tree.placeless)) :
      Reordered wsn (.array rules) (.array rules')

namespace Reordered

variable {language : Notation} {tree tree' : Tree} (reordered : Reordered language tree tree')

include reordered

/-- The order of the rules of a grammar does not matter to what it is folded into. -/
theorem foldGrammar_iff (spec : Specification) :
    language.foldGrammar tree = .ok spec ↔ language.foldGrammar tree' = .ok spec := by
  cases reordered with
  | bnf perm => exact foldlM_placeless_perm readsAlone_bnf bnf_foldRule_placeless perm
  | ebnf perm =>
    exact foldlM_placeless_perm (ebnf_foldRule_eq ▸ readsAlone_foldFour _ _ _)
      (ebnf_foldRule_eq ▸ foldFour_placeless Ebnf.foldAlternation_placeless) perm
  | peg perm =>
    exact foldlM_placeless_perm (peg_foldRule_eq ▸ readsAlone_foldFour _ _ _)
      (peg_foldRule_eq ▸ foldFour_placeless Peg.foldNamed_placeless) perm
  | wsn perm =>
    exact foldlM_placeless_perm (wsn_foldRule_eq ▸ readsAlone_foldFour _ _ _)
      (wsn_foldRule_eq ▸ foldFour_placeless Wsn.foldNamed_placeless) perm

/-- The order of the rules of a grammar does not matter to its parser. -/
theorem parser_iff (ignore : List LexRule) (parser : Parser) :
    (language.foldGrammar tree).map (fun spec => (spec.ignoringAll ignore).parser) = .ok parser ↔
      (language.foldGrammar tree').map (fun spec => (spec.ignoringAll ignore).parser) =
        .ok parser := by
  have mapped (result : Except Error Specification) :
      result.map (fun spec => (spec.ignoringAll ignore).parser) = .ok parser ↔
        ∃ spec, result = .ok spec ∧ (spec.ignoringAll ignore).parser = parser := by
    cases result <;> simp [Except.map]
  rw [mapped, mapped]
  simp only [reordered.foldGrammar_iff]

/-- Texts of grammars with the same rules in any order are compiled to the same parser, or none of
them is compiled. -/
theorem compile_iff {text text' : Text}
    (parsed : language.parser.parseAll language.grammarProduction text = .ok tree)
    (parsed' : language.parser.parseAll language.grammarProduction text' = .ok tree')
    (ignore : List LexRule) (parser : Parser) :
    language.compile text ignore = .ok parser ↔ language.compile text' ignore = .ok parser := by
  rw [compile, compile, Notation.read, Notation.read, parsed, parsed']
  exact reordered.parser_iff ignore parser

end Reordered

end Packrat.Notation

namespace Packrat.Specification

/-- Calls that declare the same productions in any order, one by one or several at once, all fail
if a production has no name or one that is taken, and otherwise all come to the same table. So it
is with the rules of a grammar: in any order they have the same productions and the same parser, or
none. -/
theorem declarations_in_any_order :
    (∀ (spec : Specification) (entries : List (String × Rule)) (steps : List Declaration),
      (steps.flatMap Declaration.entries).Perm entries →
        (¬ spec.Admits entries →
          ∃ fault, spec.declareSteps steps = .error (.construction fault)) ∧
        (spec.Admits entries → spec.declareSteps steps = .ok (spec.withAll entries))) ∧
    ∀ (language : Notation) (tree tree' : Tree), Notation.Reordered language tree tree' →
      (∀ spec, language.foldGrammar tree = .ok spec ↔ language.foldGrammar tree' = .ok spec) ∧
      ∀ ignore parser,
        (language.foldGrammar tree).map (fun spec => (spec.ignoringAll ignore).parser) =
            .ok parser ↔
          (language.foldGrammar tree').map (fun spec => (spec.ignoringAll ignore).parser) =
            .ok parser := by
  refine ⟨fun spec entries steps perm => ?_, fun language tree tree' reordered =>
    ⟨reordered.foldGrammar_iff, reordered.parser_iff⟩⟩
  rw [declareSteps_eq]
  constructor
  · intro refused
    exact declareEach_of_not_admits fun admits => refused (admits.perm perm)
  · intro admits
    rw [declareEach_of_admits (admits.perm perm.symm), admits.withAll_perm perm.symm]

/-- The tree of a rule in Wirth's notation whose only factor is a name. -/
private def wirthRule (name target : String) (offset : Nat) : Tree :=
  .named "production" (.array
    [.token ⟨.rule "identifier", name.toList, offset⟩, .token ⟨.rule "=", ['='], offset + 1⟩,
     .named "expression" (.array
       [.named "term" (.array
         [.named "factor" (.named "identifier"
           (.token ⟨.rule "identifier", target.toList, offset + 2⟩))]),
        .array []]),
     .token ⟨.rule ".", ['.'], offset + 3⟩])

theorem declarations_in_any_order_swapped :
    let entries : List (String × Rule) := [("a", .reference "b"), ("b", .reference "a")]
    Specification.empty.declareSteps
        [.one "b" (.reference "a"), .all (.ofList [("a", .reference "b")])] =
      .ok (Specification.empty.withAll entries) ∧
    (∃ fault, Specification.empty.declareSteps
        [.one "a" (.reference "b"), .all (.ofList [("a", .reference "b")])] =
      .error (.construction fault)) ∧
    Notation.wsn.foldGrammar (.array [wirthRule "b" "a" 0, wirthRule "a" "b" 4]) =
      .ok (Specification.empty.withAll entries) := by
  intro entries
  obtain ⟨declared, folded⟩ := declarations_in_any_order
  have admits : Specification.empty.Admits entries := ⟨by decide, fun _ _ => rfl, by decide⟩
  have swapped : Notation.Reordered .wsn (.array [wirthRule "a" "b" 0, wirthRule "b" "a" 4])
      (.array [wirthRule "b" "a" 0, wirthRule "a" "b" 4]) :=
    .wsn (List.Perm.swap (wirthRule "b" "a" 0).placeless (wirthRule "a" "b" 0).placeless [])
  refine ⟨(declared .empty entries
      [.one "b" (.reference "a"), .all (.ofList [("a", .reference "b")])]
      (List.Perm.swap _ _ [])).2 admits,
    (declared .empty _ [.one "a" (.reference "b"), .all (.ofList [("a", .reference "b")])]
      (List.Perm.refl _)).1 fun twice => ?_, ((folded .wsn _ _ swapped).1 _).mp rfl⟩
  exact absurd twice.unique (by decide)

end Packrat.Specification
