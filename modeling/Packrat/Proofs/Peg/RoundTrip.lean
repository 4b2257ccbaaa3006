import Packrat.Proofs.Peg.Recognition

/-! # Written grammars compile to what they denote

A grammar that is rendered with blanks between its words compiles, and its productions are the
rules that the written expressions denote, whether or not a rule ends with a mark.
-/

namespace Packrat.Notation.Peg

section Rules

variable {text rest : Text}

theorem rule_declared : grammar.productions.find? "rule" = some (.sequence
    [.token "identifier", .text "<-", .reference "expression", .optional (.text ";")]) :=
  (Table.find?_ofList _ _).trans rfl

theorem grammar_declared :
    grammar.productions.find? "grammar" = some (.oneOrMore (.reference "rule")) :=
  (Table.find?_ofList _ _).trans rfl

/-- The tree of a rule declares a production. -/
private def Declares (definition : Definition) (tree : Tree) : Prop :=
  ∀ spec, foldRule spec tree =
    spec.production definition.name.string (.ok definition.body.denote)

/-- A rule is taken if neither more of its expression nor a mark comes next. -/
private theorem takes_rule (definition : Definition)
    (spaced : Spaced Breaks definition.words text rest) (ended : Ended rest)
    (unmarked : grammar.Refuses (.text ";") rest) :
    grammar.Takes (.reference "rule") text rest (Declares definition) := by
  obtain ⟨name, body, closed⟩ := definition
  obtain ⟨run, middle, blank, rfl, breaks, spaced⟩ := Spaced.cons_iff.mp spaced
  obtain ⟨run', middle', blank', rfl, -, spaced⟩ := Spaced.cons_iff.mp spaced
  obtain ⟨middle'', inside, last⟩ := Spaced.append_iff.mp spaced
  have next : Ended middle'' ∧
      grammar.Takes (.optional (.text ";")) middle'' rest fun _ => True := by
    cases closed with
    | true =>
      obtain ⟨run'', rest', blank'', rfl, -, last⟩ := Spaced.cons_iff.mp last
      cases last
      have leads : Leads [.single ')', .single ';'] (run'' ++ (";".toList ++ rest)) :=
        leads_of_mark ';' rfl blank'' (by simp)
      exact ⟨ended_of_leads leads,
        Grammar.takes_optional ((takes_mark blank'' rfl (by decide)).mono fun _ _ => trivial)⟩
    | false =>
      cases last
      exact ⟨ended, Grammar.takes_without unmarked fun _ => trivial⟩
  refine Grammar.takes_reference rule_declared (Grammar.takes_sequence ?_)
  refine .cons (takes_name blank name (beginsIn_of_breaks breaks (by simp))) ?_
  rintro _ ⟨offset, rfl⟩
  refine .cons (takes_mark blank' rfl (by decide)) fun arrow _ => ?_
  refine .cons (takes_expression body inside next.1) fun node folded => ?_
  refine .cons next.2 fun mark _ => .nil fun spec => ?_
  simp only [foldRule, if_true, folded]
  rfl

/-- What comes after a rule: more rules, or blanks up to the end. -/
private theorem ended_after (definitions : List Definition)
    (spaced : Spaced Breaks (definitions.flatMap Definition.words) text rest)
    (blank : ∀ c ∈ rest, CharClass.isBlank c = true) :
    Ended text ∧ grammar.Refuses (.text ";") text := by
  cases definitions with
  | nil =>
    cases spaced
    exact ⟨ended_of_leads (leads_of_blank blank _),
      refuses_of_leads shunning.closer (leads_of_blank blank _)⟩
  | cons definition definitions =>
    obtain ⟨run, middle, blank', same, -, -⟩ := Spaced.cons_iff.mp spaced
    have leads : Leads [nameStarts] text := by
      rw [same]
      exact leads_of_name blank' definition.name (List.mem_singleton_self _)
    exact ⟨ended_of_rule spaced, refuses_of_leads shunning.closer leads⟩

private theorem takes_rules (definitions : List Definition)
    (spaced : Spaced Breaks (definitions.flatMap Definition.words) text rest)
    (blank : ∀ c ∈ rest, CharClass.isBlank c = true) :
    grammar.TakesRounds (.reference "rule") text rest fun nodes =>
      List.Forall₂ Declares definitions nodes := by
  induction definitions generalizing text with
  | nil =>
    cases spaced
    exact .done (refuses_of_leads shunning.rule (leads_of_blank blank _)) .nil
  | cons definition definitions ih =>
    obtain ⟨middle, here, more⟩ := Spaced.append_iff.mp spaced
    obtain ⟨ended, unmarked⟩ := ended_after definitions more blank
    have filled : definition.name.1 ≠ [] := by
      obtain ⟨c, others, same, -⟩ := definition.name.eq_cons
      rw [same]
      exact List.cons_ne_nil c others
    refine .next (takes_rule definition here ended unmarked) (Spaced.length_lt filled here) ?_
    intro node declares
    exact (ih more).mono fun nodes others => .cons declares others

end Rules

/-- A rendered grammar whose rules have distinct names compiles, and its productions are the rules
that the expressions denote, each under its name. -/
theorem compile_rendered {definitions : List Definition} (some : definitions ≠ [])
    (distinct : (definitions.map Definition.name).Nodup) {text : Text}
    (renders : Renders definitions text) (ignore : List LexRule) :
    ∃ parser, peg.compile text ignore = .ok parser ∧ ∀ name rule,
      parser.grammar.productions.find? name = .some rule ↔ ∃ definition ∈ definitions,
        definition.name.string = name ∧ definition.body.denote = rule := by
  obtain ⟨rest, spaced, blank⟩ := renders
  have rounds : grammar.TakesRounds (.reference "rule") text rest fun nodes =>
      1 ≤ nodes.length ∧ List.Forall₂ Declares definitions nodes :=
    (takes_rules definitions spaced blank).mono fun nodes declares =>
      ⟨declares.length_eq ▸ List.length_pos_of_ne_nil some, declares⟩
  have takes : grammar.Takes (.reference "grammar") text rest fun tree =>
      ∃ nodes, tree = .named "grammar" (.array nodes) ∧
        List.Forall₂ Declares definitions nodes :=
    Grammar.takes_reference grammar_declared (Grammar.takes_repetition
      (rounds.mono fun nodes ⟨enough, declares⟩ => ⟨enough, nodes, rfl, declares⟩))
  obtain ⟨tree, parsed, nodes, same, declares⟩ :=
    Parser.parseAll_of_takes ignored (by decide +kernel) takes blank
  obtain ⟨-, rfl⟩ := Tree.named.inj same
  have apart : (definitions.map fun definition => definition.name.string).Nodup := by
    rw [show (fun definition => definition.name.string) = Name.string ∘ Definition.name from rfl,
      ← List.map_map]
    exact distinct.map fun _ _ same => Subtype.ext (String.ofList_injective same)
  obtain ⟨spec, folded, found⟩ := foldlM_declares declares
    (fun definition _ => definition.name.string_ne_empty) apart .empty
    fun definition _ => Table.find?_empty _
  have read : peg.read text = .ok spec := by
    rw [Notation.read, show peg.parser.parseAll peg.grammarProduction text = _ from parsed]
    exact folded
  refine ⟨(spec.ignoringAll ignore).parser, ?_, fun name rule => (found name rule).trans ?_⟩
  · rw [Notation.compile, read]
    rfl
  · simp [Specification.empty]

/-- A grammar of texts in quotes. Its first rule ends where the name of the second stands before
an arrow. -/
def quotations : List Definition :=
  let quoted : Name := ⟨"quoted".toList, rfl⟩
  let file : Name := ⟨"file".toList, rfl⟩
  let number : Name := ⟨"number".toList, rfl⟩
  let mark : Primary := .literal .single ['\'']
  let other : Expression := .last (.more (.of (some .absent) mark none) (.last (.of none .any none)))
  [⟨quoted, .last (.more (.of none mark none) (.more (.of none (.group other) (some .zeroOrMore))
      (.last (.of none mark none)))), false⟩,
   ⟨file, .more (.last (.of (some .ahead) (.reference quoted) (some .oneOrMore)))
      (.last (.more (.of none (.lexical number (by decide) false) none)
        (.last (.of none .endOfText none)))), true⟩]

theorem compile_rendered_quotations :
    quotations ≠ [] ∧ (quotations.map Definition.name).Nodup ∧
      Renders quotations
        "quoted <- '\\'' ( ! '\\'' . ) * '\\'' file <- & quoted + / <number> <EOF> ;".toList ∧
      ∃ parser, peg.compile
          "quoted <- '\\'' ( ! '\\'' . ) * '\\'' file <- & quoted + / <number> <EOF> ;".toList
          [] = .ok parser ∧
        parser.grammar.productions.find? "quoted" = some (.sequence
          [.text "'", .zeroOrMore (.sequence [.absent (.text "'"), .anyChar]), .text "'"]) ∧
        parser.grammar.productions.find? "file" = some (.ordered
          [.ahead (.oneOrMore (.reference "quoted")), .sequence [.token "number", .endOfText]]) := by
  have distinct : (quotations.map Definition.name).Nodup := by decide
  have renders := renders_print quotations
  obtain ⟨parser, compiled, found⟩ := compile_rendered (List.cons_ne_nil _ _) distinct renders []
  refine ⟨List.cons_ne_nil _ _, distinct, renders, parser, compiled, (found _ _).mpr ?_,
    (found _ _).mpr ?_⟩
  · exact ⟨_, List.mem_cons_self .., rfl, rfl⟩
  · exact ⟨_, List.mem_cons_of_mem _ (List.mem_cons_self ..), rfl, rfl⟩

end Packrat.Notation.Peg
