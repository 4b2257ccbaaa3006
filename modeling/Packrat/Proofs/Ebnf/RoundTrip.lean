import Packrat.Proofs.Ebnf.Recognition

/-! # Written grammars compile to what they denote

A grammar of any number of rules that is rendered with white space and comments between its words
compiles, and its productions are the rules that the written alternations denote.
-/

namespace Packrat.Notation.Ebnf

section Rules

variable {text rest : Text}

/-- The tree of a rule declares a production. -/
private def Declares (definition : Definition) (tree : Tree) : Prop :=
  ∀ spec, foldRule spec tree =
    spec.production definition.name.string (.ok definition.body.denote)

/-- Either mark closes a rule, after what is skipped before it. -/
theorem takes_closing {mark : String} (among : Rule.text mark ∈ [.text ";", .text "."])
    (filled : mark.toList ≠ []) {run : Text}
    (skips : Skips grammar.ignore run (mark.toList ++ rest)) :
    grammar.Takes (.choice [.text ";", .text "."]) (run ++ (mark.toList ++ rest)) rest
      fun _ => True := by
  obtain ⟨rank, ranked⟩ := ebnf_agrees.tame.ranked
  have exclusive := ebnf_agrees.tame.exclusive _ _ rule_declared [.text ";", .text "."]
    (by simp [Rule.choices, Rule.allChoices])
  refine Grammar.takes_choice exclusive among
    (fun rule _ cursor => Grammar.exists_gives ranked rule cursor) ?_
  exact (skips.takes_text filled).mono fun _ _ => trivial

private theorem takes_closing_of (definition : Definition) {run : Text} (gap : Gap IsComment run)
    (loose : Loose (Gap IsComment) rest) :
    grammar.Takes (.choice [.text ";", .text "."])
      (run ++ (definition.closing.toList ++ rest)) rest fun _ => True := by
  obtain ⟨name, body, semicolon⟩ := definition
  have skips {c : Char} (known : c ∈ marks) : Skips grammar.ignore run (c :: rest) :=
    skips_gap (clear_mark known loose) gap
  cases semicolon with
  | true => exact @takes_closing rest ";" (by simp) (by decide) _ (skips (c := ';') (by decide))
  | false => exact @takes_closing rest "." (by simp) (by decide) _ (skips (c := '.') (by decide))

private theorem leads_of_closing (definition : Definition) {run : Text}
    (gap : Gap IsComment run) :
    Leads (Gap IsComment) closers (run ++ (definition.closing.toList ++ rest)) := by
  obtain ⟨name, body, semicolon⟩ := definition
  cases semicolon with
  | true => exact .ofChar gap (show ";".toList = [';'] from rfl) (by simp [closers])
  | false => exact .ofChar gap (show ".".toList = ['.'] from rfl) (by simp [closers])

private theorem takes_rule (definition : Definition)
    (stands : Stands definition.words text rest) :
    grammar.Takes (.reference "rule") text rest (Declares definition) := by
  obtain ⟨run, middle, gap, rfl, loose, stands⟩ := Parted.cons_iff.mp stands
  obtain ⟨run', middle', gap', rfl, loose', stands⟩ := Parted.cons_iff.mp stands
  obtain ⟨middle'', inside, last⟩ := Parted.append_iff.mp stands
  obtain ⟨run'', rest', gap'', rfl, loose'', last⟩ := Parted.cons_iff.mp last
  cases last
  refine Grammar.takes_reference rule_declared (Grammar.takes_sequence ?_)
  refine .cons (takes_name gap loose definition.name) ?_
  rintro _ ⟨offset, rfl⟩
  refine .cons (takes_mark gap' loose' rfl (by decide)) fun equals _ => ?_
  refine .cons (takes_alternation definition.body inside (leads_of_closing definition gap''))
    fun node folded => ?_
  refine .cons (takes_closing_of definition gap'' loose'') fun mark _ => .nil fun spec => ?_
  simp only [foldRule, if_true, folded]
  rfl

private theorem takes_rules (definitions : List Definition)
    (stands : Stands (definitions.flatMap Definition.words) text rest)
    (gap : Gap IsComment rest) :
    grammar.TakesRounds (.reference "rule") text rest fun nodes =>
      List.Forall₂ Declares definitions nodes := by
  induction definitions generalizing text with
  | nil =>
    cases stands
    exact .done (refuses_of_leads shunning.rule (.ofGap gap _)) .nil
  | cons definition definitions ih =>
    obtain ⟨middle, here, more⟩ := Parted.append_iff.mp stands
    refine .next (takes_rule definition here) (here.length_lt definition.name.ne_nil) ?_
    intro node declares
    exact (ih more).mono fun nodes others => .cons declares others

end Rules

/-- A rendered grammar whose rules have distinct names compiles, and its productions are the rules
that the alternations denote, each under its name. -/
theorem compile_written {definitions : List Definition}
    (distinct : (definitions.map Definition.name).Nodup) {text : Text}
    (renders : Renders definitions text) (ignore : List LexRule) :
    ∃ parser, ebnf.compile text ignore = .ok parser ∧ ∀ name rule,
      parser.grammar.productions.find? name = some rule ↔ ∃ definition ∈ definitions,
        definition.name.string = name ∧ definition.body.denote = rule := by
  obtain ⟨rest, stands, gap⟩ := renders
  have takes : grammar.Takes (.reference "grammar") text rest fun tree =>
      ∃ nodes, tree = .named "grammar" (.array nodes) ∧
        List.Forall₂ Declares definitions nodes :=
    Grammar.takes_reference grammar_declared (Grammar.takes_repetition
      ((takes_rules definitions stands gap).mono fun nodes declares =>
        ⟨Nat.zero_le _, nodes, rfl, declares⟩))
  have nothing : Text.BeginsIn [] [] := .nil
  have ended : Skips grammar.ignore rest [] :=
    skips_gap (clear_of_avoids (by decide +kernel) nothing) gap
  obtain ⟨tree, parsed, nodes, same, declares⟩ := ended.parseAll takes
  obtain ⟨-, rfl⟩ := Tree.named.inj same
  have apart := Name.nodup_strings distinct
  obtain ⟨spec, folded, found⟩ := foldlM_declares declares
    (fun definition _ => definition.name.string_ne_empty) apart .empty
    fun definition _ => Table.find?_empty _
  have read : ebnf.read text = .ok spec := by
    rw [Notation.read, show ebnf.parser.parseAll ebnf.grammarProduction text = _ from parsed]
    exact folded
  refine ⟨(spec.ignoringAll ignore).parser, ?_, fun name rule => (found name rule).trans ?_⟩
  · rw [Notation.compile, read]
    rfl
  · simp [Specification.empty]

/-- A grammar of lists. One of its terminals looks like a comment. -/
def lists : List Definition :=
  let list : Name := ⟨"item-list".toList, rfl⟩
  let item : Name := ⟨"item_1".toList, rfl⟩
  let comma : Factor := .terminal .double [','] (List.cons_ne_nil _ _) (by decide)
  let remark : Factor := .terminal .single "(* x *)".toList (List.cons_ne_nil _ _) (by decide)
  let nested : Alternation := .more (.last (.reference item))
    (.last (.last (.option (.last (.last (.reference list))))))
  [⟨list, .last (.more (.reference item)
      (.last (.repeat (.last (.more comma (.last (.group nested))))))), true⟩,
   ⟨item, .more (.last remark) (.last (.last comma)), false⟩]

theorem compile_written_lists :
    (lists.map Definition.name).Nodup ∧ Renders lists (print "(*(**)".toList lists) ∧
      ∃ parser, ebnf.compile (print "(*(**)".toList lists) [] = .ok parser ∧
        parser.grammar.productions.find? "item-list" = some (.sequence [.reference "item_1",
          .zeroOrMore (.sequence [.text ",",
            .choice [.reference "item_1", .optional (.reference "item-list")]])]) ∧
        parser.grammar.productions.find? "item_1" =
          some (.choice [.text "(* x *)", .text ","]) := by
  have distinct : (lists.map Definition.name).Nodup := by decide
  have comment : IsComment "(*(**)".toList := ⟨['(', '*'], rfl, by decide⟩
  have renders := renders_print comment lists
  obtain ⟨parser, compiled, found⟩ := compile_written distinct renders []
  refine ⟨distinct, renders, parser, compiled, (found _ _).mpr ?_, (found _ _).mpr ?_⟩
  · exact ⟨_, List.mem_cons_self .., rfl, rfl⟩
  · exact ⟨_, List.mem_cons_of_mem _ (List.mem_cons_self ..), rfl, rfl⟩

end Packrat.Notation.Ebnf
