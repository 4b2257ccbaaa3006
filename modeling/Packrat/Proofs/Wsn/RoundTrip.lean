import Packrat.Proofs.Wsn.Recognition

/-! # Written grammars compile to what they denote

A grammar of any number of productions that is rendered with white space between its words
compiles, and its productions are the rules that the written expressions denote.
-/

namespace Packrat.Notation.Wsn

section Productions

variable {text rest : Text}

/-- The tree of a production declares it. -/
private def Declares (definition : Definition) (tree : Tree) : Prop :=
  ∀ spec, foldRule spec tree =
    spec.production definition.name.string (.ok definition.body.denote)

private theorem takes_production (definition : Definition)
    (stands : Stands definition.words text rest) :
    grammar.Takes (.reference "production") text rest (Declares definition) := by
  obtain ⟨run, middle, blank, rfl, loose, stands⟩ := Parted.cons_iff.mp stands
  obtain ⟨run', middle', blank', rfl, -, stands⟩ := Parted.cons_iff.mp stands
  obtain ⟨middle'', inside, last⟩ := Parted.append_iff.mp stands
  obtain ⟨run'', rest', blank'', rfl, -, last⟩ := Parted.cons_iff.mp last
  cases last
  have leads : Leads Blank closers (run'' ++ (".".toList ++ rest)) :=
    .ofChar (c := '.') blank'' rfl (by simp [closers])
  refine Grammar.takes_reference production_declared (Grammar.takes_sequence ?_)
  refine .cons (takes_name blank definition.name loose) ?_
  rintro _ ⟨offset, rfl⟩
  refine .cons (takes_mark blank' rfl (by decide)) fun equals _ => ?_
  refine .cons (takes_expression definition.body inside leads) fun node folded => ?_
  refine .cons (takes_mark blank'' rfl (by decide)) fun period _ => .nil fun spec => ?_
  simp only [foldRule, if_true, folded]
  rfl

private theorem takes_productions (definitions : List Definition)
    (stands : Stands (definitions.flatMap Definition.words) text rest) (blank : Blank rest) :
    grammar.TakesRounds (.reference "production") text rest fun nodes =>
      List.Forall₂ Declares definitions nodes := by
  induction definitions generalizing text with
  | nil =>
    cases stands
    exact .done (refuses_of_leads shunning.production (.ofGap blank _)) .nil
  | cons definition definitions ih =>
    obtain ⟨middle, here, more⟩ := Parted.append_iff.mp stands
    refine .next (takes_production definition here) (here.length_lt definition.name.ne_nil) ?_
    intro node declares
    exact (ih more).mono fun nodes others => .cons declares others

end Productions

/-- A rendered grammar whose productions have distinct names compiles, and its productions are the
rules that the expressions denote, each under its name. -/
theorem compile_doubled {definitions : List Definition}
    (distinct : (definitions.map Definition.name).Nodup) {text : Text}
    (renders : Renders definitions text) (ignore : List LexRule) :
    ∃ parser, wsn.compile text ignore = .ok parser ∧ ∀ name rule,
      parser.grammar.productions.find? name = some rule ↔ ∃ definition ∈ definitions,
        definition.name.string = name ∧ definition.body.denote = rule := by
  obtain ⟨rest, stands, blank⟩ := renders
  have takes : grammar.Takes (.reference "syntax") text rest fun tree =>
      ∃ nodes, tree = .named "syntax" (.array nodes) ∧
        List.Forall₂ Declares definitions nodes :=
    Grammar.takes_reference syntax_declared (Grammar.takes_repetition
      ((takes_productions definitions stands blank).mono fun nodes declares =>
        ⟨Nat.zero_le _, nodes, rfl, declares⟩))
  obtain ⟨tree, parsed, nodes, same, declares⟩ :=
    Parser.parseAll_of_takes ignored (by decide +kernel) takes blank
  obtain ⟨-, rfl⟩ := Tree.named.inj same
  exact compile_of_declares wsn foldRule parsed rfl declares
    (fun definition _ => definition.name.string_ne_empty) (Name.nodup_strings distinct) ignore

/-- A grammar of quotations. Its literals begin with quotes, end with them or are made of them, and
stand side by side. -/
def quotations : List Definition :=
  let quotation : Name := ⟨"quotation".toList, rfl⟩
  let mark : Name := ⟨"mark_2".toList, rfl⟩
  let literal (text : Text) (filled : text ≠ []) : Factor := .literal text filled
  let quote := literal ['"'] (List.cons_ne_nil _ _)
  let twice := literal ['"', '"'] (List.cons_ne_nil _ _)
  let before := literal ['"', 'a'] (List.cons_ne_nil _ _)
  let after := literal ['a', '"'] (List.cons_ne_nil _ _)
  [⟨quotation, .more (.more quote (.more quote (.last twice)))
      (.last (.more before (.last (.repeat (.last (.more after (.last (.reference mark))))))))⟩,
   ⟨mark, .more (.last (.group (.last (.last twice))))
      (.last (.last (.option (.last (.last quote)))))⟩]

theorem compile_doubled_quotations :
    (quotations.map Definition.name).Nodup ∧ Renders quotations (print quotations) ∧
      ∃ parser, wsn.compile (print quotations) [] = .ok parser ∧
        parser.grammar.productions.find? "quotation" = some (.choice
          [.sequence [.text "\"", .text "\"", .text "\"\""],
            .sequence [.text "\"a",
              .zeroOrMore (.sequence [.text "a\"", .reference "mark_2"])]]) ∧
        parser.grammar.productions.find? "mark_2" =
          some (.choice [.text "\"\"", .optional (.text "\"")]) := by
  have distinct : (quotations.map Definition.name).Nodup := by decide
  have renders := renders_print quotations
  obtain ⟨parser, compiled, found⟩ := compile_doubled distinct renders []
  refine ⟨distinct, renders, parser, compiled, (found _ _).mpr ?_, (found _ _).mpr ?_⟩
  · exact ⟨_, List.mem_cons_self .., rfl, rfl⟩
  · exact ⟨_, List.mem_cons_of_mem _ (List.mem_cons_self ..), rfl, rfl⟩

end Packrat.Notation.Wsn
