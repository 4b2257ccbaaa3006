import Packrat.Proofs.Bnf.Recognition

/-! # Written grammars compile to what they denote

A grammar of one rule or more that is rendered on its lines compiles, and its productions are the
rules that the written alternatives denote. Where a rule ends is known only after the line ends
that follow it, by the mark at the front of the next line.
-/

namespace Packrat.Notation.Bnf

open Peg (oneOr)

section Rules

variable {words : List Text} {text rest : Text}

/-- The tree of a rule declares a production. -/
private def Declares (definition : Definition) (tree : Tree) : Prop :=
  ∀ spec, foldRule spec tree = spec.production definition.name.string (.ok definition.denote)

private theorem takes_rule {definition : Definition} (writes : WritesRule definition words)
    (stands : Stands words text rest) {left : Text} (ended : Ended rest left) :
    grammar.Takes (.reference "rule") text left (Declares definition) := by
  obtain ⟨body⟩ := writes
  obtain ⟨run, middle, blank, rfl, -, stands⟩ := Parted.cons_iff.mp stands
  obtain ⟨run', middle', blank', rfl, -, stands⟩ := Parted.cons_iff.mp stands
  have closes := beginsIn_of_mark stands
  obtain ⟨run'', middle'', blank'', rfl, -, stands⟩ := Parted.cons_iff.mp stands
  obtain ⟨run₃, middle₃, blank₃, rfl, -, inside⟩ := Parted.cons_iff.mp stands
  refine Grammar.takes_reference rule_declared (Grammar.takes_sequence ?_)
  refine .cons (takes_mark blank rfl (by decide)) fun opening _ => ?_
  refine .cons (takes_name blank' definition.name closes) ?_
  rintro _ ⟨offset, rfl⟩
  refine .cons (takes_mark blank'' rfl (by decide)) fun closing _ => ?_
  refine .cons (takes_mark blank₃ rfl (by decide)) fun defines _ => ?_
  refine .cons (takes_expression body inside ended) ?_
  rintro _ ⟨inner, rfl, folded⟩
  refine .cons ended.takes fun turn _ => .nil fun spec => ?_
  simp only [foldRule, if_true, folded]
  rfl

private theorem WritesRule.length_lt {definition : Definition}
    (writes : WritesRule definition words) (stands : Stands words text rest) :
    rest.length < text.length := by
  cases writes
  exact stands.length_lt (by decide)

/-- A rule begins with the mark that opens its name. -/
private theorem leads_of_rules {definitions : List Definition}
    (writes : WritesRules definitions words) (stands : Stands words text rest) :
    Leads Spaces [.single '<'] text := by
  have opens {definition : Definition} {words others : List Text}
      (writes : WritesRule definition words) (stands : Stands (words ++ others) text rest) :
      Leads Spaces [.single '<'] text := by
    cases writes
    exact leads_of_mark stands (c := '<') rfl (List.mem_singleton_self _)
  cases writes with
  | last here => exact opens here stands
  | more here => exact opens here stands

/-- Rules are taken one by one, each with the line ends after it. -/
private theorem takes_rules {definitions : List Definition}
    (writes : WritesRules definitions words) (stands : Stands words text rest)
    (blank : Spaces rest) :
    grammar.TakesRounds (.reference "rule") text rest
      (List.Forall₂ Declares definitions) := by
  induction writes generalizing text with
  | last here breaks =>
    obtain ⟨middle, front, back⟩ := Parted.append_iff.mp stands
    have ended : Ended middle rest := by
      cases breaks with
      | none =>
        cases back
        exact .text blank
      | lines ends =>
        obtain ⟨run, middle', blank', rfl, -, last⟩ := Parted.cons_iff.mp back
        cases last
        exact .line blank' ends (.ofGap blank _)
    refine .next (takes_rule here front ended)
      (back.length_le.trans_lt (here.length_lt front)) fun node declares => ?_
    exact .done (refuses_of_leads shunning.rule (.ofGap blank _)) (.cons declares .nil)
  | more here ends others ih =>
    obtain ⟨middle, front, back⟩ := Parted.append_iff.mp stands
    have shorter := here.length_lt front
    obtain ⟨run, middle', blank', rfl, -, more⟩ := Parted.cons_iff.mp back
    have ended : Ended _ middle' := .line blank' ends (leads_of_rules others more)
    refine .next (takes_rule here front ended) (lt_of_le_of_lt ?_ shorter) fun node declares => ?_
    · simp only [List.length_append]
      omega
    · exact (ih more).mono fun nodes there => .cons declares there

end Rules

/-- A rendered grammar whose rules have distinct names compiles, and its productions are the rules
that the alternatives denote, each under its name. -/
theorem compile_lines {definitions : List Definition}
    (distinct : (definitions.map Definition.name).Nodup) {text : Text}
    (renders : Renders definitions text) (ignore : List LexRule) :
    ∃ parser, bnf.compile text ignore = .ok parser ∧ ∀ name rule,
      parser.grammar.productions.find? name = some rule ↔ ∃ definition ∈ definitions,
        definition.name.string = name ∧ definition.denote = rule := by
  obtain ⟨turn, words, rest, breaks, writes, stands, blank⟩ := renders
  obtain ⟨middle, line, inside⟩ := Parted.append_iff.mp stands
  have resumes : Resumes middle :=
    (leads_of_rules writes inside).mono (List.cons_subset_cons _ (List.nil_subset _))
  have repeated : grammar.Takes (.oneOrMore (.reference "rule")) middle rest fun tree =>
      ∃ nodes, tree = .array nodes ∧ List.Forall₂ Declares definitions nodes := by
    refine Grammar.takes_repetition
      ((takes_rules writes inside blank).mono fun nodes declares => ?_)
    refine ⟨declares.length_eq ▸ List.length_pos_of_ne_nil ?_, nodes, rfl, declares⟩
    cases writes <;> exact List.cons_ne_nil _ _
  have takes : grammar.Takes (.reference "syntax") text rest fun tree => ∃ first nodes,
      tree = .named "syntax" (.array [first, .array nodes]) ∧
        List.Forall₂ Declares definitions nodes := by
    refine Grammar.takes_reference syntax_declared (Grammar.takes_sequence ?_)
    refine .cons (takes_break breaks line resumes) fun first _ => .cons repeated ?_
    rintro _ ⟨nodes, rfl, declares⟩
    exact .nil ⟨first, nodes, rfl, declares⟩
  have ended : Skips grammar.ignore rest [] :=
    skips_spaces (clear_of_avoids (avoids_of_apart rfl) (@Text.BeginsIn.nil [])) blank
  obtain ⟨tree, parsed, first, nodes, same, declares⟩ := ended.parseAll takes
  obtain ⟨-, rfl⟩ := Tree.named.inj same
  exact compile_of_declares bnf foldRule parsed rfl declares
    (fun definition _ => definition.name.string_ne_empty) (Name.nodup_strings distinct) ignore

/-- A grammar of lists. The first rule is broken before its bar. -/
def lists : List Definition :=
  let list : Name := ⟨"list".toList, rfl⟩
  let item : Name := ⟨"item_1-b".toList, rfl⟩
  let nonempty : Branch := ⟨[.reference item, .literal ['"', '\'', '\n']], List.cons_ne_nil _ _⟩
  let empty : Branch := ⟨[.literal []], List.cons_ne_nil _ _⟩
  let plain : Branch := ⟨[.literal ['\\', '"']], List.cons_ne_nil _ _⟩
  [⟨list, [nonempty, empty], List.cons_ne_nil _ _⟩, ⟨item, [plain], List.cons_ne_nil _ _⟩]

/-- The grammar with blank lines, both kinds of line ends and no end of the last line. -/
def listsText : Text :=
  " \n\r\n<list> ::= < item_1-b>'\"\\'\\n'\r\n \n\t| \"\" \n\n<item_1-b>::='\\\\\"'  ".toList

/-- The words of the text with the spaces before them. -/
private def listsPairs : List (Text × Text) :=
  [([' '], ['\n', '\r', '\n']), ([], "<".toList), ([], "list".toList), ([], ">".toList),
    ([' '], "::=".toList), ([' '], "<".toList), ([' '], "item_1-b".toList), ([], ">".toList),
    ([], enclose .single ['"', '\\', '\'', '\\', 'n']), ([], ['\r', '\n', ' ', '\n']),
    (['\t'], "|".toList), ([' '], enclose .double []), ([' '], ['\n', '\n']),
    ([], "<".toList), ([], "item_1-b".toList), ([], ">".toList), ([], "::=".toList),
    ([], enclose .single ['\\', '\\', '"'])]

private theorem listsText_eq : listsText = lay listsPairs [' ', ' '] := by decide +kernel

private theorem renders_listsText : Renders lists listsText := by
  have first : LineEnds ['\n', '\r', '\n'] := @LineEnds.more false [] _ nofun (.one true)
  have second : LineEnds ['\r', '\n', ' ', '\n'] :=
    @LineEnds.more true [' '] _ (List.forall_mem_singleton.mpr rfl) (.one false)
  have third : LineEnds ['\n', '\n'] := @LineEnds.more false [] _ nofun (.one false)
  have marks : Spelled .single ['"', '\'', '\n'] ['"', '\\', '\'', '\\', 'n'] :=
    .plain (by decide) (.escaped (by simp) (.newline .nil))
  have nothing : Spelled .double [] [] := .nil
  have backslash : Spelled .single ['\\', '"'] ['\\', '\\', '"'] :=
    .escaped (by simp) (.plain (by decide) .nil)
  have writes : WritesRules lists _ :=
    .more (.rule (.more (.cons .reference (.cons (.literal marks) .nil)) (.lines second)
        (.last (.cons (.literal nothing) .nil)))) third
      (.last (.rule (.last (.cons (.literal backslash) .nil))) .none)
  have all : (listsPairs.all fun pair => pair.1.all isSpace) = true := by decide
  have blank : ∀ pair ∈ listsPairs, Spaces pair.1 := fun pair member =>
    List.all_eq_true.mp (List.all_eq_true.mp all pair member)
  refine ⟨_, _, [' ', ' '], .lines first, writes, ?_, List.all_eq_true.mp rfl⟩
  rw [listsText_eq]
  exact stands_lay blank [' ', ' ']

theorem compile_lines_lists :
    (lists.map Definition.name).Nodup ∧ Renders lists listsText ∧
      ∃ parser, bnf.compile listsText [] = .ok parser ∧
        parser.grammar.productions.find? "list" = some (.choice
          [.sequence [.reference "item_1-b", .text "\"'\n"], .empty]) ∧
        parser.grammar.productions.find? "item_1-b" = some (.text "\\\"") := by
  have distinct : (lists.map Definition.name).Nodup := by decide
  obtain ⟨parser, compiled, found⟩ := compile_lines distinct renders_listsText []
  refine ⟨distinct, renders_listsText, parser, compiled, (found _ _).mpr ?_, (found _ _).mpr ?_⟩
  · exact ⟨_, List.mem_cons_self .., rfl, rfl⟩
  · exact ⟨_, List.mem_cons_of_mem _ (List.mem_cons_self ..), rfl, rfl⟩

end Packrat.Notation.Bnf
