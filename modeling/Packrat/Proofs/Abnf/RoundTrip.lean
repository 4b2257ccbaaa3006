import Packrat.Proofs.Abnf.Recognition

/-! # Written grammars compile to what they denote

A list of rules that is rendered with white space and comments between its words compiles if its
numeric values are short, and each name stands for the rule that its alternation denotes. Other
productions there are only for core rules. A numeric value of too many characters is refused.
-/

namespace Packrat.Notation.Abnf

open Peg (oneOr)

section Rules

variable {text rest : Text}

/-- A rule is taken if its alternation is, and gives its name the alternatives. -/
private theorem takes_rule_of {name : Name} {words : List Text}
    {branches : Except Error (List Rule)}
    (stands : Stands (name.1 :: "=".toList :: words) text rest)
    (takes : ∀ {text}, Stands words text rest → grammar.Takes (.reference "alternation") text rest
      fun tree => foldAlternation false tree = branches) :
    grammar.Takes (.reference "rule") text rest fun tree => ∀ rules,
      rules.find? name.string = none →
        foldRule rules tree = branches.map (rules.insert name.string) := by
  obtain ⟨run, middle, gap, rfl, loose, stands⟩ := Parted.cons_iff.mp stands
  obtain ⟨run', middle', gap', rfl, loose', stands⟩ := Parted.cons_iff.mp stands
  refine Grammar.takes_reference rule_declared (Grammar.takes_sequence ?_)
  refine .cons (takes_name gap loose name) ?_
  rintro _ ⟨offset, rfl⟩
  refine .cons (takes_definedAs gap' loose') ?_
  rintro _ ⟨offset', rfl⟩
  refine .cons (takes stands) fun node folded => .nil fun rules fresh => ?_
  have unknown : ¬ rules.contains name.string = true := by simp [Table.contains, fresh]
  simp only [foldRule, if_true, folded]
  cases branches with
  | error fault => rfl
  | ok branches => exact if_neg unknown

/-- The tree of a rule gives its name the alternatives. -/
private def Adds (definition : Definition Number.Short) (tree : Tree) : Prop :=
  ∀ rules, rules.find? definition.name.string = none →
    foldRule rules tree = .ok (rules.insert definition.name.string definition.body.denotes)

private theorem takes_rule (definition : Definition Number.Short)
    (stands : Stands definition.words text rest) (ended : Ended rest) :
    grammar.Takes (.reference "rule") text rest (Adds definition) :=
  takes_rule_of stands fun stands => takes_alternation definition.body stands ended

/-- What comes after a rule: more rules, or a gap up to the end. -/
private theorem ended_after {definitions : List (Definition Number.Short)}
    (stands : Stands (definitions.flatMap Definition.words) text rest)
    (gap : Gap IsComment rest) : Ended text := by
  cases definitions with
  | nil =>
    cases stands
    exact ended_of_leads (.ofGap gap _)
  | cons definition definitions => exact ended_of_rule stands

private theorem takes_rules (definitions : List (Definition Number.Short))
    (stands : Stands (definitions.flatMap Definition.words) text rest)
    (gap : Gap IsComment rest) :
    grammar.TakesRounds (.reference "rule") text rest fun nodes =>
      List.Forall₂ Adds definitions nodes := by
  induction definitions generalizing text with
  | nil =>
    cases stands
    exact .done (refuses_of_leads shunning.rule (.ofGap gap _)) .nil
  | cons definition definitions ih =>
    obtain ⟨middle, here, more⟩ := Parted.append_iff.mp stands
    refine .next (takes_rule definition here (ended_after more gap))
      (here.length_lt definition.name.ne_nil) ?_
    intro node adds
    exact (ih more).mono fun nodes others => .cons adds others

/-- Rules up to the end are parsed as a whole. -/
private theorem parseAll_of_rounds {all : List Tree → Prop} (gap : Gap IsComment rest)
    (rounds : grammar.TakesRounds (.reference "rule") text rest fun nodes =>
      1 ≤ nodes.length ∧ all nodes) :
    ∃ nodes, abnf.parser.parseAll abnf.grammarProduction text = .ok (.array nodes) ∧ all nodes := by
  have takes : grammar.Takes (.reference "rulelist") text rest fun tree =>
      ∃ nodes, tree = .named "rulelist" (.array nodes) ∧ all nodes :=
    Grammar.takes_reference rulelist_declared (Grammar.takes_repetition
      (rounds.mono fun nodes ⟨enough, there⟩ => ⟨enough, nodes, rfl, there⟩))
  have nothing : Text.BeginsIn [] [] := .nil
  have ended : Skips grammar.ignore rest [] :=
    skips_gap (clear_of_avoids (by decide +kernel) nothing) gap
  obtain ⟨tree, parsed, nodes, same, there⟩ := ended.parseAll takes
  obtain ⟨-, rfl⟩ := Tree.named.inj same
  exact ⟨nodes, parsed, there⟩

end Rules

section Tables

/-- The names of core rules are not empty, and no two are the same. -/
private theorem coreRules_names : "" ∉ coreRules.map (·.1) ∧ (coreRules.map (·.1)).Nodup := by
  decide +kernel

/-- Core rules are added where they are referred to and not defined. -/
theorem mem_borrowed_iff {rules : Table (List Rule)} {name : String} :
    name ∈ borrowed rules ↔ name ∈ coreRules.map (·.1) ∧ rules.find? name = none ∧
      ∃ entry ∈ rules.entries, name ∈ Rule.referencesAll entry.2 := by
  simp only [borrowed, List.mem_filter, Bool.and_eq_true, Table.contains, List.contains_iff_mem,
    List.mem_flatMap, Bool.not_eq_true', Option.isSome_eq_false_iff, Option.isNone_iff_eq_none]
  exact and_congr_right fun _ => and_comm

/-- Rules that all have alternatives make up a specification. Each name stands for its
alternatives, or it is that of a core rule. -/
theorem ofRules_declares {rules : Table (List Rule)}
    (named : ∀ entry ∈ rules.entries, entry.1 ≠ "")
    (filled : ∀ entry ∈ rules.entries, entry.2 ≠ []) :
    ∃ spec, ofRules rules = .ok spec ∧ ∀ key rule, spec.productions.find? key = some rule ↔
      (∃ entry ∈ rules.entries, entry.1 = key ∧ oneOr .ordered entry.2 = rule) ∨
      (key ∈ borrowed rules ∧ .token key = rule) := by
  obtain ⟨unnamed, apart⟩ := coreRules_names
  have known : ∀ name ∈ borrowed rules, name ≠ "" :=
    fun name member same => unnamed (same ▸ (mem_borrowed_iff.mp member).1)
  have tokens : List.Forall₂ (fun name node => ∀ spec : Specification,
      spec.production node (Rule.token? node) = spec.production name (.ok (.token name)))
      (borrowed rules) (borrowed rules) :=
    List.forall₂_same.mpr fun name member spec => by rw [Rule.token?, if_neg (known name member)]
  have distinct : ((borrowed rules).map id).Nodup := by
    rw [List.map_id]
    exact List.Nodup.filter _ apart
  -- the core rules come first, and none of them has the name of a rule
  obtain ⟨spec, folded, found⟩ := foldlM_declares tokens known distinct
    { Specification.empty with
      lexicon := Table.ofList (coreRules.map fun core => (core.1, LexRule.pattern core.2)) }
    fun name _ => Table.find?_empty name
  have fresh : ∀ entry ∈ rules.entries, spec.productions.find? entry.1 = none := by
    intro entry member
    refine Option.eq_none_iff_forall_ne_some.mpr fun rule declared => ?_
    rcases (found _ _).mp declared with ⟨name, among, same, -⟩ | none
    · have absent := (mem_borrowed_iff.mp among).2.1
      rw [show name = entry.1 from same, Table.find?_of_mem member] at absent
      cases absent
    · cases none
  have declares : List.Forall₂ (fun entry node => ∀ spec : Specification,
      (do spec.production (Prod.fst node) (.ok (← Rule.alternatives true node.2))) =
        spec.production (Prod.fst entry) (.ok (oneOr .ordered entry.2)))
      rules.entries rules.entries :=
    List.forall₂_same.mpr fun entry member spec => by
      rw [alternatives_eq true (filled entry member)]
      rfl
  obtain ⟨spec', folded', found'⟩ := foldlM_declares declares named rules.nodup_names spec fresh
  refine ⟨spec', ?_, fun key rule => (found' key rule).trans ?_⟩
  · rw [ofRules]
    dsimp only
    rw [folded]
    exact folded'
  · rw [found key rule]
    simp [Specification.empty]

/-- What the productions of a parser are if it comes from definitions: the definitions, and the core
rules that they refer to and do not give. -/
def Productions (definitions : List (Definition Number.Short)) (productions : Table Rule) : Prop :=
  ∀ name rule, productions.find? name = some rule ↔
    (∃ definition ∈ definitions, definition.name.string = name ∧ definition.body.denote = rule) ∨
    (name ∈ coreRules.map (·.1) ∧ (∀ definition ∈ definitions, definition.name.string ≠ name) ∧
      (∃ definition ∈ definitions, name ∈ Rule.referencesAll definition.body.denotes) ∧
      .token name = rule)

/-- The rules of definitions with distinct names make up a specification in which each name stands
for what its alternation denotes. -/
private theorem foldGrammar_adds {definitions : List (Definition Number.Short)} {nodes : List Tree}
    (adds : List.Forall₂ Adds definitions nodes)
    (distinct : (definitions.map Definition.name).Nodup) :
    ∃ spec, foldGrammar (.array nodes) = .ok spec ∧
      Productions definitions spec.productions := by
  obtain ⟨rules, folded, found⟩ := foldlM_inserts
    (adds.imp fun definition node adds rules fresh => ⟨_, adds rules fresh, rfl⟩)
    (Name.nodup_strings distinct) .empty fun definition _ => Table.find?_empty _
  have found (name : String) (branches : List Rule) : rules.find? name = some branches ↔
      ∃ definition ∈ definitions, definition.name.string = name ∧
        definition.body.denotes = branches := by
    simpa using found name branches
  have entries {entry : String × List Rule} : entry ∈ rules.entries ↔
      ∃ definition ∈ definitions, definition.name.string = entry.1 ∧
        definition.body.denotes = entry.2 :=
    ⟨fun member => (found _ _).mp (Table.find?_of_mem member),
      fun given => Table.mem_of_find? ((found _ _).mpr given)⟩
  have named : ∀ entry ∈ rules.entries, entry.1 ≠ "" := by
    intro entry member
    obtain ⟨definition, -, same, -⟩ := entries.mp member
    exact same ▸ definition.name.string_ne_empty
  have filled : ∀ entry ∈ rules.entries, entry.2 ≠ [] := by
    intro entry member
    obtain ⟨definition, -, -, same⟩ := entries.mp member
    exact same ▸ definition.body.denotes_ne_nil
  obtain ⟨spec, built, declared⟩ := ofRules_declares named filled
  refine ⟨spec, (congrArg (· >>= ofRules) folded).trans built, fun name rule => ?_⟩
  rw [declared, mem_borrowed_iff]
  refine or_congr ⟨?_, ?_⟩ ?_
  · rintro ⟨entry, member, rfl, rfl⟩
    obtain ⟨definition, among, same, denotes⟩ := entries.mp member
    exact ⟨definition, among, same, congrArg (oneOr .ordered) denotes⟩
  · rintro ⟨definition, among, rfl, rfl⟩
    exact ⟨(_, _), entries.mpr ⟨definition, among, rfl, rfl⟩, rfl, rfl⟩
  · have absent : rules.find? name = none ↔
        ∀ definition ∈ definitions, definition.name.string ≠ name := by
      simp only [Option.eq_none_iff_forall_ne_some, ne_eq, found]
      exact ⟨fun none definition among same => none _ ⟨definition, among, same, rfl⟩,
        fun none branches ⟨definition, among, same, _⟩ => none definition among same⟩
    have referred : (∃ entry ∈ rules.entries, name ∈ Rule.referencesAll entry.2) ↔
        ∃ definition ∈ definitions, name ∈ Rule.referencesAll definition.body.denotes := by
      constructor
      · rintro ⟨entry, member, refers⟩
        obtain ⟨definition, among, -, denotes⟩ := entries.mp member
        exact ⟨definition, among, denotes ▸ refers⟩
      · rintro ⟨definition, among, refers⟩
        exact ⟨(_, _), entries.mpr ⟨definition, among, rfl, rfl⟩, refers⟩
    rw [absent, referred, and_assoc, and_assoc]

end Tables

/-- A rendered list of rules with distinct names and short numeric values compiles. -/
theorem exists_compiled {definitions : List (Definition Number.Short)} (some : definitions ≠ [])
    (distinct : (definitions.map Definition.name).Nodup) {text : Text}
    (renders : Renders definitions text) (ignore : List LexRule) :
    ∃ parser, abnf.compile text ignore = .ok parser ∧
      Productions definitions parser.grammar.productions := by
  obtain ⟨rest, stands, gap⟩ := renders
  have rounds : grammar.TakesRounds (.reference "rule") text rest fun nodes =>
      1 ≤ nodes.length ∧ List.Forall₂ Adds definitions nodes :=
    (takes_rules definitions stands gap).mono fun nodes adds =>
      ⟨adds.length_eq ▸ List.length_pos_of_ne_nil some, adds⟩
  obtain ⟨nodes, parsed, adds⟩ := parseAll_of_rounds gap rounds
  obtain ⟨spec, folded, productions⟩ := foldGrammar_adds adds distinct
  have read : abnf.read text = .ok spec := by
    rw [Notation.read, parsed]
    exact folded
  refine ⟨(spec.ignoringAll ignore).parser, ?_, productions⟩
  rw [Notation.compile, read]
  rfl

/-- A rendered list of rules with distinct names and short numeric values compiles, and each name
stands for the rule that its alternation denotes. What else there is stands for a core rule. -/
theorem compile_rulelist {definitions : List (Definition Number.Short)} (some : definitions ≠ [])
    (distinct : (definitions.map Definition.name).Nodup) {text : Text}
    (renders : Renders definitions text) (ignore : List LexRule) :
    ∃ parser, abnf.compile text ignore = .ok parser ∧
      (∀ definition ∈ definitions,
        parser.grammar.productions.find? definition.name.string = .some definition.body.denote) ∧
      ∀ name rule, parser.grammar.productions.find? name = .some rule →
        (∃ definition ∈ definitions, definition.name.string = name) ∨
        (name ∈ coreRules.map (·.1) ∧ rule = .token name) := by
  obtain ⟨parser, compiled, productions⟩ := exists_compiled some distinct renders ignore
  refine ⟨parser, compiled, fun definition member => ?_, fun name rule known => ?_⟩
  · exact (productions _ _).mpr (.inl ⟨definition, member, rfl, rfl⟩)
  · rcases (productions _ _).mp known with ⟨definition, member, same, -⟩ | ⟨core, -, -, rfl⟩
    · exact .inl ⟨definition, member, same⟩
    · exact .inr ⟨core, rfl⟩

/-- A grammar of records. The name of the second rule comes where one more element could, and one
of the names is that of a core rule. -/
def records : List (Definition Number.Short) :=
  let record : Name := ⟨"record".toList, rfl⟩
  let field : Name := ⟨"field-1".toList, rfl⟩
  let digit : Name := ⟨"DIGIT".toList, rfl⟩
  let two : Count := ⟨"02".toList, rfl, by decide⟩
  let four : Count := ⟨"4".toList, rfl, by decide⟩
  let comma : Element Number.Short := .quoted ⟨none, [','], by decide⟩
  let none' : Element Number.Short := .quoted ⟨some ⟨false, true⟩, [], by decide⟩
  let exact : Element Number.Short := .quoted ⟨some ⟨true, false⟩, "id".toList, by decide⟩
  let letter : Number := .range .hexadecimal false ⟨"41".toList, rfl, by decide⟩
    ⟨"5a".toList, rfl, by decide⟩ (by decide)
  let line : Number := .row .decimal true ⟨"13".toList, rfl, by decide⟩
    [⟨"10".toList, rfl, by decide⟩]
  let further : Alternation Number.Short := .last (.more (.of none comma)
    (.last (.of (some (.between none (some two) nofun)) (.reference field))))
  [⟨record, .last (.more (.of none (.reference field))
      (.more (.of (some (.between none none nofun)) (.group further))
        (.last (.of none (.option (.last (.last (.of none (.number line (by decide)))))))))) ⟩,
   ⟨field, .more (.last (.of (some (.between (some two) (some four) (by decide)))
        (.reference digit)))
      (.more (.more (.of none exact) (.last (.of (some (.exactly four)) (.number letter trivial))))
        (.last (.last (.of none none'))))⟩]

theorem compile_rulelist_records :
    records ≠ [] ∧ (records.map Definition.name).Nodup ∧
      Renders records (print "; next\n ".toList records) ∧
      ∃ parser, abnf.compile (print "; next\n ".toList records) [] = .ok parser ∧
        parser.grammar.productions.find? "record" = some (.sequence [.reference "field-1",
          .repetition (.sequence [.terminal (.inline "," (.literal [',']) true),
            .repetition (.reference "field-1") 0 (some 2)]) 0 none,
          .optional (.terminal (.inline "%D13.10"
            (.pattern (@Pattern.ofChars ['\r', '\n'] (by decide) (by decide))) false))]) ∧
        parser.grammar.productions.find? "field-1" = some (.ordered
          [.repetition (.reference "DIGIT") 2 (some 4),
            .sequence [.text "id", .repetition (.terminal (.inline "U+0041..U+005A"
              (.pattern (@Pattern.ofInterval 'A' 'Z' (by decide))) false)) 4 (some 4)],
            .empty]) := by
  have distinct : (records.map Definition.name).Nodup := by decide
  have gap : Gap IsComment "; next\n ".toList :=
    @Gap.comment _ "; next\n".toList _ ⟨" next".toList, rfl, by decide⟩ (.blank rfl .nil)
  have renders := renders_print gap (List.cons_ne_nil _ _) records
  obtain ⟨parser, compiled, found, -⟩ :=
    compile_rulelist (List.cons_ne_nil _ _) distinct renders []
  refine ⟨List.cons_ne_nil _ _, distinct, renders, parser, compiled, ?_, ?_⟩
  · exact (found _ (List.mem_cons_self ..)).trans rfl
  · exact (found _ (List.mem_cons_of_mem _ (List.mem_cons_self ..))).trans rfl

/-- A numeric value of too many characters is refused. -/
theorem compile_long {name : Name} {value : Number} (long : ¬ value.Short) {text : Text}
    (written : Written (Gap IsComment) [name.1, "=".toList, value.word] text)
    (ignore : List LexRule) :
    ∃ source, abnf.compile text ignore = Error.build (.invalidPattern source) := by
  obtain ⟨rest, stands, gap⟩ := written
  obtain ⟨source, refused⟩ := numVal_word_of_long long
  have rule := takes_rule_of stands fun stands =>
    takes_alternation_of_number value refused stands (ended_of_leads (.ofGap gap _))
  have rounds : grammar.TakesRounds (.reference "rule") text rest fun nodes =>
      1 ≤ nodes.length ∧ nodes.foldlM foldRule .empty = Error.build (.invalidPattern source) := by
    refine .next rule (stands.length_lt name.ne_nil) fun node folded => ?_
    refine .done (refuses_of_leads shunning.rule (.ofGap gap _)) ⟨Nat.le_refl 1, ?_⟩
    rw [List.foldlM_cons, folded .empty (Table.find?_empty _)]
    rfl
  obtain ⟨nodes, parsed, folded⟩ := parseAll_of_rounds gap rounds
  refine ⟨source, ?_⟩
  rw [Notation.compile, Notation.read, parsed]
  exact congrArg (fun rules => (rules >>= ofRules).map fun spec => (spec.ignoringAll ignore).parser)
    folded

/-- The character U+0800 so many times in a row, and once more. -/
def row (count : Nat) : Number :=
  let scalar : Scalar .hexadecimal := ⟨"800".toList, rfl, by decide⟩
  .row .hexadecimal false scalar (List.replicate count scalar)

private theorem byteLength_replicate (count : Nat) (c : Char) :
    Text.byteLength (List.replicate count c) = count * c.utf8Size := by
  induction count with
  | zero => simp
  | succ count ih =>
    rw [List.replicate_succ, Text.byteLength_cons, ih, Nat.succ_mul, Nat.add_comm]

theorem short_row_iff (count : Nat) : (row count).Short ↔ count < 109224 := by
  have chars : (row count).Short ↔
      Text.byteLength (List.replicate (count + 1) (Char.ofNat 0x800)) ≤ Pattern.longestLiteral := by
    rw [row, Number.Short, Number.chars, List.map_cons, List.map_replicate, List.replicate_succ]
    rfl
  have wide : (Char.ofNat 0x800).utf8Size = 3 := by decide
  rw [chars, byteLength_replicate, wide, Pattern.longestLiteral]
  omega

/-- A rule for more characters in a row than a pattern can have. -/
def overlong : List (Definition fun _ => True) :=
  [⟨⟨"a".toList, rfl⟩, .last (.last (.of none (.number (row 109999) trivial)))⟩]

theorem compile_overlong :
    overlong ≠ [] ∧ (overlong.map Definition.name).Nodup ∧
      Renders overlong (print [' '] overlong) ∧
      ∃ fault, abnf.compile (print [' '] overlong) [] = .error fault := by
  have blank : Gap IsComment [' '] := .blank rfl .nil
  have renders := renders_print blank (List.cons_ne_nil _ _) overlong
  have long : ¬ (row 109999).Short := by
    rw [short_row_iff]
    omega
  obtain ⟨source, refused⟩ := compile_long long renders []
  exact ⟨List.cons_ne_nil _ _, List.nodup_singleton _, renders, _, refused⟩

end Packrat.Notation.Abnf
