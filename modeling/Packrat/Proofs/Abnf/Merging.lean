import Packrat.Proofs.Abnf.References
import Packrat.Proofs.Abnf.RoundTrip

/-! # Merging the rules of a list

A rule list may give a rule its alternatives in several places, with other rules between them. The
table that is built up keeps the alternatives of the rules so far (`Merged`), one rule after the
other, for as long as each name is first defined and only then added to (`Incremental`). Core rules
are looked at when the whole list is known (`foldGrammar_merges`).
-/

namespace Packrat.Notation.Abnf

open Peg (oneOr)

/-- The rules of a name, in the order of the text. -/
def own (clauses : List Clause) (name : String) : List Clause :=
  clauses.filter fun clause => clause.name = name

/-- The first rule of every name defines it, and every later one adds to it. -/
def Incremental (clauses : List Clause) : Prop :=
  ∀ name first later, own clauses name = first :: later →
    first.mark = "=" ∧ ∀ clause ∈ later, clause.mark = "=/"

/-- The table gives each name the alternatives of all its rules, and none to other names. -/
def Merged (branches : Clause → List Rule) (clauses : List Clause) (table : Table (List Rule)) :
    Prop :=
  ∀ name, table.find? name =
    if own clauses name = [] then none else some ((own clauses name).flatMap branches)

section Lists

variable {clauses : List Clause} {clause : Clause} {name : String}

theorem Clause.mark_eq_iff : clause.mark = "=/" ↔ clause.adds = true := by
  unfold Clause.mark
  cases clause.adds <;> decide

theorem Clause.mark_eq_iff' : clause.mark = "=" ↔ clause.adds = false := by
  unfold Clause.mark
  cases clause.adds <;> decide

theorem own_append (clauses : List Clause) (clause : Clause) (name : String) :
    own (clauses ++ [clause]) name =
      own clauses name ++ if clause.name = name then [clause] else [] := by
  rw [own, List.filter_append, own]
  by_cases same : clause.name = name <;> simp [same]

/-- One more rule must add to its name exactly if the name has rules already. -/
theorem incremental_append_iff : Incremental (clauses ++ [clause]) ↔
    Incremental clauses ∧ (clause.adds = true ↔ own clauses clause.name ≠ []) := by
  constructor
  · intro incremental
    refine ⟨fun name first later same => ?_, ?_⟩
    · have here := incremental name first _ (by rw [own_append, same, List.cons_append])
      exact ⟨here.1, fun other member => here.2 other (List.mem_append_left _ member)⟩
    · have here := own_append clauses clause clause.name
      rw [if_pos rfl] at here
      cases before : own clauses clause.name with
      | nil =>
        rw [before] at here
        have starts := (incremental _ _ _ here).1
        simp [Clause.mark_eq_iff'.mp starts]
      | cons first later =>
        rw [before] at here
        have adds := (incremental _ _ _ here).2 clause (List.mem_append_right _ (by simp))
        simp [Clause.mark_eq_iff.mp adds]
  · rintro ⟨incremental, fits⟩ name first later same
    rw [own_append] at same
    by_cases here : clause.name = name
    · subst here
      rw [if_pos rfl] at same
      cases before : own clauses clause.name with
      | nil =>
        rw [before] at same fits
        cases same
        have starts : clause.adds = false := by simpa using fits
        exact ⟨Clause.mark_eq_iff'.mpr starts, nofun⟩
      | cons head tail =>
        rw [before] at same fits
        cases same
        have known := incremental _ _ _ before
        refine ⟨known.1, List.forall_mem_append.mpr ⟨known.2, ?_⟩⟩
        have adds : clause.adds = true := by simpa using fits
        simpa using Clause.mark_eq_iff.mpr adds
    · rw [if_neg here, List.append_nil] at same
      exact incremental name first later same

end Lists

section Tables

variable {branches : Clause → List Rule} {clauses : List Clause}

/-- A rule is put into the table, unless it defines a name of the table or adds to another. -/
theorem foldRule_tree {clause : Clause} {rules : List Rule}
    (folded : foldAlternation false clause.alternation = .ok rules) (table : Table (List Rule)) :
    foldRule table clause.tree =
      match clause.adds, table.find? clause.name with
      | false, none => .ok (table.insert clause.name rules)
      | false, some _ => Error.build (.duplicateRule clause.name)
      | true, some existing => .ok (table.insert clause.name (existing ++ rules))
      | true, none => Error.build (.missingRule clause.name) := by
  obtain ⟨name, filled, adds, alternation, start, markStart⟩ := clause
  have named : (Tree.token ⟨.rule "rulename", name.toList, start⟩).leafName language "rule" =
      .ok name := congrArg Except.ok String.ofList_toList
  have marked (mark : String) : (Tree.token ⟨.rule mark, mark.toList, markStart⟩).leafText language
      "defined-as" = .ok mark.toList := rfl
  simp only [Clause.tree, Clause.mark, foldRule, if_true, bind, Except.bind, named, marked, folded]
  cases adds with
  | false =>
    rw [if_neg Bool.false_ne_true, if_pos (by decide), Table.contains]
    cases table.find? name <;> rfl
  | true =>
    rw [if_pos rfl, if_neg (by decide), if_pos (by decide)]
    cases table.find? name <;> rfl

/-- One more rule leaves a merged table, or it does not fit the rules before it. -/
theorem foldRule_merged {table : Table (List Rule)} {clause : Clause}
    (folded : foldAlternation false clause.alternation = .ok (branches clause))
    (merged : Merged branches clauses table) :
    ((clause.adds = true ↔ own clauses clause.name ≠ []) ∧
      ∃ next, foldRule table clause.tree = .ok next ∧
        Merged branches (clauses ++ [clause]) next) ∨
    (¬(clause.adds = true ↔ own clauses clause.name ≠ []) ∧
      ∃ fault, foldRule table clause.tree = Error.build fault) := by
  have known := merged clause.name
  have inserted (rules : List Rule)
      (same : rules = (own clauses clause.name).flatMap branches ++ branches clause) :
      Merged branches (clauses ++ [clause]) (table.insert clause.name rules) := by
    intro name
    rw [Table.find?_insert, own_append, merged name]
    split
    · rename_i here
      rw [if_neg (by simp), ← here, same]
      simp
    · rw [List.append_nil]
  rw [foldRule_tree folded]
  by_cases before : own clauses clause.name = []
  · rw [if_pos before] at known
    rw [known]
    cases adds : clause.adds with
    | false => exact .inl ⟨by simp [before], _, rfl, inserted _ (by simp [before])⟩
    | true => exact .inr ⟨by simp [before], _, rfl⟩
  · rw [if_neg before] at known
    rw [known]
    cases adds : clause.adds with
    | false => exact .inr ⟨by simp [before], _, rfl⟩
    | true => exact .inl ⟨by simp [before], _, rfl, inserted _ rfl⟩

/-- The rules of an incremental list leave a merged table, and those of any other list are
refused. -/
theorem foldlM_merged
    (folded : ∀ clause ∈ clauses,
      foldAlternation false clause.alternation = .ok (branches clause)) :
    (Incremental clauses ∧ ∃ table,
      (clauses.map Clause.tree).foldlM foldRule .empty = .ok table ∧
        Merged branches clauses table) ∨
    (¬ Incremental clauses ∧ ∃ fault,
      (clauses.map Clause.tree).foldlM foldRule .empty = Error.build fault) := by
  induction clauses using List.reverseRecOn with
  | nil =>
    exact .inl ⟨fun _ _ _ none => (nomatch none), .empty, rfl, fun _ => rfl⟩
  | append_singleton clauses clause ih =>
    obtain ⟨before, here⟩ := List.forall_mem_append.mp folded
    rw [incremental_append_iff, List.map_append, List.foldlM_append]
    rcases ih before with ⟨incremental, table, built, merged⟩ | ⟨broken, fault, refused⟩
    · rw [built]
      rcases foldRule_merged (here clause (List.mem_singleton_self _)) merged with
        ⟨fits, next, added, merged⟩ | ⟨unfit, fault, refused⟩
      · refine .inl ⟨⟨incremental, fits⟩, next, ?_, merged⟩
        exact (congrArg (· >>= pure) added).trans rfl
      · refine .inr ⟨fun both => unfit both.2, fault, ?_⟩
        exact (congrArg (· >>= pure) refused).trans rfl
    · rw [refused]
      exact .inr ⟨fun both => broken both.1, fault, rfl⟩

end Tables

section Specifications

variable {branches : Clause → List Rule} {clauses : List Clause}

/-- What a name stands for: all alternatives of its rules in the order of the text, or, if it has no
rules, the token of the core rule that the list refers to by this name. -/
def meaning? (branches : Clause → List Rule) (clauses : List Clause) (name : String) :
    Option Rule :=
  if own clauses name ≠ [] then some (oneOr .ordered ((own clauses name).flatMap branches))
  else if name ∈ coreRules.map (·.1) ∧ ∃ clause ∈ clauses, name ∈ mentions clause.alternation then
    some (.token name)
  else none

/-- The alternatives of several rules refer to what those of each refer to. -/
private theorem mem_referencesAll_flatMap {name : String} :
    name ∈ Rule.referencesAll (clauses.flatMap branches) ↔
      ∃ clause ∈ clauses, name ∈ Rule.referencesAll (branches clause) := by
  have flat : ∀ rules, Rule.referencesAll rules = rules.flatMap Rule.references := by
    intro rules
    induction rules with
    | nil => rfl
    | cons rule rules ih => rw [Rule.referencesAll, ih, List.flatMap_cons]
  simp only [flat, List.mem_flatMap]
  constructor
  · rintro ⟨rule, ⟨clause, member, among⟩, inside⟩
    exact ⟨clause, member, rule, among, inside⟩
  · rintro ⟨clause, member, rule, among, inside⟩
    exact ⟨rule, ⟨clause, member, among⟩, inside⟩

/-- A merged table makes up a specification, in which every name stands for what the list says. -/
theorem ofRules_merged {table : Table (List Rule)} (merged : Merged branches clauses table)
    (filled : ∀ clause ∈ clauses, branches clause ≠ [])
    (refer : ∀ clause ∈ clauses,
      Rule.referencesAll (branches clause) = mentions clause.alternation) :
    ∃ spec, ofRules table = .ok spec ∧
      ∀ name, spec.productions.find? name = meaning? branches clauses name := by
  have entries (name : String) (rules : List Rule) : (name, rules) ∈ table.entries ↔
      own clauses name ≠ [] ∧ (own clauses name).flatMap branches = rules := by
    constructor
    · intro member
      have found := Table.find?_of_mem member
      rw [merged name] at found
      split at found
      · cases found
      · rename_i some
        exact ⟨some, Option.some.inj found⟩
    · rintro ⟨some, rfl⟩
      exact Table.mem_of_find? ((merged name).trans (if_neg some))
  have named : ∀ entry ∈ table.entries, entry.1 ≠ "" := by
    intro entry member empty
    obtain ⟨clause, among⟩ := List.exists_mem_of_ne_nil _ ((entries _ _).mp member).1
    obtain ⟨-, same⟩ := List.mem_filter.mp among
    exact clause.filled ((of_decide_eq_true same).trans empty)
  have full : ∀ entry ∈ table.entries, entry.2 ≠ [] := by
    intro entry member empty
    obtain ⟨some, same⟩ := (entries _ _).mp member
    obtain ⟨clause, among⟩ := List.exists_mem_of_ne_nil _ some
    have inside := (List.mem_filter.mp among).1
    exact filled clause inside (List.flatMap_eq_nil_iff.mp (same.trans empty) clause among)
  have referred (name : String) : (∃ entry ∈ table.entries, name ∈ Rule.referencesAll entry.2) ↔
      ∃ clause ∈ clauses, name ∈ mentions clause.alternation := by
    constructor
    · rintro ⟨entry, member, inside⟩
      obtain ⟨-, same⟩ := (entries _ _).mp member
      rw [← same] at inside
      obtain ⟨clause, among, inside⟩ := mem_referencesAll_flatMap.mp inside
      have member := (List.mem_filter.mp among).1
      exact ⟨clause, member, refer clause member ▸ inside⟩
    · rintro ⟨clause, member, inside⟩
      have among : clause ∈ own clauses clause.name := by simp [own, member]
      refine ⟨_, (entries clause.name _).mpr ⟨List.ne_nil_of_mem among, rfl⟩, ?_⟩
      exact mem_referencesAll_flatMap.mpr ⟨clause, among, (refer clause member).symm ▸ inside⟩
  have defined (name : String) (rule : Rule) :
      (∃ entry ∈ table.entries, entry.1 = name ∧ oneOr .ordered entry.2 = rule) ↔
        own clauses name ≠ [] ∧ oneOr .ordered ((own clauses name).flatMap branches) = rule := by
    constructor
    · rintro ⟨entry, member, rfl, rfl⟩
      obtain ⟨some, same⟩ := (entries _ _).mp member
      exact ⟨some, congrArg _ same⟩
    · rintro ⟨some, rfl⟩
      exact ⟨_, (entries name _).mpr ⟨some, rfl⟩, rfl, rfl⟩
  obtain ⟨spec, built, declared⟩ := ofRules_declares named full
  refine ⟨spec, built, fun name => Option.ext fun rule => ?_⟩
  rw [declared, defined, mem_borrowed_iff, referred, merged name, meaning?]
  by_cases none : own clauses name = []
  · simp [none]
  · simp [none]

end Specifications

/-- The tree of a rule list is a row of rules. If the alternatives of all of them are read, the list
makes up a specification exactly if the first rule of every name defines it and every later one
adds to it, and is refused otherwise. In the specification a name stands for all alternatives of
its rules in the order of the text, a core rule that has none but is referred to for its token, and
no other name for anything. -/
theorem foldGrammar_merges {text : Text} {tree : Tree}
    (parsed : abnf.parser.parseAll "rulelist" text = .ok tree) :
    ∃ clauses : List Clause, tree = .array (clauses.map Clause.tree) ∧
      ∀ branches : Clause → List Rule,
        (∀ clause ∈ clauses,
          foldAlternation false clause.alternation = .ok (branches clause)) →
        ((∃ spec, foldGrammar tree = .ok spec) ↔ Incremental clauses) ∧
        (∀ fault, foldGrammar tree = .error fault → ∃ reason, fault = .construction reason) ∧
        ∀ spec, foldGrammar tree = .ok spec →
          ∀ name, spec.productions.find? name = meaning? branches clauses name := by
  obtain ⟨clauses, rfl, refer⟩ := exists_clauses parsed
  refine ⟨clauses, rfl, fun branches folded => ?_⟩
  rw [foldGrammar]
  rcases foldlM_merged folded with ⟨incremental, table, built, merged⟩ | ⟨broken, fault, refused⟩
  · obtain ⟨spec, made, found⟩ := ofRules_merged merged
      (fun clause member => (refer clause member _ (folded clause member)).1)
      (fun clause member => (refer clause member _ (folded clause member)).2)
    have result : (clauses.map Clause.tree).foldlM foldRule .empty >>= ofRules = .ok spec := by
      rw [built]
      exact made
    rw [result]
    refine ⟨⟨fun _ => incremental, fun _ => ⟨spec, rfl⟩⟩, ?_, ?_⟩
    · rintro _ ⟨⟩
    · rintro _ ⟨⟩
      exact found
  · rw [refused]
    refine ⟨⟨?_, fun incremental => absurd incremental broken⟩, ?_, ?_⟩
    · rintro ⟨spec, ⟨⟩⟩
    · rintro _ ⟨⟩
      exact ⟨fault, rfl⟩
    · rintro spec ⟨⟩

/-- The alternation that is a reference at an offset. -/
def referenceTree (name : String) (start : Nat) : Tree :=
  .named "alternation" (.array [.named "concatenation" (.array [.named "repetition" (.array
    [.token (.empty start), .named "element" (.named "reference" (.array
      [.token ⟨.rule "rulename", name.toList, start⟩,
       .token (.empty (start + name.length))]))])]), .array []])

/-- Rules of which two have the same name, with a core rule that is referred to. -/
def scattered : List Clause :=
  [⟨"a", by decide, false, referenceTree "DIGIT" 2, 0, 1⟩,
   ⟨"b", by decide, false, referenceTree "a" 10, 8, 9⟩,
   ⟨"a", by decide, true, referenceTree "b" 15, 12, 13⟩]

theorem foldGrammar_merges_scattered :
    abnf.parser.parseAll "rulelist" "a=DIGIT\nb=a\na=/b".toList =
        .ok (.array (scattered.map Clause.tree)) ∧
      ∃ spec, foldGrammar (.array (scattered.map Clause.tree)) = .ok spec ∧
        spec.productions.find? "a" = some (.ordered [.reference "DIGIT", .reference "b"]) ∧
        spec.productions.find? "DIGIT" = some (.token "DIGIT") ∧
        spec.productions.find? "ALPHA" = none := by
  have parsed : abnf.parser.parseAll "rulelist" "a=DIGIT\nb=a\na=/b".toList =
      .ok (.array (scattered.map Clause.tree)) := by
    rw [Parser.parseAll, Parser.run_eq]
    decide +kernel
  obtain ⟨clauses, same, merges⟩ := foldGrammar_merges parsed
  obtain rfl := List.map_injective_iff.mpr Clause.tree_injective (Tree.array.inj same)
  have incremental : Incremental scattered := by
    intro name first later same
    by_cases a : name = "a"
    · subst a
      cases same
      exact ⟨rfl, by simp [Clause.mark]⟩
    · by_cases b : name = "b"
      · subst b
        cases same
        simp [Clause.mark]
      · simp [own, scattered, Ne.symm a, Ne.symm b] at same
  let branches (clause : Clause) := (foldAlternation false clause.alternation).toOption.getD []
  have folds : ∀ clause ∈ scattered,
      foldAlternation false clause.alternation = .ok (branches clause) := by
    intro clause member
    simp only [scattered, List.mem_cons, List.not_mem_nil, or_false] at member
    rcases member with rfl | rfl | rfl <;> rfl
  obtain ⟨succeeds, -, found⟩ := merges branches folds
  obtain ⟨spec, folded⟩ := succeeds.mpr incremental
  exact ⟨parsed, spec, folded, (found spec folded _).trans rfl, (found spec folded _).trans rfl,
    (found spec folded _).trans rfl⟩

end Packrat.Notation.Abnf
