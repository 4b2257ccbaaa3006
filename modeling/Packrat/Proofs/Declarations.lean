import Mathlib.Data.List.Perm.Basic
import Packrat.Specification

/-! # Declaring productions in any order

A specification admits entries if each has a name of its own that is not taken. Then their
declaration comes to the table with all of them (`declareEach_of_admits`), and otherwise it fails
(`declareEach_of_not_admits`). Neither depends on the order of the entries, nor on which of them a
call declares together (`declareSteps_eq`).
-/

namespace Packrat

namespace Table

variable {α : Type} {entries entries' : List (String × α)}

/-- The order of entries with different names does not matter to what a name stands for. -/
theorem lookupEntry_perm (unique : (entries.map (·.1)).Nodup) (perm : entries.Perm entries')
    (name : String) : lookupEntry name entries = lookupEntry name entries' := by
  induction perm with
  | nil => rfl
  | cons entry _ ih =>
    simp only [lookupEntry, ih (List.nodup_cons.mp unique).2]
  | swap first second more =>
    have apart : second.1 ≠ first.1 := fun same =>
      (List.nodup_cons.mp unique).1 (List.mem_cons.mpr (.inl same))
    by_cases here : second.1 = name
    · simp only [lookupEntry, here, if_neg (here ▸ apart.symm), if_true]
    · simp only [lookupEntry, here, if_false]
  | trans perm _ ih ih' => exact (ih unique).trans (ih' ((perm.map _).nodup_iff.mp unique))

theorem insertAll_perm (table : Table α) (unique : (entries.map (·.1)).Nodup)
    (perm : entries.Perm entries') : table.insertAll entries = table.insertAll entries' := by
  have reversed (entries : List (String × α)) : entries.reverse.Perm entries :=
    List.reverse_perm entries
  have unique' : (entries.reverse.map (·.1)).Nodup :=
    ((reversed entries).map _).nodup_iff.mpr unique
  refine ext_find? fun name => ?_
  rw [find?_insertAll, find?_insertAll,
    lookupEntry_perm unique' (((reversed entries).trans perm).trans (reversed entries').symm)]

end Table

namespace Specification

/-- A call that declares one production, or all those of a table. -/
inductive Declaration where
  | one (name : String) (rule : Rule)
  | all (rules : Table Rule)

/-- The productions that a call declares. -/
def Declaration.entries : Declaration → List (String × Rule)
  | .one name rule => [(name, rule)]
  | .all rules => rules.entries

/-- Makes one call. -/
def declare (spec : Specification) : Declaration → Except Error Specification
  | .one name rule => spec.production name (.ok rule)
  | .all rules => spec.declareAll rules

/-- Makes calls one after the other. -/
def declareSteps (spec : Specification) (steps : List Declaration) : Except Error Specification :=
  steps.foldlM declare spec

/-- Declares productions one by one. -/
def declareEach (spec : Specification) (entries : List (String × Rule)) :
    Except Error Specification :=
  entries.foldlM (fun spec (name, rule) => spec.production name (.ok rule)) spec

/-- The specification with the productions of several entries. -/
def withAll (spec : Specification) (entries : List (String × Rule)) : Specification :=
  { spec with productions := spec.productions.insertAll entries }

/-- Every entry has a name of its own, which no production has. -/
structure Admits (spec : Specification) (entries : List (String × Rule)) : Prop where
  named : ∀ entry ∈ entries, entry.1 ≠ ""
  fresh : ∀ entry ∈ entries, spec.productions.find? entry.1 = none
  unique : (entries.map (·.1)).Nodup

variable {spec : Specification} {entries entries' : List (String × Rule)}

theorem declare_eq (spec : Specification) (step : Declaration) :
    spec.declare step = spec.declareEach step.entries := by
  cases step with
  | one name rule => exact (bind_pure (spec.production name (.ok rule))).symm
  | all rules => rfl

/-- Calls declare what they declare one by one. -/
theorem declareSteps_eq (spec : Specification) (steps : List Declaration) :
    spec.declareSteps steps = spec.declareEach (steps.flatMap Declaration.entries) := by
  induction steps generalizing spec with
  | nil => rfl
  | cons step steps ih =>
    rw [List.flatMap_cons, declareEach, List.foldlM_append]
    change (spec.declare step >>= fun spec => spec.declareSteps steps) = _
    rw [declare_eq]
    exact congrArg _ (funext ih)

theorem Admits.perm (admits : spec.Admits entries) (perm : entries.Perm entries') :
    spec.Admits entries' where
  named entry member := admits.named entry (perm.mem_iff.mpr member)
  fresh entry member := admits.fresh entry (perm.mem_iff.mpr member)
  unique := (perm.map _).nodup_iff.mp admits.unique

theorem admits_cons {name : String} {rule : Rule} :
    spec.Admits ((name, rule) :: entries) ↔ (name ≠ "" ∧ spec.productions.find? name = none) ∧
      (spec.withAll [(name, rule)]).Admits entries := by
  have inserted (other : String) : (spec.withAll [(name, rule)]).productions.find? other =
      if name = other then some rule else spec.productions.find? other :=
    Table.find?_insert ..
  constructor
  · rintro ⟨named, fresh, unique⟩
    obtain ⟨here, named⟩ := List.forall_mem_cons.mp named
    obtain ⟨free, fresh⟩ := List.forall_mem_cons.mp fresh
    obtain ⟨apart, unique⟩ := List.nodup_cons.mp unique
    refine ⟨⟨here, free⟩, named, fun entry member => ?_, unique⟩
    have other : name ≠ entry.1 := fun same => apart (List.mem_map.mpr ⟨entry, member, same.symm⟩)
    rw [inserted, if_neg other]
    exact fresh entry member
  · rintro ⟨⟨here, free⟩, named, fresh, unique⟩
    have apart (entry : String × Rule) (member : entry ∈ entries) :
        name ≠ entry.1 ∧ spec.productions.find? entry.1 = none := by
      have found := fresh entry member
      rw [inserted] at found
      split at found
      · cases found
      · rename_i other
        exact ⟨other, found⟩
    refine ⟨List.forall_mem_cons.mpr ⟨here, named⟩,
      List.forall_mem_cons.mpr ⟨free, fun entry member => (apart entry member).2⟩,
      List.nodup_cons.mpr ⟨fun member => ?_, unique⟩⟩
    obtain ⟨entry, among, same⟩ := List.mem_map.mp member
    exact (apart entry among).1 same.symm

/-- A production is declared exactly if it has a name, which is free. -/
theorem production_eq (spec : Specification) (name : String) (rule : Rule) :
    (name ≠ "" ∧ spec.productions.find? name = none ∧
      spec.production name (.ok rule) = .ok (spec.withAll [(name, rule)])) ∨
    (¬ (name ≠ "" ∧ spec.productions.find? name = none) ∧
      ∃ fault, spec.production name (.ok rule) = .error (.construction fault)) := by
  unfold production
  split
  · rename_i unnamed
    exact .inr ⟨fun free => free.1 unnamed, _, rfl⟩
  · rename_i named
    cases taken : spec.productions.find? name with
    | none => exact .inl ⟨named, rfl, by simp [Table.contains, taken]; rfl⟩
    | some other => exact .inr ⟨nofun, by simp [Table.contains, taken, Error.build]⟩

/-- What is admitted is declared. -/
theorem declareEach_of_admits (admits : spec.Admits entries) :
    spec.declareEach entries = .ok (spec.withAll entries) := by
  induction entries generalizing spec with
  | nil => rfl
  | cons entry entries ih =>
    obtain ⟨name, rule⟩ := entry
    obtain ⟨free, others⟩ := admits_cons.mp admits
    rcases production_eq spec name rule with ⟨-, -, declared⟩ | ⟨taken, -⟩
    · rw [declareEach, List.foldlM_cons]
      change (spec.production name (.ok rule) >>= fun spec => spec.declareEach entries) = _
      rw [declared]
      exact ih others
    · exact absurd free taken

/-- What is not admitted is not declared. -/
theorem declareEach_of_not_admits (refused : ¬ spec.Admits entries) :
    ∃ fault, spec.declareEach entries = .error (.construction fault) := by
  induction entries generalizing spec with
  | nil => exact absurd ⟨nofun, nofun, List.nodup_nil⟩ refused
  | cons entry entries ih =>
    obtain ⟨name, rule⟩ := entry
    rw [declareEach, List.foldlM_cons]
    change ∃ fault, (spec.production name (.ok rule) >>= fun spec => spec.declareEach entries) = _
    rcases production_eq spec name rule with ⟨named, free, declared⟩ | ⟨-, fault, failed⟩
    · rw [declared]
      exact ih fun others => refused (admits_cons.mpr ⟨⟨named, free⟩, others⟩)
    · exact ⟨fault, by rw [failed]; rfl⟩

theorem declareEach_eq_ok_iff {result : Specification} :
    spec.declareEach entries = .ok result ↔
      spec.Admits entries ∧ spec.withAll entries = result := by
  by_cases admits : spec.Admits entries
  · rw [declareEach_of_admits admits, Except.ok.injEq, and_iff_right admits]
  · obtain ⟨fault, failed⟩ := declareEach_of_not_admits admits
    rw [failed]
    exact ⟨nofun, fun held => absurd held.1 admits⟩

theorem Admits.withAll_perm (admits : spec.Admits entries) (perm : entries.Perm entries') :
    spec.withAll entries = spec.withAll entries' := by
  rw [withAll, withAll, Table.insertAll_perm _ admits.unique perm]

/-- In any order, productions come to the same table or to an error. -/
theorem declareEach_perm (perm : entries.Perm entries') {result : Specification} :
    spec.declareEach entries = .ok result ↔ spec.declareEach entries' = .ok result := by
  rw [declareEach_eq_ok_iff, declareEach_eq_ok_iff]
  constructor
  · rintro ⟨admits, rfl⟩
    exact ⟨admits.perm perm, (admits.withAll_perm perm).symm⟩
  · rintro ⟨admits, rfl⟩
    exact ⟨admits.perm perm.symm, (admits.withAll_perm perm.symm).symm⟩

end Specification

end Packrat
