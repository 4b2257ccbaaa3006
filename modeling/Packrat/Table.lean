/-! # Tables of names

A `Table` gives values to names. Its entries stand in the order of the names, by code points, and
no name stands there twice, so tables with the same values are equal (`Table.ext_find?`).
-/

namespace Packrat

/-- Values by name, in the order of the names. -/
structure Table (α : Type) where
  entries : List (String × α)
  sorted : entries.Pairwise fun first second => first.1 < second.1

namespace Table

variable {α : Type}

/-- Puts a value into a list of entries in its place, instead of any value of the same name. -/
def insertEntry (name : String) (value : α) : List (String × α) → List (String × α)
  | [] => [(name, value)]
  | entry :: more =>
      if name < entry.1 then (name, value) :: entry :: more
      else if name = entry.1 then (name, value) :: more
      else entry :: insertEntry name value more

theorem mem_insertEntry {name : String} {value : α} {entries : List (String × α)}
    {entry : String × α} (member : entry ∈ insertEntry name value entries) :
    entry = (name, value) ∨ entry ∈ entries := by
  induction entries with
  | nil => simpa [insertEntry] using member
  | cons head more ih =>
    simp only [insertEntry] at member
    split at member
    · simpa using member
    · split at member
      · rcases List.mem_cons.1 member with same | rest
        · exact .inl same
        · exact .inr (List.mem_cons_of_mem _ rest)
      · rcases List.mem_cons.1 member with rfl | rest
        · exact .inr (List.mem_cons_self ..)
        · exact (ih rest).imp id (List.mem_cons_of_mem _)

/-- Insertion keeps the entries in order. -/
theorem sorted_insertEntry (name : String) (value : α) {entries : List (String × α)}
    (sorted : entries.Pairwise fun first second => first.1 < second.1) :
    (insertEntry name value entries).Pairwise fun first second => first.1 < second.1 := by
  induction entries with
  | nil => simp [insertEntry]
  | cons head more ih =>
    obtain ⟨below, rest⟩ := List.pairwise_cons.1 sorted
    simp only [insertEntry]
    split
    · rename_i before
      refine List.pairwise_cons.2 ⟨fun entry member => ?_, sorted⟩
      rcases List.mem_cons.1 member with rfl | member
      · exact before
      · exact String.lt_trans before (below entry member)
    · split
      · rename_i same
        exact List.pairwise_cons.2 ⟨fun entry member => same ▸ below entry member, rest⟩
      · rename_i notBefore different
        refine List.pairwise_cons.2 ⟨fun entry member => ?_, ih rest⟩
        rcases mem_insertEntry member with rfl | member
        · exact Std.lt_of_le_of_ne (String.not_lt.1 notBefore) (fun same => different same.symm)
        · exact below entry member

/-- The value of a name in a list of entries. -/
def lookupEntry (name : String) : List (String × α) → Option α
  | [] => none
  | entry :: more => if entry.1 = name then some entry.2 else lookupEntry name more

theorem lookupEntry_insertEntry (name other : String) (value : α) (entries : List (String × α)) :
    lookupEntry other (insertEntry name value entries) =
      if name = other then some value else lookupEntry other entries := by
  induction entries with
  | nil => simp [insertEntry, lookupEntry]
  | cons head more ih =>
    simp only [insertEntry]
    split
    · simp only [lookupEntry]
    · split
      · rename_i same
        simp only [lookupEntry, ← same]
        split <;> rfl
      · rename_i different
        simp only [lookupEntry, ih]
        by_cases found : head.1 = other
        · have apart : ¬ name = other := fun same => different (same.trans found.symm)
          simp [found, apart]
        · simp [found]

/-- The table without entries. -/
def empty : Table α := ⟨[], .nil⟩

/-- Gives a name a value, which takes the place of the value it had. -/
def insert (table : Table α) (name : String) (value : α) : Table α :=
  ⟨insertEntry name value table.entries, sorted_insertEntry name value table.sorted⟩

/-- The value of a name. -/
def find? (table : Table α) (name : String) : Option α := lookupEntry name table.entries

/-- Whether a name has a value. -/
def contains (table : Table α) (name : String) : Bool := (table.find? name).isSome

/-- The names in order. -/
def names (table : Table α) : List String := table.entries.map (·.1)

/-- Inserts entries one after the other, so that the last of a name holds. -/
def insertAll (table : Table α) (entries : List (String × α)) : Table α :=
  entries.foldl (fun table entry => table.insert entry.1 entry.2) table

/-- The table of a list of entries, the last of a name holding. -/
def ofList (entries : List (String × α)) : Table α := empty.insertAll entries

@[simp] theorem find?_empty (name : String) : (empty : Table α).find? name = none := rfl

@[simp] theorem find?_insert (table : Table α) (name other : String) (value : α) :
    (table.insert name value).find? other =
      if name = other then some value else table.find? other :=
  lookupEntry_insertEntry name other value table.entries

theorem lookupEntry_append (name : String) (entries more : List (String × α)) :
    lookupEntry name (entries ++ more) =
      (lookupEntry name entries).or (lookupEntry name more) := by
  induction entries with
  | nil => rfl
  | cons entry entries ih =>
    simp only [List.cons_append, lookupEntry]
    split
    · rfl
    · exact ih

theorem find?_insertAll (table : Table α) (entries : List (String × α)) (name : String) :
    (table.insertAll entries).find? name =
      (lookupEntry name entries.reverse).or (table.find? name) := by
  induction entries generalizing table with
  | nil => rfl
  | cons entry entries ih =>
    have step := ih (table.insert entry.1 entry.2)
    rw [find?_insert] at step
    rw [List.reverse_cons, lookupEntry_append, Option.or_assoc]
    refine step.trans (congrArg _ ?_)
    simp only [lookupEntry]
    split <;> rfl

/-- The last entry of a name holds. -/
theorem find?_ofList (entries : List (String × α)) (name : String) :
    (ofList entries).find? name = lookupEntry name entries.reverse :=
  (find?_insertAll empty entries name).trans Option.or_none

private theorem lookupEntry_eq_none_of_lt {name : String} {entries : List (String × α)}
    (below : ∀ entry ∈ entries, name < entry.1) : lookupEntry name entries = none := by
  induction entries with
  | nil => rfl
  | cons head more ih =>
    have apart : ¬ head.1 = name := fun same =>
      String.lt_irrefl _ (same ▸ below head (List.mem_cons_self ..))
    simp only [lookupEntry, apart, if_false]
    exact ih fun entry member => below entry (List.mem_cons_of_mem _ member)

private theorem entries_ext {first second : List (String × α)}
    (sorted : first.Pairwise fun entry next => entry.1 < next.1)
    (sorted' : second.Pairwise fun entry next => entry.1 < next.1)
    (same : ∀ name, lookupEntry name first = lookupEntry name second) : first = second := by
  induction first generalizing second with
  | nil =>
    cases second with
    | nil => rfl
    | cons head more => simpa [lookupEntry] using same head.1
  | cons head more ih =>
    obtain ⟨name, value⟩ := head
    cases second with
    | nil => simpa [lookupEntry] using same name
    | cons head' more' =>
      obtain ⟨name', value'⟩ := head'
      obtain ⟨below, rest⟩ := List.pairwise_cons.1 sorted
      obtain ⟨below', rest'⟩ := List.pairwise_cons.1 sorted'
      have equal : name = name' := by
        refine Classical.byContradiction fun apart => ?_
        have ordered : name < name' ∨ name' < name := by
          rcases String.le_total name name' with le | le
          · exact .inl (Std.lt_of_le_of_ne le apart)
          · exact .inr (Std.lt_of_le_of_ne le (Ne.symm apart))
        rcases ordered with less | less
        · have absent := lookupEntry_eq_none_of_lt fun entry member =>
            String.lt_trans less (below' entry member)
          have here := same name
          simp [lookupEntry, Ne.symm apart, absent] at here
        · have absent := lookupEntry_eq_none_of_lt fun entry member =>
            String.lt_trans less (below entry member)
          have here := same name'
          simp [lookupEntry, apart, absent] at here
      subst equal
      have values : value = value' := by simpa [lookupEntry] using same name
      subst values
      refine congrArg _ (ih rest rest' fun other => ?_)
      by_cases here : name = other
      · subst here
        rw [lookupEntry_eq_none_of_lt below, lookupEntry_eq_none_of_lt below']
      · simpa [lookupEntry, here] using same other

/-- Tables are equal when they give every name the same value. -/
theorem ext_find? {first second : Table α}
    (same : ∀ name, first.find? name = second.find? name) : first = second := by
  obtain ⟨entries, sorted⟩ := first
  obtain ⟨entries', sorted'⟩ := second
  obtain rfl : entries = entries' := entries_ext sorted sorted' same
  rfl

end Table

end Packrat
