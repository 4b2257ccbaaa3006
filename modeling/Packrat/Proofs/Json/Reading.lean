import Packrat.Proofs.Json.Document

/-! # Reading documents

`Document.read` reads the value of a document off its tokens, from the first to the last. It gives
the value that the document stands for (`Document.read_eq_ok_iff`), or the error of the first token
that stands for nothing (`Document.read_eq_error_iff`).
-/

namespace Packrat.Json

mutual

/-- The value of a document. -/
def Document.read : Document → Except Error Value
  | .object members => do return .ofMembers (← members.read)
  | .emptyObject => .ok (.ofMembers [])
  | .array elements => do return .array (← elements.read)
  | .emptyArray => .ok (.array [])
  | .string raw => (stringOf raw.1).map .string
  | .number raw => numberOf raw.1
  | .bool value => .ok (.bool value)
  | .null => .ok .null

/-- The keys and values of members. -/
def Members.read : Members → Except Error (List (String × Value))
  | .last key value => do
      let key ← stringOf key.1
      return [(key, ← value.read)]
  | .more key value rest => do
      let key ← stringOf key.1
      let value ← value.read
      return (key, value) :: (← rest.read)

/-- The items of elements. -/
def Elements.read : Elements → Except Error (List Value)
  | .last item => do return [← item.read]
  | .more item rest => do
      let item ← item.read
      return item :: (← rest.read)

end

/-- Entries with the same values in the same order of names are the same. -/
private theorem entries_eq {members entries entries' : List (String × Value)}
    (last : LastHolds members entries) (last' : LastHolds members entries') :
    entries = entries' := by
  have same : (⟨entries, last.1⟩ : Table Value) = ⟨entries', last'.1⟩ :=
    Table.ext_find? fun name => (last.2 name).trans (last'.2 name).symm
  exact congrArg Table.entries same

/-- Inserting members one after the other keeps the last of every name. -/
theorem lastHolds_insert (members : List (String × Value)) :
    LastHolds members
      (members.foldl (fun entries member => Table.insertEntry member.1 member.2 entries) []) := by
  suffices kept : ∀ entries : List (String × Value),
      (entries.Pairwise fun first second => first.1 < second.1) →
      ((members.foldl (fun entries member => Table.insertEntry member.1 member.2 entries)
          entries).Pairwise fun first second => first.1 < second.1) ∧
        ∀ name, Table.lookupEntry name
          (members.foldl (fun entries member => Table.insertEntry member.1 member.2 entries)
            entries) =
          (Table.lookupEntry name members.reverse).or (Table.lookupEntry name entries) by
    refine ⟨(kept [] .nil).1, fun name => ?_⟩
    rw [(kept [] .nil).2 name]
    simp [Table.lookupEntry]
  induction members with
  | nil => exact fun entries sorted => ⟨sorted, fun name => rfl⟩
  | cons member members ih =>
    intro entries sorted
    obtain ⟨ordered, found⟩ := ih _ (Table.sorted_insertEntry member.1 member.2 sorted)
    refine ⟨ordered, fun name => ?_⟩
    rw [List.foldl_cons, found, Table.lookupEntry_insertEntry, List.reverse_cons,
      Table.lookupEntry_append, Option.or_assoc]
    congr 1
    simp only [Table.lookupEntry]
    split <;> rfl

section Values

mutual

private theorem denotes_of_read : ∀ (document : Document) (value : Value),
    document.read = .ok value → document.Denotes value
  | .object members, value, done => by
      obtain ⟨values, each, done⟩ := Error.bind_eq_ok.mp done
      cases done
      exact .object (denote_of_members members values each) (lastHolds_insert values)
  | .emptyObject, value, done => by
      cases done
      exact .emptyObject
  | .array elements, value, done => by
      obtain ⟨items, each, done⟩ := Error.bind_eq_ok.mp done
      cases done
      exact .array (denote_of_elements elements items each)
  | .emptyArray, value, done => by
      cases done
      exact .emptyArray
  | .string raw, value, done => by
      rw [Document.read] at done
      cases decodes : stringOf raw.1 with
      | ok text =>
        rw [decodes] at done
        cases done
        exact .string decodes
      | error fault =>
        rw [decodes] at done
        cases done
  | .number raw, value, done => .number done
  | .bool truth, value, done => by
      cases done
      exact .bool
  | .null, value, done => by
      cases done
      exact .null

private theorem denote_of_members : ∀ (members : Members) (values : List (String × Value)),
    members.read = .ok values → members.Denote values
  | .last raw document, values, done => by
      obtain ⟨key, decodes, done⟩ := Error.bind_eq_ok.mp done
      obtain ⟨value, here, done⟩ := Error.bind_eq_ok.mp done
      cases done
      exact .last decodes (denotes_of_read document value here)
  | .more raw document rest, values, done => by
      obtain ⟨key, decodes, done⟩ := Error.bind_eq_ok.mp done
      obtain ⟨value, here, done⟩ := Error.bind_eq_ok.mp done
      obtain ⟨others, later, done⟩ := Error.bind_eq_ok.mp done
      cases done
      exact .more decodes (denotes_of_read document value here)
        (denote_of_members rest others later)

private theorem denote_of_elements : ∀ (elements : Elements) (items : List Value),
    elements.read = .ok items → elements.Denote items
  | .last document, items, done => by
      obtain ⟨item, here, done⟩ := Error.bind_eq_ok.mp done
      cases done
      exact .last (denotes_of_read document item here)
  | .more document rest, items, done => by
      obtain ⟨item, here, done⟩ := Error.bind_eq_ok.mp done
      obtain ⟨others, later, done⟩ := Error.bind_eq_ok.mp done
      cases done
      exact .more (denotes_of_read document item here) (denote_of_elements rest others later)

end

mutual

private theorem read_of_denotes : ∀ (document : Document) (value : Value),
    document.Denotes value → document.read = .ok value
  | .object members, _, .object each last => by
      have values := read_of_members members _ each
      have same := entries_eq last (lastHolds_insert _)
      rw [Document.read, values, same]
      rfl
  | .emptyObject, _, .emptyObject => rfl
  | .array elements, _, .array each => by
      rw [Document.read, read_of_elements elements _ each]
      rfl
  | .emptyArray, _, .emptyArray => rfl
  | .string raw, _, .string decodes => by
      rw [Document.read, decodes]
      rfl
  | .number raw, _, .number decodes => decodes
  | .bool _, _, .bool => rfl
  | .null, _, .null => rfl

private theorem read_of_members : ∀ (members : Members) (values : List (String × Value)),
    members.Denote values → members.read = .ok values
  | .last raw document, _, .last decodes denotes => by
      rw [Members.read, decodes, read_of_denotes document _ denotes]
      rfl
  | .more raw document rest, _, .more decodes denotes others => by
      rw [Members.read, decodes, read_of_denotes document _ denotes,
        read_of_members rest _ others]
      rfl

private theorem read_of_elements : ∀ (elements : Elements) (items : List Value),
    elements.Denote items → elements.read = .ok items
  | .last document, _, .last denotes => by
      rw [Elements.read, read_of_denotes document _ denotes]
      rfl
  | .more document rest, _, .more denotes others => by
      rw [Elements.read, read_of_denotes document _ denotes, read_of_elements rest _ others]
      rfl

end

/-- Reading gives a value exactly if the document stands for it. -/
theorem Document.read_eq_ok_iff {document : Document} {value : Value} :
    document.read = .ok value ↔ document.Denotes value :=
  ⟨denotes_of_read document value, read_of_denotes document value⟩

end Values

section Faults

open Lexeme (errorOf)

private theorem errorOf_map {α β : Type} (result : Except Error α) (change : α → β) :
    errorOf (result.map change) = errorOf result := by
  cases result <;> rfl

/-- The error of two steps is that of the first, or else that of the second. -/
private theorem errorOf_bind {α β : Type} {result : Except Error α} {next : α → Except Error β}
    {fault : Option Error} (after : ∀ value, errorOf (next value) = fault) :
    errorOf (result >>= next) = (errorOf result).or fault := by
  cases result with
  | ok value => exact after value
  | error other => rfl

/-- The error of a step before a result is that of the step. -/
private theorem errorOf_bind_pure {α β : Type} (result : Except Error α) (done : α → β) :
    errorOf (do return done (← result)) = errorOf result := by
  cases result <;> rfl

private theorem findSome?_cons_or (lexeme : Lexeme) (more : List Lexeme) :
    (lexeme :: more).findSome? Lexeme.fault? =
      lexeme.fault?.or (more.findSome? Lexeme.fault?) := by
  rw [List.findSome?_cons]
  cases lexeme.fault? <;> rfl

mutual

private theorem errorOf_read : ∀ document : Document,
    errorOf document.read = document.lexemes.findSome? Lexeme.fault?
  | .object members => by
      rw [Document.read, errorOf_bind_pure, errorOf_members members,
        Document.lexemes, findSome?_cons_or, List.findSome?_append]
      exact Option.or_none.symm
  | .emptyObject => rfl
  | .array elements => by
      rw [Document.read, errorOf_bind_pure, errorOf_elements elements,
        Document.lexemes, findSome?_cons_or, List.findSome?_append]
      exact Option.or_none.symm
  | .emptyArray => rfl
  | .string raw => by
      rw [Document.read, errorOf_map, Document.lexemes, findSome?_cons_or]
      exact Option.or_none.symm
  | .number raw => by
      rw [Document.read, Document.lexemes, findSome?_cons_or]
      exact Option.or_none.symm
  | .bool _ => rfl
  | .null => rfl

private theorem errorOf_members : ∀ members : Members,
    errorOf members.read = members.lexemes.findSome? Lexeme.fault?
  | .last key value => by
      rw [Members.read, errorOf_bind fun _ => errorOf_bind_pure _ _,
        errorOf_read value, Members.lexemes, findSome?_cons_or, findSome?_cons_or]
      rfl
  | .more key value rest => by
      rw [Members.read, errorOf_bind fun _ => errorOf_bind fun _ =>
          errorOf_bind_pure _ _,
        errorOf_read value, errorOf_members rest, Members.lexemes, findSome?_cons_or,
        findSome?_cons_or, List.findSome?_append, findSome?_cons_or]
      rfl

private theorem errorOf_elements : ∀ elements : Elements,
    errorOf elements.read = elements.lexemes.findSome? Lexeme.fault?
  | .last item => by
      rw [Elements.read, errorOf_bind_pure, errorOf_read item, Elements.lexemes]
  | .more item rest => by
      rw [Elements.read, errorOf_bind fun _ => errorOf_bind_pure _ _,
        errorOf_read item, errorOf_elements rest, Elements.lexemes, List.findSome?_append,
        findSome?_cons_or]
      rfl

end

/-- Reading fails exactly with the error of the first token that stands for nothing. -/
theorem Document.read_eq_error_iff {document : Document} {fault : Error} :
    document.read = .error fault ↔ document.fault? = some fault := by
  rw [Document.fault?, ← errorOf_read]
  cases document.read with
  | ok value => exact ⟨nofun, nofun⟩
  | error other => exact ⟨fun same => by cases same; rfl, fun same => by cases same; rfl⟩

end Faults

end Packrat.Json
