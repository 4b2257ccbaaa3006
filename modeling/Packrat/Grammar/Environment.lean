import Packrat.Grammar.Basic
import Std.Data.HashMap

/-! # Environments

An environment applies the productions of a grammar to one text and remembers every outcome by
the name of the production and the offset, so that no body is evaluated twice at one place.
-/

namespace Packrat

/-- The outcomes found so far, with the counts of how the table was used. -/
structure Memo where
  outcomes : Std.HashMap (String × Nat) Outcome
  hits : Nat
  misses : Nat
  entries : Nat

namespace Memo

/-- The table before anything is applied. -/
def empty : Memo := ⟨∅, 0, 0, 0⟩

/-- The outcome of a production at an offset, if it was found before. -/
def outcome? (memo : Memo) (name : String) (offset : Nat) : Option Outcome :=
  memo.outcomes[(name, offset)]?

/-- Counts an outcome that was found in the table. -/
def hit (memo : Memo) : Memo := { memo with hits := memo.hits + 1 }

/-- Counts an outcome that was not. -/
def miss (memo : Memo) : Memo := { memo with misses := memo.misses + 1 }

/-- Keeps an outcome, and counts it unless one was kept in its place. -/
def store (memo : Memo) (name : String) (offset : Nat) (outcome : Outcome) : Memo :=
  { memo with
    outcomes := memo.outcomes.insert (name, offset) outcome
    entries := if memo.outcomes.contains (name, offset) then memo.entries else memo.entries + 1 }

/-- A stored outcome is the one found later, and no other changes. -/
theorem outcome?_store (memo : Memo) (name other : String) (offset place : Nat)
    (outcome : Outcome) :
    (memo.store name offset outcome).outcome? other place =
      if (name, offset) = (other, place) then some outcome else memo.outcome? other place := by
  simp [outcome?, store, Std.HashMap.getElem?_insert]

@[simp] theorem outcome?_hit (memo : Memo) (name : String) (offset : Nat) :
    memo.hit.outcome? name offset = memo.outcome? name offset := rfl

@[simp] theorem outcome?_miss (memo : Memo) (name : String) (offset : Nat) :
    memo.miss.outcome? name offset = memo.outcome? name offset := rfl

end Memo

/-- A computation that uses the table and may fail to end. -/
abbrev Memoized := StateT Memo Option

namespace Grammar

/-- Applies a production with applications nested at most `depth` deep, unless the table has the
outcome. -/
def applyMemoized (grammar : Grammar) : Nat → String → Cursor → Memoized (Option Outcome)
  | 0, _, _ => failure
  | depth + 1, name, cursor =>
      match grammar.productions.find? name with
      | none => return none
      | some rule => do
          match (← get).outcome? name cursor.offset with
          | some outcome =>
              modify Memo.hit
              return some outcome
          | none =>
              modify Memo.miss
              let outcome ← rule.eval
                ⟨grammar.lexicon, grammar.ignore, grammar.applyMemoized depth⟩ cursor
              modify (·.store name cursor.offset outcome)
              return some outcome

end Grammar

/-- A grammar with the outcomes that were found for it in one text. -/
structure Environment where
  grammar : Grammar
  memo : Memo

namespace Environment

/-- The environment of a grammar before anything is applied. -/
def start (grammar : Grammar) : Environment := ⟨grammar, .empty⟩

/-- Runs a computation on the table. -/
def run {α : Type} (environment : Environment) (action : Memoized α) : Option (α × Environment) :=
  (StateT.run action environment.memo).map fun (result, memo) =>
    (result, { environment with memo })

/-- Applies the production of a name at a cursor. The outcome is absent if there is no such
production, and the whole result if the application does not end. -/
def applyAt? (environment : Environment) (name : String) (cursor : Cursor) :
    Option (Option Outcome × Environment) :=
  let grammar := environment.grammar
  environment.run (grammar.applyMemoized (grammar.depthLimit cursor.text.length) name cursor)

/-- Applies a rule at a cursor. The result is absent if the application does not end. -/
def evalAt? (environment : Environment) (rule : Rule) (cursor : Cursor) :
    Option (Outcome × Environment) :=
  let grammar := environment.grammar
  environment.run (rule.eval ⟨grammar.lexicon, grammar.ignore,
    grammar.applyMemoized (grammar.depthLimit cursor.text.length)⟩ cursor)

end Environment

end Packrat
