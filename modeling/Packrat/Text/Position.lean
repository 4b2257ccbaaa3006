import Packrat.Text.Basic

/-! # Lines and columns

A `Position` says where a byte offset lies in a text, counting lines by newlines and columns by
characters, both from one. An offset inside a character belongs to that character.
-/

namespace Packrat

/-- A line and a column, with the byte offset that they describe. -/
structure Position where
  line : Nat
  column : Nat
  offset : Nat
  deriving DecidableEq, Repr

namespace Position

/-- The start of every text. -/
def start : Position := ⟨1, 1, 0⟩

/-- The line and column after one more character. -/
def step (place : Nat × Nat) (c : Char) : Nat × Nat :=
  if c = '\n' then (place.1 + 1, 1) else (place.1, place.2 + 1)

/-- The position of a byte offset, which is moved back to the end of a shorter text. -/
def locate (text : Text) (offset : Nat) : Position :=
  let within := min offset text.byteLength
  let place := (text.take (text.charsWithin within)).foldl step (1, 1)
  ⟨place.1, place.2, within⟩

/-- The written form, with the line and the column first. -/
def display (position : Position) : String :=
  s!"{position.line}:{position.column} (offset {position.offset})"

@[simp] theorem locate_offset (text : Text) (offset : Nat) :
    (locate text offset).offset = min offset text.byteLength := rfl

@[simp] theorem locate_zero (text : Text) : locate text 0 = start := by
  have none : text.charsWithin 0 = 0 := by
    cases text with
    | nil => rfl
    | cons c rest =>
      have wide : ¬ c.utf8Size ≤ 0 := by have := c.utf8Size_pos; omega
      simp [Text.charsWithin, wide]
  simp [locate, none, start]

end Position

end Packrat
