import Packrat.Text.Quoted

/-! # Slices

A slice is a piece of a text between two byte offsets. It exists only when the offsets are in
order and both are character boundaries, so `Slice.of?` is the one way to cut at given offsets.
-/

namespace Packrat

/-- A piece of `buffer`, with the offsets it was cut at. -/
structure Slice where
  buffer : Text
  start : Nat
  stop : Nat
  text : Text
  cut : buffer.between? start stop = some text

namespace Slice

/-- The slice between two byte offsets, if they are boundaries in order. -/
def of? (buffer : Text) (start stop : Nat) : Option Slice :=
  match cut : buffer.between? start stop with
  | some text => some ⟨buffer, start, stop, text, cut⟩
  | none => none

/-- The slice without characters at a byte offset. -/
def emptyAt? (buffer : Text) (offset : Nat) : Option Slice := of? buffer offset offset

/-- The slice that holds all of a text. -/
def whole (buffer : Text) : Slice :=
  ⟨buffer, 0, buffer.byteLength, buffer, by
    have front : buffer.IsBoundary 0 := (Text.isBoundary_iff _ _).2 ⟨0, rfl⟩
    have back : buffer.IsBoundary buffer.byteLength :=
      (Text.isBoundary_iff _ _).2 ⟨buffer.length, by rw [List.take_length]⟩
    have skip : buffer.charsWithin 0 = 0 := by
      simpa using Text.charsWithin_byteLength_take buffer 0
    have all : buffer.charsWithin buffer.byteLength = buffer.length := by
      simpa using Text.charsWithin_byteLength_take buffer buffer.length
    simp [Text.between?, front, back, skip, all]⟩

/-- The number of bytes between the offsets. -/
def byteLength (slice : Slice) : Nat := slice.stop - slice.start

/-- Whether the slice holds no characters. -/
def isEmpty (slice : Slice) : Bool := slice.byteLength == 0

/-- Slices are alike when they hold the same text between the same offsets, whatever text they
were cut from. -/
def same (first second : Slice) : Bool :=
  first.start == second.start && first.stop == second.stop && first.text == second.text

/-- The quoted text with its offsets. -/
def describe (slice : Slice) : String :=
  s!"{slice.text.quoted}@{slice.start}..{slice.stop}"

theorem of?_isSome (buffer : Text) (start stop : Nat) :
    (of? buffer start stop).isSome ↔
      start ≤ stop ∧ buffer.IsBoundary start ∧ buffer.IsBoundary stop := by
  unfold of?
  split <;> rename_i cut <;> simp only [Text.between?] at cut <;> split at cut <;> simp_all

end Slice

end Packrat
