import Packrat.Proofs.Cursor
import Packrat.Proofs.Text.Encoding

/-! # Moving to an offset

A cursor goes to any offset: the offset is clamped to the text and then moved back byte by byte
while it is inside a character, which never goes back from the start, as the start is a boundary
(`snapBack?_eq`). Moving on by a number of bytes goes to the sum of the offsets, if there is such an
offset (`Cursor.advance?_eq_none_iff`).
-/

namespace Packrat

namespace Text

/-- The first offset that ends a step back, byte by byte from a given one, outside of characters.
There is none if that leads back from the start. -/
def snapBack? (text : Text) : Nat → Option Nat
  | 0 => if text.isCharBoundary 0 then some 0 else none
  | offset + 1 =>
      if text.isCharBoundary (offset + 1) then some (offset + 1) else text.snapBack? offset

/-- Stepping back ends at the last boundary that is not past the offset. -/
theorem snapBack?_eq (text : Text) (offset : Nat) :
    text.snapBack? offset = some (text.floorBoundary offset) := by
  induction offset with
  | zero =>
    rw [snapBack?, if_pos text.isCharBoundary_zero, Nat.le_zero.mp (floorBoundary_le text 0)]
  | succ offset ih =>
    rw [snapBack?]
    by_cases boundary : text.IsBoundary (offset + 1)
    · rw [if_pos (isCharBoundary_iff.mpr boundary), boundary]
    · have last := isGreatest_floorBoundary text (offset + 1)
      have inside : text.floorBoundary (offset + 1) ≠ offset + 1 := boundary
      have before : IsGreatest {stop | text.IsBoundary stop ∧ stop ≤ offset}
          (text.floorBoundary (offset + 1)) :=
        ⟨⟨last.1.1, Nat.le_of_lt_succ (lt_of_le_of_ne last.1.2 inside)⟩,
          fun stop found => last.2 ⟨found.1, Nat.le_succ_of_le found.2⟩⟩
      rw [if_neg (mt isCharBoundary_iff.mp boundary), ih,
        (isGreatest_floorBoundary text offset).unique before]

/-- An offset past the end covers what the end covers. -/
theorem floorBoundary_min (text : Text) (offset : Nat) :
    text.floorBoundary (min offset text.byteLength) = text.floorBoundary offset := by
  rw [floorBoundary, floorBoundary, charsWithin_min]

/-- The end of the text is the last boundary before every offset from there on. -/
theorem floorBoundary_of_le {text : Text} {offset : Nat} (past : text.byteLength ≤ offset) :
    text.floorBoundary offset = text.byteLength := by
  rw [← floorBoundary_min, Nat.min_eq_right past]
  exact (isBoundary_iff _ _).mpr ⟨text.length, by rw [List.take_length]⟩

end Text

namespace Cursor

variable {cursor : Cursor} {bytes : Nat}

/-- Only a sum past the largest offset keeps a cursor from moving on. -/
theorem advance?_eq_none_iff :
    cursor.advance? bytes = none ↔ offsetBound ≤ cursor.offset + bytes := by
  rw [advance?]
  split
  · rename_i below
    exact ⟨nofun, fun past => absurd below (Nat.not_lt.mpr past)⟩
  · rename_i past
    exact ⟨fun _ => Nat.le_of_not_lt past, fun _ => rfl⟩

theorem advance?_eq (below : cursor.offset + bytes < offsetBound) :
    cursor.advance? bytes = some (cursor.seek (cursor.offset + bytes)) := if_pos below

/-- From everywhere but the start there is a number of bytes that leads past the largest offset. -/
theorem exists_advance?_eq_none_iff :
    (∃ bytes < offsetBound, cursor.advance? bytes = none) ↔ cursor.offset ≠ 0 := by
  have positive : 0 < offsetBound := by decide
  constructor
  · rintro ⟨bytes, below, fails⟩
    have past := advance?_eq_none_iff.mp fails
    omega
  · intro further
    exact ⟨offsetBound - 1, by omega, advance?_eq_none_iff.mpr (by omega)⟩

/-- Every offset is clamped to the text and moved back to a boundary, the largest that is not past
it. Moving on by a number of bytes goes to the sum of the offsets, and stays at the end if that is
past it, unless the sum is past the largest offset that there is, which some numbers lead to from
everywhere but the start. -/
theorem seek_and_advance (cursor : Cursor) :
    (∀ offset, (cursor.seek offset).text = cursor.text ∧
      cursor.text.snapBack? (min offset cursor.text.byteLength) = some (cursor.seek offset).offset ∧
      IsGreatest {stop | cursor.text.isCharBoundary stop = true ∧
        stop ≤ min offset cursor.text.byteLength} (cursor.seek offset).offset) ∧
    (∀ bytes, cursor.offset + bytes < offsetBound →
      cursor.advance? bytes = some (cursor.seek (cursor.offset + bytes))) ∧
    (∀ bytes, cursor.text.byteLength ≤ cursor.offset + bytes →
      (cursor.seek (cursor.offset + bytes)).offset = cursor.text.byteLength ∧
      (cursor.seek (cursor.offset + bytes)).rest = []) ∧
    (∀ bytes, cursor.advance? bytes = none ↔ offsetBound ≤ cursor.offset + bytes) ∧
    ((∃ bytes < offsetBound, cursor.advance? bytes = none) ↔ cursor.offset ≠ 0) := by
  refine ⟨fun offset => ⟨text_seek .., ?_, ?_⟩, fun bytes => advance?_eq, fun bytes past => ?_,
    fun bytes => advance?_eq_none_iff, exists_advance?_eq_none_iff⟩
  · rw [Text.snapBack?_eq, Text.floorBoundary_min, offset_seek]
  · simp only [Text.isCharBoundary_iff]
    rw [offset_seek, ← Text.floorBoundary_min]
    exact Text.isGreatest_floorBoundary ..
  · have ended : (cursor.seek (cursor.offset + bytes)).offset = cursor.text.byteLength := by
      rw [offset_seek, Text.floorBoundary_of_le past]
    exact ⟨ended, offset_eq_byteLength_iff.mp (by rw [ended, text_seek])⟩

theorem seek_and_advance_wide :
    let cursor := (start ['é', '€']).forward 1
    cursor.offset + 2 < offsetBound ∧ cursor.advance? 2 = some cursor ∧
      cursor.text.byteLength ≤ cursor.offset + 7 ∧
      (cursor.seek (cursor.offset + 7)).offset = 5 := by
  obtain ⟨-, moves, ends, -⟩ := seek_and_advance ((start ['é', '€']).forward 1)
  have inside := moves 2 (by decide)
  have past := ends 7 (by decide)
  exact ⟨by decide, inside.trans (by decide), by decide, past.1⟩

/-- Moving on from the end of a text by the largest number of bytes fails, although every offset
past the end leads to the end. -/
theorem largest_step_fails_at_end :
    let cursor := (start ['a']).forward 1
    let bytes := offsetBound - 1
    bytes < offsetBound ∧ cursor.advance? bytes = none ∧
      cursor.text.byteLength ≤ cursor.offset + bytes ∧
      cursor.seek (cursor.offset + bytes) = cursor := by
  decide

end Cursor

end Packrat
