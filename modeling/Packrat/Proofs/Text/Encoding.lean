import Packrat.Text.Basic
import Mathlib.Data.List.DropRight
import Mathlib.Order.Bounds.Basic

/-! # Texts as bytes

`Text.bytes` is the UTF-8 form of a text. Each character has a byte that begins it and bytes that go
on with it, and the values of the two kinds are apart, so the byte at an offset alone tells whether
the offset is a boundary (`isCharBoundary_iff`). A newline is a byte that is part of no other
character, so newlines and lines are the same in the bytes before an offset as in the characters
that end there (`count_take_bytes`, `rdropWhile_take_bytes`).
-/

namespace Packrat.Text

/-- The UTF-8 form of a text. -/
def bytes (text : Text) : List UInt8 := text.flatMap String.utf8EncodeChar

/-- Whether a byte goes on with a character that began before it. -/
def isContinuation (byte : UInt8) : Bool := 0x80 ≤ byte && byte < 0xC0

/-- The byte of a newline. -/
def newlineByte : UInt8 := 0x0A

/-- Whether the byte at an offset begins a character, or the text ends there. -/
def isCharBoundary (text : Text) (offset : Nat) : Bool :=
  match text.bytes[offset]? with
  | some byte => !isContinuation byte
  | none => offset = text.bytes.length

@[simp] theorem bytes_nil : bytes [] = [] := rfl

@[simp] theorem bytes_cons (c : Char) (text : Text) :
    bytes (c :: text) = String.utf8EncodeChar c ++ bytes text := rfl

@[simp] theorem bytes_append (front back : Text) :
    bytes (front ++ back) = bytes front ++ bytes back :=
  List.flatMap_append

@[simp] theorem length_bytes (text : Text) : text.bytes.length = text.byteLength := by
  induction text with
  | nil => rfl
  | cons c text ih =>
    rw [bytes_cons, List.length_append, String.length_utf8EncodeChar, ih, byteLength_cons]

section Characters

private theorem begins_ofNat {value : Nat} (small : value < 0x100)
    (apart : value < 0x80 ∨ 0xC0 ≤ value) : isContinuation (.ofNat value) = false := by
  simp only [isContinuation, Bool.and_eq_false_iff, decide_eq_false_iff_not, UInt8.le_iff_toNat_le,
    UInt8.lt_iff_toNat_lt, UInt8.toNat_ofNat', Nat.mod_eq_of_lt small, UInt8.reduceToNat]
  omega

private theorem continues_ofNat (value : Nat) :
    isContinuation (.ofNat (value % 64 + 0x80)) = true := by
  have small : value % 64 + 0x80 < 0x100 := by omega
  simp only [isContinuation, Bool.and_eq_true, decide_eq_true_eq, UInt8.le_iff_toNat_le,
    UInt8.lt_iff_toNat_lt, UInt8.toNat_ofNat', Nat.mod_eq_of_lt small, UInt8.reduceToNat]
  omega

private theorem ofNat_eq_newlineByte {c : Char} {value : Nat} (small : value < 0x100)
    (same : value = 0x0A ↔ c.val.toNat = 0x0A) : UInt8.ofNat value = newlineByte ↔ c = '\n' := by
  rw [newlineByte, ← UInt8.toNat_inj, ← Char.toNat_inj]
  simp only [UInt8.toNat_ofNat', Nat.mod_eq_of_lt small]
  exact same

/-- A character is a byte that begins it and bytes that go on with it. The first is that of a
newline for a newline only. -/
theorem utf8EncodeChar_eq (c : Char) : ∃ lead tail, String.utf8EncodeChar c = lead :: tail ∧
    isContinuation lead = false ∧ (∀ byte ∈ tail, isContinuation byte = true) ∧
    (lead = newlineByte ↔ c = '\n') := by
  have valid : c.val.toNat < 0xD800 ∨ 0xDFFF < c.val.toNat ∧ c.val.toNat < 0x110000 := c.valid
  unfold String.utf8EncodeChar
  dsimp only
  split_ifs
  · exact ⟨_, [], rfl, begins_ofNat (by omega) (by omega), nofun,
      ofNat_eq_newlineByte (by omega) (by omega)⟩
  all_goals
    exact ⟨_, _, rfl, begins_ofNat (by omega) (by omega),
      by simp only [List.forall_mem_cons, continues_ofNat, List.not_mem_nil, false_implies,
        implies_true, and_self],
      ofNat_eq_newlineByte (by omega) (by omega)⟩

/-- The byte of a newline is part of no other character. -/
theorem newlineByte_mem_iff {c : Char} : newlineByte ∈ String.utf8EncodeChar c ↔ c = '\n' := by
  obtain ⟨lead, tail, encoded, -, continues, newline⟩ := utf8EncodeChar_eq c
  rw [encoded, ← newline, List.mem_cons]
  constructor
  · rintro (same | member)
    · exact same.symm
    · exact absurd (continues _ member) (by decide)
  · exact fun same => .inl same.symm

end Characters

section Boundaries

variable {text : Text} {c : Char} {offset : Nat}

/-- A boundary is the start of the text or one of what comes after its first character. -/
theorem isBoundary_cons : IsBoundary (c :: text) offset ↔
    offset = 0 ∨ c.utf8Size ≤ offset ∧ text.IsBoundary (offset - c.utf8Size) := by
  have wide := c.utf8Size_pos
  simp only [IsBoundary, floorBoundary, charsWithin]
  split
  · rw [List.take_succ_cons, byteLength_cons]
    omega
  · rw [List.take_zero, byteLength_nil]
    omega

/-- So many characters end at an offset or before if they are among those that the offset covers. -/
theorem byteLength_take_le_iff {count : Nat} (short : count ≤ text.length) :
    byteLength (text.take count) ≤ offset ↔ count ≤ text.charsWithin offset := by
  induction text generalizing count offset with
  | nil =>
    obtain rfl : count = 0 := by simpa using short
    simp
  | cons c text ih =>
    cases count with
    | zero => simp
    | succ count =>
      have tail := @ih (offset - c.utf8Size) count (by simpa using short)
      rw [List.take_succ_cons, byteLength_cons, charsWithin]
      split <;> omega

theorem charsWithin_min (text : Text) (offset : Nat) :
    text.charsWithin (min offset text.byteLength) = text.charsWithin offset := by
  rcases Nat.le_total offset text.byteLength with within | past
  · rw [Nat.min_eq_left within]
  · have all : text.length ≤ text.charsWithin offset :=
      (byteLength_take_le_iff (Nat.le_refl _)).mp (by rwa [List.take_length])
    have whole := charsWithin_byteLength_take text text.length
    rw [List.take_length, Nat.min_self] at whole
    rw [Nat.min_eq_right past, whole]
    exact Nat.le_antisymm all (charsWithin_le_length ..)

/-- The boundary at an offset or before it is the largest of them. -/
theorem isGreatest_floorBoundary (text : Text) (offset : Nat) :
    IsGreatest {stop | text.IsBoundary stop ∧ stop ≤ offset} (text.floorBoundary offset) := by
  refine ⟨⟨(isBoundary_iff _ _).mpr ⟨_, rfl⟩, floorBoundary_le ..⟩, ?_⟩
  rintro stop ⟨boundary, before⟩
  have covered : text.charsWithin stop ≤ text.charsWithin offset := by
    rw [← byteLength_take_le_iff (charsWithin_le_length ..)]
    exact (floorBoundary_le text stop).trans before
  have long := charsWithin_le_length text offset
  rw [← boundary, floorBoundary, floorBoundary, byteLength_take_le_iff (covered.trans long),
    charsWithin_byteLength_take, Nat.min_eq_left long]
  exact covered

theorem isCharBoundary_zero (text : Text) : text.isCharBoundary 0 = true := by
  cases text with
  | nil => rfl
  | cons c text =>
    obtain ⟨lead, tail, encoded, begins, -⟩ := utf8EncodeChar_eq c
    simp [isCharBoundary, encoded, begins]

/-- No character begins inside another. -/
theorem isCharBoundary_inside (inside : 0 < offset ∧ offset < c.utf8Size) :
    isCharBoundary (c :: text) offset = false := by
  obtain ⟨lead, tail, encoded, -, continues, -⟩ := utf8EncodeChar_eq c
  have long : tail.length + 1 = c.utf8Size := by
    rw [← String.length_utf8EncodeChar, encoded, List.length_cons]
  obtain ⟨index, rfl⟩ := Nat.exists_eq_add_one.mpr inside.1
  have there : index < tail.length := by omega
  have found : (bytes (c :: text))[index + 1]? = some tail[index] := by
    rw [bytes_cons, encoded, List.cons_append, List.getElem?_cons_succ,
      List.getElem?_append_left there, List.getElem?_eq_getElem there]
  rw [isCharBoundary, found]
  simp [continues _ (List.getElem_mem there)]

theorem isCharBoundary_after (after : c.utf8Size ≤ offset) :
    isCharBoundary (c :: text) offset = text.isCharBoundary (offset - c.utf8Size) := by
  have found : (bytes (c :: text))[offset]? = text.bytes[offset - c.utf8Size]? := by
    rw [bytes_cons, List.getElem?_append_right (by simpa using after), String.length_utf8EncodeChar]
  have ends : offset = (bytes (c :: text)).length ↔ offset - c.utf8Size = text.bytes.length := by
    rw [length_bytes, length_bytes, byteLength_cons]
    omega
  rw [isCharBoundary, isCharBoundary, found]
  cases text.bytes[offset - c.utf8Size]? with
  | some byte => rfl
  | none => exact decide_eq_decide.mpr ends

/-- The byte at an offset tells whether the offset is a boundary. -/
theorem isCharBoundary_iff : text.isCharBoundary offset = true ↔ text.IsBoundary offset := by
  induction text generalizing offset with
  | nil => exact decide_eq_true_iff.trans eq_comm
  | cons c text ih =>
    rw [isBoundary_cons]
    by_cases start : offset = 0
    · subst start
      simp [isCharBoundary_zero]
    · by_cases after : c.utf8Size ≤ offset
      · rw [isCharBoundary_after after, ih]
        simp [start, after]
      · rw [isCharBoundary_inside ⟨Nat.pos_of_ne_zero start, Nat.lt_of_not_le after⟩]
        simp [start, after]

end Boundaries

section Newlines

/-- The bytes before an offset are those of the characters that end there or before, and some of a
character that is no newline. -/
theorem take_bytes (text : Text) (offset : Nat) :
    ∃ part, text.bytes.take offset = bytes (text.take (text.charsWithin offset)) ++ part ∧
      newlineByte ∉ part := by
  induction text generalizing offset with
  | nil => exact ⟨[], by simp, nofun⟩
  | cons c text ih =>
    rw [bytes_cons, List.take_append, String.length_utf8EncodeChar, charsWithin]
    split
    · rename_i fits
      obtain ⟨part, same, none⟩ := ih (offset - c.utf8Size)
      refine ⟨part, ?_, none⟩
      rw [List.take_of_length_le (by simpa using fits), same, List.take_succ_cons, bytes_cons,
        List.append_assoc]
    · rename_i cut
      refine ⟨(String.utf8EncodeChar c).take offset, ?_, fun member => ?_⟩
      · rw [Nat.sub_eq_zero_of_le (by omega), List.take_zero, List.take_zero, bytes_nil,
          List.append_nil, List.nil_append]
      · obtain rfl := newlineByte_mem_iff.mp (List.mem_of_mem_take member)
        obtain rfl : offset = 0 := by
          have : Char.utf8Size '\n' = 1 := rfl
          omega
        simp at member

theorem count_bytes (text : Text) : text.bytes.count newlineByte = text.count '\n' := by
  induction text with
  | nil => rfl
  | cons c text ih =>
    rw [bytes_cons, List.count_append, ih]
    by_cases newline : c = '\n'
    · subst newline
      rw [List.count_cons_self, Nat.add_comm]
      rfl
    · rw [List.count_eq_zero_of_not_mem (fun member => newline (newlineByte_mem_iff.mp member)),
        List.count_cons_of_ne newline, Nat.zero_add]

/-- The newlines among the bytes before an offset are those among the characters that end there. -/
theorem count_take_bytes (text : Text) (offset : Nat) :
    (text.bytes.take offset).count newlineByte =
      (text.take (text.charsWithin offset)).count '\n' := by
  obtain ⟨part, same, none⟩ := take_bytes text offset
  rw [same, List.count_append, List.count_eq_zero_of_not_mem none, count_bytes, Nat.add_zero]

private theorem rdropWhile_append {part bytes : List UInt8} (none : newlineByte ∉ part) :
    (bytes ++ part).rdropWhile (· ≠ newlineByte) = bytes.rdropWhile (· ≠ newlineByte) := by
  rw [List.rdropWhile, List.reverse_append, List.dropWhile_append_of_pos, List.rdropWhile]
  intro byte member
  simp only [ne_eq, decide_not, Bool.not_eq_true', decide_eq_false_iff_not]
  rintro rfl
  exact none (List.mem_reverse.mp member)

theorem rdropWhile_bytes (text : Text) :
    text.bytes.rdropWhile (· ≠ newlineByte) = bytes (text.rdropWhile (· ≠ '\n')) := by
  induction text using List.reverseRecOn with
  | nil => rfl
  | append_singleton text c ih =>
    have single : bytes [c] = String.utf8EncodeChar c := by simp
    rw [bytes_append, single]
    by_cases newline : c = '\n'
    · subst newline
      rw [List.rdropWhile_concat_neg _ _ _ (by simp), bytes_append, single]
      exact List.rdropWhile_concat_neg _ _ _ (by decide)
    · rw [rdropWhile_append (fun member => newline (newlineByte_mem_iff.mp member)), ih,
        List.rdropWhile_concat_pos _ _ _ (by simpa using newline)]

/-- The lines that end among the bytes before an offset are those that end among the characters. -/
theorem rdropWhile_take_bytes (text : Text) (offset : Nat) :
    (text.bytes.take offset).rdropWhile (· ≠ newlineByte) =
      bytes ((text.take (text.charsWithin offset)).rdropWhile (· ≠ '\n')) := by
  obtain ⟨part, same, none⟩ := take_bytes text offset
  rw [same, rdropWhile_append none, rdropWhile_bytes]

end Newlines

end Packrat.Text
