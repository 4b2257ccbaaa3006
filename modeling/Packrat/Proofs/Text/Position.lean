import Packrat.Proofs.Text.Encoding
import Packrat.Text.Position
import Mathlib.Data.Prod.Lex
import Mathlib.Order.Monotone.Basic

/-! # Lines and columns

The line of an offset counts the newlines among the bytes before it, and its column the whole
characters since the last of them (`line_locate`, `column_locate`). One more character always leads
to a later line or to a later column of the same line, so the places of a text are in the order of
their lines and columns (`toLex_lt_of_isBoundary`).
-/

namespace Packrat

namespace Text

/-- The offset after the last newline before an offset, or the start of the text. -/
def lineStart (text : Text) (offset : Nat) : Nat :=
  ((text.bytes.take offset).rdropWhile (· ≠ newlineByte)).length

/-- The number of characters that lie between two offsets as a whole. -/
def wholeCharacters (text : Text) (start stop : Nat) : Nat :=
  (List.range text.length).countP fun index =>
    start ≤ byteLength (text.take index) ∧ byteLength (text.take (index + 1)) ≤ stop

variable {text : Text} {offset : Nat}

/-- An offset inside a character covers the characters before that one. -/
theorem charsWithin_inside {front back : Text} {c : Char} (after : front.byteLength ≤ offset)
    (inside : offset < front.byteLength + c.utf8Size) :
    charsWithin (front ++ c :: back) offset = front.length := by
  induction front generalizing offset with
  | nil => exact if_neg (by simpa using inside)
  | cons d front ih =>
    rw [byteLength_cons] at after inside
    rw [List.cons_append, charsWithin, if_pos (by omega), ih (by omega) (by omega),
      List.length_cons]

private theorem countP_range_between {first last : Nat} (length : Nat) :
    (List.range length).countP (fun index => first ≤ index ∧ index < last) =
      min last length - first := by
  induction length with
  | zero => simp
  | succ length ih =>
    rw [List.range_succ, List.countP_append, ih, List.countP_singleton]
    split <;> simp only [decide_eq_true_eq] at * <;> omega

/-- From the end of some characters on, those lie before an offset as a whole that it covers and
that are not among them. -/
theorem wholeCharacters_eq {first : Nat} (short : first ≤ text.length) (stop : Nat) :
    text.wholeCharacters (byteLength (text.take first)) stop = text.charsWithin stop - first := by
  have within (index : Nat) (member : index ∈ List.range text.length) :
      byteLength (text.take first) ≤ byteLength (text.take index) ∧
        byteLength (text.take (index + 1)) ≤ stop ↔
      first ≤ index ∧ index < text.charsWithin stop := by
    have inside := List.mem_range.mp member
    rw [byteLength_take_le_iff short, charsWithin_byteLength_take, byteLength_take_le_iff inside]
    omega
  have counted := @countP_range_between first (text.charsWithin stop) text.length
  rw [wholeCharacters, ← Nat.min_eq_left (charsWithin_le_length text stop), ← counted]
  exact List.countP_congr fun index member => by simpa using within index member

/-- A line starts at the end of the characters before it. -/
theorem lineStart_eq (text : Text) (offset : Nat) : text.lineStart offset = byteLength (text.take
    ((text.take (text.charsWithin offset)).rdropWhile (· ≠ '\n')).length) := by
  have lines : (text.take (text.charsWithin offset)).rdropWhile (· ≠ '\n') <+:
      text.take (text.charsWithin offset) := List.rdropWhile_prefix _ _
  have front := lines.trans (List.take_prefix ..)
  rw [lineStart, rdropWhile_take_bytes, length_bytes, ← List.prefix_iff_eq_take.mp front]

end Text

namespace Position

open Text

section Steps

variable (place : Nat × Nat) (text : Text)

theorem line_foldl_step : (text.foldl step place).1 = place.1 + text.count '\n' := by
  induction text generalizing place with
  | nil => rfl
  | cons c text ih =>
    rw [List.foldl_cons, ih, step]
    split
    · rename_i newline
      rw [newline, List.count_cons_self]
      omega
    · rename_i other
      rw [List.count_cons_of_ne other]

theorem column_foldl_step :
    (text.foldl step (1, 1)).2 = 1 + (text.rtakeWhile (· ≠ '\n')).length := by
  induction text using List.reverseRecOn with
  | nil => rfl
  | append_singleton text c ih =>
    rw [List.foldl_append, List.foldl_cons, List.foldl_nil, step]
    split
    · rename_i newline
      rw [List.rtakeWhile_concat_neg _ _ _ (by simp [newline])]
      rfl
    · rename_i other
      rw [List.rtakeWhile_concat_pos _ _ _ (by simpa using other), List.length_append, ih]
      rfl

theorem toLex_lt_step (c : Char) : toLex place < toLex (step place c) := by
  rw [Prod.Lex.toLex_lt_toLex, step]
  split
  · exact .inl (Nat.lt_succ_self _)
  · exact .inr ⟨rfl, Nat.lt_succ_self _⟩

/-- Some characters further on, the line or the column is later. -/
theorem toLex_lt_foldl_step {text : Text} (further : text ≠ []) :
    toLex place < toLex (text.foldl step place) := by
  induction text generalizing place with
  | nil => exact absurd rfl further
  | cons c text ih =>
    cases text with
    | nil => exact toLex_lt_step place c
    | cons d text => exact (toLex_lt_step place c).trans (ih _ (List.cons_ne_nil _ _))

end Steps

variable (text : Text) (offset : Nat)

/-- Where an offset lies depends on the characters that it covers only. -/
theorem locate_eq : locate text offset =
    let place := (text.take (text.charsWithin offset)).foldl step (1, 1)
    ⟨place.1, place.2, min offset text.byteLength⟩ := by
  rw [locate, charsWithin_min]

/-- The line counts the newlines among the bytes before the offset. -/
theorem line_locate :
    (locate text offset).line = 1 + (text.bytes.take offset).count newlineByte := by
  rw [locate_eq, count_take_bytes]
  exact line_foldl_step ..

/-- The column counts the whole characters after the last newline before the offset. -/
theorem column_locate :
    (locate text offset).column = 1 + text.wholeCharacters (text.lineStart offset) offset := by
  have parts := congrArg List.length (List.rdropWhile_append_rtakeWhile (p := (· ≠ '\n'))
    (l := text.take (text.charsWithin offset)))
  rw [List.length_append, List.length_take, Nat.min_eq_left (charsWithin_le_length ..)] at parts
  have short := charsWithin_le_length text offset
  rw [lineStart_eq, wholeCharacters_eq (by omega), locate_eq]
  refine (column_foldl_step _).trans ?_
  omega

/-- A boundary has a later line or column than every offset before it. -/
theorem toLex_lt_of_isBoundary {text : Text} {first second : Nat}
    (boundary : text.IsBoundary second) (before : first < second) :
    toLex ((locate text first).line, (locate text first).column) <
      toLex ((locate text second).line, (locate text second).column) := by
  have fewer : text.charsWithin first < text.charsWithin second := by
    rw [IsBoundary, floorBoundary] at boundary
    by_contra more
    have reached := (byteLength_take_le_iff (charsWithin_le_length text second)).mpr
      (Nat.le_of_not_lt more)
    omega
  obtain ⟨further, same⟩ := Nat.exists_eq_add_of_lt fewer
  have front : text.take (text.charsWithin second) = text.take (text.charsWithin first) ++
      (text.drop (text.charsWithin first)).take (further + 1) := by
    rw [same, Nat.add_assoc, List.take_add]
  have left := charsWithin_le_length text second
  rw [locate_eq, locate_eq, front, List.foldl_append]
  refine toLex_lt_foldl_step _ (List.ne_nil_of_length_pos ?_)
  rw [List.length_take, List.length_drop]
  omega

end Position

/-- The position of an offset counts the newlines before it and the whole characters since the last
of them, and inside a character it is that of the character. On the boundaries of a text, lines and
columns are strictly increasing, so no two boundaries share both. -/
theorem Position.locate_counts_and_increases (text : Text) :
    (∀ offset, (locate text offset).offset = min offset text.byteLength ∧
      (locate text offset).line = 1 + (text.bytes.take offset).count Text.newlineByte ∧
      (locate text offset).column = 1 + text.wholeCharacters (text.lineStart offset) offset) ∧
    (∀ (front : Text) c back offset, text = front ++ c :: back → front.byteLength ≤ offset →
      offset < front.byteLength + c.utf8Size →
      (locate text offset).line = (locate text front.byteLength).line ∧
      (locate text offset).column = (locate text front.byteLength).column) ∧
    StrictMonoOn (fun offset => toLex ((locate text offset).line, (locate text offset).column))
      {offset | text.isCharBoundary offset = true} ∧
    Set.InjOn (fun offset => ((locate text offset).line, (locate text offset).column))
      {offset | text.isCharBoundary offset = true} := by
  have increases : StrictMonoOn
      (fun offset => toLex ((locate text offset).line, (locate text offset).column))
      {offset | text.isCharBoundary offset = true} :=
    fun first _ second boundary before =>
      toLex_lt_of_isBoundary (Text.isCharBoundary_iff.mp boundary) before
  refine ⟨fun offset => ⟨locate_offset .., line_locate .., column_locate ..⟩, ?_, increases, ?_⟩
  · rintro (front : Text) c back offset rfl after inside
    have start : front.byteLength < front.byteLength + c.utf8Size :=
      Nat.lt_add_of_pos_right c.utf8Size_pos
    rw [locate_eq, locate_eq, Text.charsWithin_inside after inside,
      Text.charsWithin_inside (Nat.le_refl _) start]
    exact ⟨rfl, rfl⟩
  · exact fun first boundary second boundary' same =>
      increases.injOn boundary boundary' (congrArg toLex same)

theorem Position.locate_counts_and_increases_wide :
    let text := ['a', '\n', 'é', 'b']
    locate text 3 = ⟨2, 1, 3⟩ ∧ (locate text 3).line = (locate text 2).line ∧
      (locate text 3).column = (locate text 2).column ∧
      toLex ((locate text 1).line, (locate text 1).column) <
        toLex ((locate text 2).line, (locate text 2).column) := by
  obtain ⟨-, inside, increases, -⟩ := locate_counts_and_increases ['a', '\n', 'é', 'b']
  obtain ⟨line, column⟩ := inside ['a', '\n'] 'é' ['b'] 3 rfl (by decide) (by decide)
  have first : Text.isCharBoundary ['a', '\n', 'é', 'b'] 1 = true := by decide
  have second : Text.isCharBoundary ['a', '\n', 'é', 'b'] 2 = true := by decide
  exact ⟨by decide, line, column, increases first second (by decide)⟩

end Packrat
