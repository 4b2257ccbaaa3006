import Packrat.Lexicon.Scan

/-! # Places in one text

A cursor is determined by its text and its offset, so a table with one entry for every offset has
one for every place. `Cursor.LeadsTo` says that one place of a text is not before another, which
is how every rule moves.
-/

namespace Packrat

namespace Text

/-- The parts of a text are determined by the byte length of the first. -/
theorem append_inj {front back front' back' : Text} (same : front ++ back = front' ++ back')
    (long : front.byteLength = front'.byteLength) : front = front' ∧ back = back' := by
  induction front generalizing front' with
  | nil =>
    cases front' with
    | nil => exact ⟨rfl, same⟩
    | cons c rest =>
      have := c.utf8Size_pos
      simp only [byteLength_nil, byteLength_cons] at long
      omega
  | cons c rest ih =>
    cases front' with
    | nil =>
      have := c.utf8Size_pos
      simp only [byteLength_nil, byteLength_cons] at long
      omega
    | cons d rest' =>
      simp only [List.cons_append, List.cons.injEq] at same
      obtain ⟨rfl, same⟩ := same
      have tails := ih same (by simpa using long)
      exact ⟨by rw [tails.1], tails.2⟩

end Text

namespace Cursor

/-- Two cursors at one offset of one text are the same. -/
theorem eq_of_offset {first second : Cursor} (text : first.text = second.text)
    (offset : first.offset = second.offset) : first = second := by
  have long : Text.byteLength first.before.reverse = Text.byteLength second.before.reverse := by
    rw [Text.byteLength_reverse, Text.byteLength_reverse, ← first.offset_eq, ← second.offset_eq,
      offset]
  obtain ⟨before, rest⟩ := Text.append_inj text long
  exact Cursor.ext (List.reverse_inj.mp before) rest offset

/-- Two cursors of one text before the same rest are the same. -/
theorem eq_of_rest {first second : Cursor} (text : first.text = second.text)
    (rest : first.rest = second.rest) : first = second := by
  refine eq_of_offset text ?_
  have long := first.byteLength_text
  rw [text, rest, second.byteLength_text] at long
  exact (Nat.add_right_cancel long).symm

theorem isBoundary_offset (cursor : Cursor) : cursor.text.IsBoundary cursor.offset :=
  (Text.isBoundary_iff _ _).mpr ⟨cursor.before.length, by simp [text, cursor.offset_eq]⟩

/-- The end of the text is where nothing is left to read. -/
theorem offset_eq_byteLength_iff {cursor : Cursor} :
    cursor.offset = cursor.text.byteLength ↔ cursor.rest = [] := by
  have whole := cursor.byteLength_text
  constructor
  · intro ended
    have short := Text.length_le_byteLength cursor.rest
    apply List.length_eq_zero_iff.mp
    omega
  · intro none
    rw [none, Text.byteLength_nil] at whole
    omega

/-- Seeking the offset of a cursor in the same text gives that cursor. -/
theorem seek_offset {first second : Cursor} (text : first.text = second.text) :
    first.seek second.offset = second := by
  refine eq_of_offset ((text_seek ..).trans text) ?_
  rw [offset_seek, text]
  exact second.isBoundary_offset

theorem forward_forward (cursor : Cursor) (first second : Nat) :
    (cursor.forward first).forward second = cursor.forward (first + second) := by
  apply eq_of_offset
  · simp
  · simp only [forward, Nat.add_assoc, ← Text.byteLength_append, List.take_add]

/-- There is nothing after the end to go on to. -/
theorem forward_of_length_le {cursor : Cursor} {count : Nat} (long : cursor.rest.length ≤ count) :
    cursor.forward count = cursor.forward cursor.rest.length := by
  apply eq_of_offset
  · simp
  · simp [forward, List.take_of_length_le long]

@[simp] theorem rest_forward (cursor : Cursor) (count : Nat) :
    (cursor.forward count).rest = cursor.rest.drop count := rfl

/-- The second cursor is in the same text, at the place of the first or after it. -/
def LeadsTo (first second : Cursor) : Prop := ∃ count, first.forward count = second

namespace LeadsTo

variable {first second third : Cursor}

theorem refl (cursor : Cursor) : cursor.LeadsTo cursor := ⟨0, cursor.forward_zero⟩

theorem forward (cursor : Cursor) (count : Nat) : cursor.LeadsTo (cursor.forward count) :=
  ⟨count, rfl⟩

theorem trans (before : first.LeadsTo second) (after : second.LeadsTo third) :
    first.LeadsTo third := by
  obtain ⟨count, rfl⟩ := before
  obtain ⟨more, rfl⟩ := after
  exact ⟨count + more, (forward_forward ..).symm⟩

theorem text_eq (leads : first.LeadsTo second) : second.text = first.text := by
  obtain ⟨count, rfl⟩ := leads
  exact text_forward ..

theorem offset_le (leads : first.LeadsTo second) : first.offset ≤ second.offset := by
  obtain ⟨count, rfl⟩ := leads
  exact Nat.le_add_right ..

theorem length_le (leads : first.LeadsTo second) : second.rest.length ≤ first.rest.length := by
  obtain ⟨count, rfl⟩ := leads
  simp

/-- A place with as much left to read is the place itself. -/
theorem eq_of_length (leads : first.LeadsTo second)
    (long : first.rest.length ≤ second.rest.length) : second = first := by
  obtain ⟨count, rfl⟩ := leads
  rw [rest_forward, List.length_drop] at long
  have none : first.rest.take count = [] := by
    rcases Nat.eq_zero_or_pos count with rfl | positive
    · rfl
    · rw [List.length_eq_zero_iff.mp (show first.rest.length = 0 by omega), List.take_nil]
  apply eq_of_offset
  · simp
  · simp [Cursor.forward, none]

end LeadsTo

/-- What is known to be ignored is skipped, and what is ignored after it. -/
theorem skipCount_eq (ignore : List LexRule) (pending : Nat) (text : Text) :
    skipCount ignore pending text =
      min pending text.length + skipCount ignore 0 (text.drop pending) := by
  induction text generalizing pending with
  | nil => simp [skipCount]
  | cons c text ih =>
    cases pending with
    | zero => simp
    | succ pending =>
      rw [skipCount, ih, List.drop_succ_cons, List.length_cons]
      omega

/-- Nothing is skipped at the front of a text from which no rule takes anything. -/
theorem skipCount_of_none {ignore : List LexRule} {text : Text}
    (none : text = [] ∨ ignoredCount? ignore text = none) : skipCount ignore 0 text = 0 := by
  cases text with
  | nil => rfl
  | cons c rest =>
    rcases none with ended | none
    · cases ended
    · simp only [skipCount, none]

/-- Nothing is skipped where no rule takes anything. -/
theorem skip_of_none {cursor : Cursor} {ignore : List LexRule}
    (none : cursor.rest = [] ∨ ignoredCount? ignore cursor.rest = none) :
    cursor.skip ignore = cursor := by
  rw [skip, skipCount_of_none none, forward_zero]

/-- After a piece that is ignored the same is skipped as from its front. -/
theorem skip_forward {cursor : Cursor} {ignore : List LexRule} {count : Nat}
    (left : cursor.rest ≠ []) (ignored : ignoredCount? ignore cursor.rest = some count) :
    (cursor.forward count).skip ignore = cursor.skip ignore := by
  have positive : 0 < count := by
    obtain ⟨rule, -, taken⟩ := List.exists_of_findSome?_eq_some ignored
    simpa using (Option.filter_eq_some_iff.mp taken).2
  obtain ⟨more, rfl⟩ : ∃ more, count = more + 1 := ⟨count - 1, by omega⟩
  have counted : skipCount ignore 0 cursor.rest =
      min (more + 1) cursor.rest.length + skipCount ignore 0 (cursor.rest.drop (more + 1)) := by
    cases rest : cursor.rest with
    | nil => exact absurd rest left
    | cons c rest' =>
      rw [rest] at ignored
      simp only [skipCount, ignored]
      rw [skipCount_eq, List.drop_succ_cons, List.length_cons]
      omega
  rw [skip, skip, counted, rest_forward, forward_forward]
  rcases Nat.le_total (more + 1) cursor.rest.length with short | long
  · rw [Nat.min_eq_left short]
  · rw [Nat.min_eq_right long, List.drop_eq_nil_of_le long]
    rw [forward_of_length_le (show cursor.rest.length ≤ more + 1 + skipCount ignore 0 [] by omega),
      forward_of_length_le (show cursor.rest.length ≤
        cursor.rest.length + skipCount ignore 0 [] by omega)]

theorem leadsTo_skip (cursor : Cursor) (ignore : List LexRule) :
    cursor.LeadsTo (cursor.skip ignore) := .forward ..

theorem leadsTo_scan (cursor : Cursor) (ignore : List LexRule) (name : String) (rule : LexRule)
    (caseless : Bool) : cursor.LeadsTo (cursor.scan ignore name rule caseless).2 := by
  have skipped := cursor.leadsTo_skip ignore
  unfold scan
  dsimp only
  split
  · exact skipped
  · split
    · exact skipped.trans (.forward ..)
    · exact skipped

end Cursor

end Packrat
