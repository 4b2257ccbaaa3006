/-! # Texts and byte offsets

A text is a list of characters. Places in it are offsets into its UTF-8 form, so a place is
proper only when it lies between two characters. `Text.charsWithin` turns a byte count into the
number of whole characters it covers, which is how every offset from outside is read.
-/

namespace Packrat

/-- A text is the list of its characters. -/
abbrev Text := List Char

/-- The character with a given code point; surrogates and numbers past U+10FFFF have none. -/
def scalar? (code : Nat) : Option Char :=
  if code.isValidChar then some (Char.ofNat code) else none

namespace Text

/-- The number of bytes of the UTF-8 form. -/
def byteLength : Text → Nat
  | [] => 0
  | c :: rest => c.utf8Size + byteLength rest

/-- The number of characters that lie wholly within the first `bytes` bytes. -/
def charsWithin : Text → Nat → Nat
  | [], _ => 0
  | c :: rest, bytes =>
      if c.utf8Size ≤ bytes then charsWithin rest (bytes - c.utf8Size) + 1 else 0

/-- The largest character boundary at or before the byte offset `bytes`. -/
def floorBoundary (text : Text) (bytes : Nat) : Nat :=
  byteLength (text.take (text.charsWithin bytes))

/-- A byte offset is a boundary when a run of whole characters ends there. -/
def IsBoundary (text : Text) (bytes : Nat) : Prop :=
  text.floorBoundary bytes = bytes

instance (text : Text) (bytes : Nat) : Decidable (text.IsBoundary bytes) :=
  inferInstanceAs (Decidable (_ = _))

/-- The characters between two byte offsets that are boundaries in order. -/
def between? (text : Text) (start stop : Nat) : Option Text :=
  if start ≤ stop ∧ text.IsBoundary start ∧ text.IsBoundary stop then
    some ((text.take (text.charsWithin stop)).drop (text.charsWithin start))
  else none

@[simp] theorem byteLength_nil : byteLength [] = 0 := rfl

@[simp] theorem byteLength_cons (c : Char) (rest : Text) :
    byteLength (c :: rest) = c.utf8Size + byteLength rest := rfl

@[simp] theorem byteLength_append (front back : Text) :
    byteLength (front ++ back) = byteLength front + byteLength back := by
  induction front with
  | nil => simp
  | cons c rest ih => simp [ih, Nat.add_assoc]

@[simp] theorem byteLength_reverse (text : Text) : byteLength text.reverse = byteLength text := by
  induction text with
  | nil => rfl
  | cons c rest ih => simp [ih, Nat.add_comm]

/-- Every character takes a byte or more. -/
theorem length_le_byteLength (text : Text) : text.length ≤ text.byteLength := by
  induction text with
  | nil => simp
  | cons c rest ih =>
    have := c.utf8Size_pos
    simp only [List.length_cons, byteLength_cons]
    omega

theorem charsWithin_le_length (text : Text) (bytes : Nat) :
    text.charsWithin bytes ≤ text.length := by
  induction text generalizing bytes with
  | nil => simp [charsWithin]
  | cons c rest ih =>
    simp only [charsWithin]
    split
    · simpa using ih _
    · simp

/-- The boundary found lies at or before the offset. -/
theorem floorBoundary_le (text : Text) (bytes : Nat) : text.floorBoundary bytes ≤ bytes := by
  induction text generalizing bytes with
  | nil => simp [floorBoundary, charsWithin]
  | cons c rest ih =>
    have tail := ih (bytes - c.utf8Size)
    simp only [floorBoundary, charsWithin] at tail ⊢
    split
    · simp only [List.take_succ_cons, byteLength_cons]
      omega
    · simp

/-- Reading back the byte length of the first characters gives their number. -/
theorem charsWithin_byteLength_take (text : Text) (count : Nat) :
    text.charsWithin (byteLength (text.take count)) = min count text.length := by
  induction text generalizing count with
  | nil => simp [charsWithin]
  | cons c rest ih =>
    have positive := c.utf8Size_pos
    cases count with
    | zero =>
      have none : ¬ c.utf8Size ≤ 0 := by omega
      simp [charsWithin, none]
    | succ count =>
      have step : c.utf8Size ≤ c.utf8Size + byteLength (rest.take count) := by omega
      simp only [List.take_succ_cons, byteLength_cons, charsWithin, step, if_true,
        Nat.add_sub_cancel_left, ih, List.length_cons]
      omega

/-- An offset is a boundary exactly when some number of leading characters ends there. -/
theorem isBoundary_iff (text : Text) (bytes : Nat) :
    text.IsBoundary bytes ↔ ∃ count, byteLength (text.take count) = bytes := by
  constructor
  · intro boundary
    exact ⟨_, boundary⟩
  · rintro ⟨count, rfl⟩
    have cut : text.take (min count text.length) = text.take count := by
      rcases Nat.le_total count text.length with short | long
      · rw [Nat.min_eq_left short]
      · rw [Nat.min_eq_right long, List.take_of_length_le long, List.take_length]
    simp only [IsBoundary, floorBoundary, charsWithin_byteLength_take, cut]

end Text

end Packrat
