import Packrat.Notation.Abnf

/-! # Slices of strings and numbers

The folds of augmented Backus-Naur form cut the texts of quoted strings and numeric values at fixed
byte offsets. The letter of a numeric value is looked at only where it is a slice of its own, and
what follows it then begins at a boundary. The mark of a quoted string is cut off as one byte
whatever it is, so that a text may be `Severed`.
-/

namespace Packrat

namespace Text

/-- The middle of a text is the slice between the lengths of what is before it and up to its end. -/
theorem between?_append (front middle back : Text) :
    between? (front ++ (middle ++ back)) front.byteLength
      (front.byteLength + middle.byteLength) = some middle := by
  have first : (front ++ (middle ++ back)).take front.length = front := List.take_left
  have second : (front ++ (middle ++ back)).take (front ++ middle).length = front ++ middle := by
    rw [← List.append_assoc, List.take_left]
  have start : charsWithin (front ++ (middle ++ back)) front.byteLength = front.length := by
    have count := charsWithin_byteLength_take (front ++ (middle ++ back)) front.length
    rwa [first, Nat.min_eq_left (by simp)] at count
  have stop : charsWithin (front ++ (middle ++ back)) (front.byteLength + middle.byteLength) =
      (front ++ middle).length := by
    have count := charsWithin_byteLength_take (front ++ (middle ++ back)) (front ++ middle).length
    rwa [second, Nat.min_eq_left (by simp), byteLength_append] at count
  have bounds : front.byteLength ≤ front.byteLength + middle.byteLength ∧
      IsBoundary (front ++ (middle ++ back)) front.byteLength ∧
      IsBoundary (front ++ (middle ++ back)) (front.byteLength + middle.byteLength) :=
    ⟨Nat.le_add_right .., (isBoundary_iff _ _).mpr ⟨_, congrArg byteLength first⟩,
      (isBoundary_iff _ _).mpr ⟨_, by rw [second, byteLength_append]⟩⟩
  rw [between?, if_pos bounds, start, stop, second, List.drop_left]

/-- A text can be cut after its first byte if its first character takes no more. -/
theorem isBoundary_one_iff {c : Char} {rest : Text} :
    IsBoundary (c :: rest) 1 ↔ c.utf8Size = 1 := by
  rw [isBoundary_iff]
  constructor
  · rintro ⟨_ | count, short⟩
    · cases short
    · have positive := c.utf8Size_pos
      rw [List.take_succ_cons, byteLength_cons] at short
      omega
  · intro narrow
    exact ⟨1, by simp [narrow]⟩

/-- A text can be cut after its second byte, if it can be cut after the first, only where its
second character takes no more than one. -/
theorem isBoundary_two {c : Char} {rest : Text} (narrow : c.utf8Size = 1)
    (boundary : IsBoundary (c :: rest) 2) :
    ∃ d digits, rest = d :: digits ∧ d.utf8Size = 1 := by
  obtain ⟨_ | _ | count, short⟩ := (isBoundary_iff _ _).mp boundary
  · cases short
  · simp [narrow] at short
  · cases rest with
    | nil => simp [narrow] at short
    | cons d digits =>
      have positive := d.utf8Size_pos
      rw [List.take_succ_cons, List.take_succ_cons, byteLength_cons, byteLength_cons] at short
      exact ⟨d, digits, rfl, by omega⟩

/-- What is after the first byte of a text. -/
theorem between?_one (c : Char) (rest : Text) :
    between? (c :: rest) 1 (byteLength (c :: rest)) =
      if c.utf8Size = 1 then some rest else none := by
  split
  · rename_i narrow
    simpa [narrow] using between?_append [c] rest []
  · rename_i wide
    rw [between?, if_neg]
    exact fun bounds => wide (isBoundary_one_iff.mp bounds.2.1)

end Text

namespace Notation.Abnf

/-- The quoted string begins with a mark that cannot be cut off after one byte. -/
def Severed (text : Text) : Prop :=
  ∃ rest, text = '%' :: rest ∧ Text.between? rest 1 (Text.byteLength rest) = none

/-- After a percent sign, one byte is cut off as the mark of a quoted string. -/
theorem charVal_percent (rest : Text) :
    charVal ('%' :: rest) =
      match Text.between? rest 1 (Text.byteLength rest) with
      | some quotes => quotedRule (rest.head?.any fun mark => mark = 's' || mark = 'S') quotes
      | none => .error (.misplacedCut ('%' :: rest)) := by
  cases rest with
  | nil => rfl
  | cons mark quotes =>
    rw [Text.between?_one, charVal]
    split <;> rfl

/-- A text that cannot be cut as a quoted string is cut inside a character. -/
theorem charVal_of_severed {text : Text} (severed : Severed text) :
    charVal text = .error (.misplacedCut text) := by
  obtain ⟨rest, rfl, none⟩ := severed
  rw [charVal_percent, none]

/-- The rule of the digits of a numeric value: one character, several in a row, or a range. -/
def digitsRule (text : Text) (radix : Nat) (digits : Text) : Except Error Rule :=
  match digits.dropWhile (· != '-') with
  | _ :: upper => do
      let low ← numeral text radix (digits.takeWhile (· != '-'))
      let high ← numeral text radix upper
      Rule.codeRange? low high
  | [] => do codePoints text (← (splitDots digits).mapM (numeral text radix))

private theorem radix?_eq_none {c : Char} (wide : c.utf8Size ≠ 1) : radix? c = none := by
  unfold radix?
  split <;> first | rfl | exact absurd rfl wide

/-- The second byte of a numeric value is its letter if it is a slice of its own, and if that is a
known one, what comes after it can be cut off. -/
theorem numVal_slices (text : Text) :
    numVal text =
      match (Text.between? text 1 2).bind fun slice => slice.head?.bind radix? with
      | none => Error.build (.badNumericValue text)
      | some radix =>
          match Text.between? text 2 (Text.byteLength text) with
          | some digits => digitsRule text radix digits
          | none => .error (.misplacedCut text) := by
  by_cases cut : ∃ mark letter digits, text = mark :: letter :: digits ∧ mark.utf8Size = 1 ∧
      letter.utf8Size = 1
  · obtain ⟨mark, letter, digits, rfl, narrow, narrow'⟩ := cut
    have letters : Text.between? (mark :: letter :: digits) 1 2 = some [letter] := by
      simpa [narrow, narrow'] using Text.between?_append [mark] [letter] digits
    have after : Text.between? (mark :: letter :: digits) 2
        (Text.byteLength (mark :: letter :: digits)) = some digits := by
      simpa [narrow, narrow', ← Nat.add_assoc] using Text.between?_append [mark, letter] digits []
    rw [letters, after, numVal, if_pos narrow]
    rfl
  · have whole : Text.between? text 1 2 = none := by
      refine if_neg fun bounds => cut ?_
      cases text with
      | nil => exact absurd bounds.2.1 (by decide)
      | cons mark rest =>
        have narrow := Text.isBoundary_one_iff.mp bounds.2.1
        obtain ⟨letter, digits, rfl, narrow'⟩ := Text.isBoundary_two narrow bounds.2.2
        exact ⟨mark, letter, digits, rfl, narrow, narrow'⟩
    rw [whole, Option.bind_none]
    unfold numVal
    split
    · rename_i mark letter digits
      split
      · rfl
      · rename_i known
        by_cases narrow : mark.utf8Size = 1
        · have wide : letter.utf8Size ≠ 1 := fun narrow' =>
            cut ⟨mark, letter, digits, rfl, narrow, narrow'⟩
          rw [if_pos narrow, radix?_eq_none wide] at known
          cases known
        · rw [if_neg narrow] at known
          cases known
    · rfl

end Notation.Abnf

end Packrat
