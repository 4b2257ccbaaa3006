import Packrat.Json.Printer
import Packrat.Proofs.Json.Strings

/-! # Tokens of the normal form

What is written for a string or a whole number reads back as it was. A whole number is written as a
number token, and a string as a string token, but for one character: U+007F is written as it stands,
although no string token has it.
-/

namespace Packrat.Json

/-- The character that string tokens do not have and the written form of a string does not
escape. -/
def delete : Char := '\x7f'

section Strings

/-- The digits of a control are read back as its code unit. -/
private theorem codeUnit?_control {code : Nat} (control : code < 0x20) :
    codeUnit? ['0', '0', Nat.digitChar (code / 16), Nat.digitChar (code % 16)] = some code := by
  have each : ∀ code < 0x20,
      codeUnit? ['0', '0', Nat.digitChar (code / 16), Nat.digitChar (code % 16)] = some code := by
    decide
  exact each code control

/-- What is written for a character is read as the character. -/
private theorem readBody?_escapeChar (c : Char) (rest : Text) :
    readBody? (escapeChar c ++ rest) =
      (readBody? rest).map fun (text, after) => (c :: text, after) := by
  unfold escapeChar
  split_ifs with quote backslash backspace feed newline carriage tab control
  · subst quote
    exact readBody?_short rfl rest
  · subst backslash
    exact readBody?_short rfl rest
  · subst backspace
    exact readBody?_short rfl rest
  · subst feed
    exact readBody?_short rfl rest
  · subst newline
    exact readBody?_short rfl rest
  · subst carriage
    exact readBody?_short rfl rest
  · subst tab
    exact readBody?_short rfl rest
  · have scalar : scalar? c.toNat = some c := by
      rw [scalar?, if_pos (show c.toNat.isValidChar from c.valid), Char.ofNat_toNat]
    simp only [List.cons_append, List.nil_append, readBody?_unit, codeUnit?_control control,
      Option.bind_some, scalar]
  · exact readBody?_plain ⟨quote, backslash, Nat.not_lt.mp control⟩ rest

/-- What is written for characters is read as the characters, up to the quote after them. -/
theorem readBody?_escaped (chars rest : Text) :
    readBody? (chars.flatMap escapeChar ++ '"' :: rest) = some (chars, rest) := by
  induction chars with
  | nil => rw [List.flatMap_nil, List.nil_append, readBody?]
  | cons c chars ih =>
    rw [List.flatMap_cons, List.append_assoc, readBody?_escapeChar, ih]
    rfl

/-- What is written for a string reads back as the string. -/
theorem readString?_printString (text : String) : readString? (printString text) = some text := by
  have quote : printString text = '"' :: (text.toList.flatMap escapeChar ++ ['"']) := rfl
  rw [quote, readString?_quote, readBody?_escaped]
  simp only [Option.bind_some, List.all_nil, if_true, String.ofList_toList]

private theorem piece_of_escapeChar {c : Char} (kept : c ≠ delete) :
    ∃ piece : Piece, piece.text = escapeChar c := by
  unfold escapeChar
  split_ifs with quote backslash backspace feed newline carriage tab control
  iterate 7 exact ⟨.short _ (by decide), rfl⟩
  · have hex : ∀ code < 0x20, (['0', '0', Nat.digitChar (code / 16),
        Nat.digitChar (code % 16)] : Text).all CharClass.isAsciiHexDigit = true := by decide
    exact ⟨.unit _ _ _ _ (hex _ control), rfl⟩
  · have other : c.toNat ≠ 0x7F := fun same => kept (Char.toNat_inj.mp same)
    exact ⟨.plain c (by simp [isOrdinary, quote, backslash, other, Nat.not_lt.mp control]), rfl⟩

/-- What is written for a string without U+007F is a string token. -/
theorem whole_printString {text : String} (kept : delete ∉ text.toList) :
    stringPattern.Whole (printString text) := by
  suffices pieces : ∀ chars : Text, delete ∉ chars →
      ∃ pieces : List Piece, pieces.flatMap Piece.text = chars.flatMap escapeChar by
    obtain ⟨pieces, same⟩ := pieces text.toList kept
    exact stringPattern_whole_iff.mpr ⟨pieces, by rw [quoted, same]; rfl⟩
  intro chars
  induction chars with
  | nil => exact fun _ => ⟨[], rfl⟩
  | cons c chars ih =>
    intro kept
    obtain ⟨here, others⟩ := not_or.mp (List.mem_cons.not.mp kept)
    obtain ⟨piece, text⟩ := piece_of_escapeChar (Ne.symm here)
    obtain ⟨pieces, same⟩ := ih others
    exact ⟨piece :: pieces, by rw [List.flatMap_cons, List.flatMap_cons, text, same]⟩

theorem mem_printString {text : String} (inside : delete ∈ text.toList) :
    delete ∈ printString text := by
  refine List.mem_cons_of_mem _ (List.mem_append_left _ (List.mem_flatMap.mpr ⟨_, inside, ?_⟩))
  exact List.mem_singleton_self _

end Strings

section Integers

/-- The whole numbers that are read as such. -/
def Fits (value : Int) : Prop := -2 ^ 63 ≤ value ∧ value < 2 ^ 64

private theorem isAsciiDigit_of_mem {value : Nat} {c : Char} (member : c ∈ Nat.toDigits 10 value) :
    CharClass.isAsciiDigit c = true := by
  have digit := Nat.isDigit_of_mem_toDigits (by decide) (by decide) member
  simpa [Char.isDigit, CharClass.isAsciiDigit, Char.le_def] using digit

private theorem isDigits_toDigits (value : Nat) : isDigits (Nat.toDigits 10 value) = true := by
  have each : (Nat.toDigits 10 value).all CharClass.isAsciiDigit = true :=
    List.all_eq_true.mpr fun _ => isAsciiDigit_of_mem
  simp [isDigits, each, Nat.toDigits_ne_nil]

private theorem decimalValue_toDigits (value : Nat) :
    decimalValue (Nat.toDigits 10 value) = value := by
  have digits := @Nat.ofDigitChars_ten_toDigits value
  rw [Nat.ofDigitChars_eq_foldl] at digits
  simpa [decimalValue, Nat.mul_comm] using digits

private theorem readSign_digits {digits : Text} (each : isDigits digits = true) :
    readSign digits = (false, digits) := by
  cases digits with
  | nil => cases each
  | cons c digits =>
    have digit : CharClass.isAsciiDigit c = true := by
      simp only [isDigits, List.all_cons, Bool.and_eq_true] at each
      exact each.2.1
    unfold readSign
    split
    · rename_i same
      cases same
      exact absurd digit (by decide)
    · rename_i same
      cases same
      exact absurd digit (by decide)
    · rfl

private theorem readInteger?_negative {digits : Text} (each : isDigits digits = true)
    (small : decimalValue digits ≤ 2 ^ 63) :
    readInteger? ('-' :: digits) = some (-(decimalValue digits : Int)) := by
  simp only [readInteger?, readSign, each, if_true, Nat.pow_eq, if_pos small]

private theorem readInteger?_digits {digits : Text} (each : isDigits digits = true)
    (small : decimalValue digits < 2 ^ 64) :
    readInteger? digits = some (decimalValue digits : Int) := by
  simp only [readInteger?, readSign_digits each, each, if_true, Bool.false_eq_true, if_false,
    Nat.pow_eq, if_pos small]

/-- What is written for a whole number reads back as the number. -/
theorem readInteger?_printInteger {value : Int} (fits : Fits value) :
    readInteger? (printInteger value) = some value := by
  obtain ⟨low, high⟩ := fits
  have digits := isDigits_toDigits value.natAbs
  have same := decimalValue_toDigits value.natAbs
  rw [printInteger]
  split
  · rename_i negative
    rw [readInteger?_negative digits (by rw [same]; omega), same]
    exact congrArg some (by omega)
  · rename_i nonnegative
    rw [readInteger?_digits digits (by rw [same]; omega), same]
    exact congrArg some (by omega)

/-- The decimal digits. -/
def digitSet : CharSet := ⟨[(48, 57)]⟩

/-- The digits that may lead a number of several digits. -/
def leadingSet : CharSet := ⟨[(49, 57)]⟩

theorem contains_digitSet {c : Char} :
    digitSet.contains c = true ↔ CharClass.isAsciiDigit c = true := by
  simp only [digitSet, CharSet.contains, CharSet.within, CharClass.isAsciiDigit, Bool.and_eq_true,
    Bool.or_eq_true, decide_eq_true_eq, Bool.false_eq_true, or_false, Char.le_def,
    UInt32.le_iff_toNat_le, Char.toNat_val, Char.reduceToNat]

/-- What takes the whole part of a number. -/
def wholeRegex : Regex :=
  .alt (.literal ['0']) (.seq (.chars leadingSet) (.repetition 0 none true (.chars digitSet)))

/-- What takes the fraction of a number. -/
def fractionRegex : Regex :=
  .seq (.literal ['.']) (.repetition 1 none true (.chars digitSet))

/-- What takes the exponent of a number. -/
def exponentRegex : Regex :=
  .seq (.chars ⟨[(69, 69), (101, 101)]⟩)
    (.seq (.repetition 0 (some 1) true (.chars ⟨[(43, 43), (45, 45)]⟩))
      (.repetition 1 none true (.chars digitSet)))

theorem number_regex : numberPattern.regex = .seq (.look .textStart)
    (.seq (.repetition 0 (some 1) true (.literal ['-'])) (.seq wholeRegex
      (.seq (.repetition 0 (some 1) true fractionRegex)
        (.repetition 0 (some 1) true exponentRegex)))) := by
  decide +kernel

/-- No number token has U+007F. -/
theorem delete_not_mem_number {raw : Text} (whole : numberPattern.Whole raw) : delete ∉ raw := by
  have spells := Pattern.spells_of_whole whole
  rw [number_regex] at spells
  exact spells.not_mem (by decide)

/-- No zero leads the digits of a positive number. -/
private theorem leading_of_toDigits {value : Nat} (positive : 0 < value) :
    ∃ c rest, Nat.toDigits 10 value = c :: rest ∧ leadingSet.contains c = true := by
  induction value using Nat.strongRecOn with
  | _ value ih =>
    by_cases small : value < 10
    · have each : ∀ digit < 10, 0 < digit → leadingSet.contains (Nat.digitChar digit) = true := by
        decide
      exact ⟨_, [], Nat.toDigits_of_lt_base small, each value small positive⟩
    -- the last digit goes off the end, and the first one stays
    · obtain ⟨c, rest, same, leading⟩ := ih (value / 10) (by omega) (by omega)
      refine ⟨c, rest ++ [(value % 10).digitChar], ?_, leading⟩
      rw [Nat.toDigits_of_base_le (by decide) (by omega), same]
      rfl

private theorem spells_toDigits (value : Nat) : wholeRegex.Spells (Nat.toDigits 10 value) := by
  rcases Nat.eq_zero_or_pos value with rfl | positive
  · exact .preferred .literal
  · obtain ⟨c, rest, same, leading⟩ := leading_of_toDigits positive
    have run : Regex.Spells (.repetition 0 none true (.chars digitSet)) rest :=
      .run (fun d member => contains_digitSet.mpr
        (isAsciiDigit_of_mem (same ▸ List.mem_cons_of_mem _ member))) (Nat.zero_le _)
    rw [same]
    exact .other (@Regex.Spells.seq _ _ [c] rest (.chars leading) run)

/-- What is written for a whole number is a number token. -/
theorem whole_printInteger (value : Int) : numberPattern.Whole (printInteger value) := by
  have short : Regex.Spells (.seq wholeRegex (.seq (.repetition 0 (some 1) true fractionRegex)
      (.repetition 0 (some 1) true exponentRegex))) (Nat.toDigits 10 value.natAbs ++ ([] ++ [])) :=
    .seq (spells_toDigits _) (.seq .without .without)
  rw [List.append_nil, List.append_nil] at short
  rw [Pattern.whole_iff_spells numberPattern_steady, number_regex, printInteger]
  split
  · exact .seq .look (@Regex.Spells.seq _ _ ['-'] _ (.once .literal) short)
  · exact .seq .look (@Regex.Spells.seq _ _ [] _ .without short)

theorem fits_of_readInteger? {raw : Text} {value : Int} (read : readInteger? raw = some value) :
    Fits value := by
  unfold readInteger? at read
  simp only [Nat.pow_eq] at read
  split at read
  · split at read
    · split at read
      · cases read
        exact ⟨by omega, by omega⟩
      · cases read
    · split at read
      · cases read
        exact ⟨by omega, by omega⟩
      · cases read
  · cases read

end Integers

end Packrat.Json
