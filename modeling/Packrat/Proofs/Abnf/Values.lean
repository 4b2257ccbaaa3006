import Mathlib.Algebra.Group.Nat.Defs
import Mathlib.Data.List.TakeWhile
import Packrat.Notation.Abnf
import Packrat.Proofs.Pattern.Escaped

/-! # Counts, strings and numeric values

The words of the notation that stand for values: the counts of a repeat, strings between quotes,
and characters by their code points. What a word stands for is said apart from any text, and the
folds read it back. Characters in a row are refused only if they are too many for a pattern.
-/

namespace Packrat

namespace Numeral

/-- Whether a text is one digit or more in a radix. -/
def isNumeral (radix : Nat) (digits : Text) : Bool :=
  !digits.isEmpty && digits.all fun c => (digit? radix c).isSome

/-- The number that digits after others stand for. -/
def valueFrom (radix : Nat) (value : Nat) (digits : Text) : Nat :=
  digits.foldl (fun value c => value * radix + (digit? radix c).getD 0) value

/-- The number that digits stand for. -/
def valueOf (radix : Nat) (digits : Text) : Nat := valueFrom radix 0 digits

section Reading

variable {radix bound value : Nat} {digits : Text}

theorem le_valueFrom (positive : 0 < radix) (value : Nat) (digits : Text) :
    value ≤ valueFrom radix value digits := by
  induction digits generalizing value with
  | nil => exact Nat.le_refl _
  | cons c digits ih =>
    have larger := Nat.le_mul_of_pos_right value positive
    exact Nat.le_trans (Nat.le_trans larger (Nat.le_add_right _ _)) (ih _)

theorem getD_digit?_lt (positive : 0 < radix) (c : Char) : (digit? radix c).getD 0 < radix := by
  cases known : digit? radix c with
  | none => exact positive
  | some digit => simpa using (Option.filter_eq_some_iff.mp known).2

/-- Digits after others make the number at most so many times larger. -/
theorem valueFrom_lt (positive : 0 < radix) (value : Nat) (digits : Text) :
    valueFrom radix value digits < (value + 1) * radix ^ digits.length := by
  induction digits generalizing value with
  | nil =>
    rw [List.length_nil, Nat.pow_zero, Nat.mul_one]
    exact Nat.lt_succ_self value
  | cons c digits ih =>
    have small := getD_digit?_lt positive c
    refine Nat.lt_of_lt_of_le (ih (value * radix + (digit? radix c).getD 0)) ?_
    have room : value * radix + (digit? radix c).getD 0 + 1 ≤ (value + 1) * radix := by
      rw [Nat.succ_mul]
      omega
    rw [List.length_cons, Nat.pow_succ', ← Nat.mul_assoc]
    exact Nat.mul_le_mul_right _ room

theorem readDigits_eq (positive : 0 < radix)
    (known : digits.all (fun c => (digit? radix c).isSome) = true)
    (below : valueFrom radix value digits < bound) :
    readDigits radix bound value digits = .ok (valueFrom radix value digits) := by
  induction digits generalizing value with
  | nil => rfl
  | cons c digits ih =>
    obtain ⟨here, others⟩ := Bool.and_eq_true_iff.mp known
    obtain ⟨digit, found⟩ := Option.isSome_iff_exists.mp here
    have same : valueFrom radix value (c :: digits) =
        valueFrom radix (value * radix + digit) digits := by
      simp [valueFrom, found]
    rw [same] at below ⊢
    have small := Nat.lt_of_le_of_lt (le_valueFrom positive _ digits) below
    rw [readDigits, found]
    dsimp only
    rw [if_pos small, ih others below]

theorem isSome_of_mem (numeral : isNumeral radix digits = true) {c : Char} (member : c ∈ digits) :
    (digit? radix c).isSome = true :=
  List.all_eq_true.mp (Bool.and_eq_true_iff.mp numeral).2 c member

/-- Digits that are read are read as their number. -/
theorem valueFrom_of_readDigits {result : Nat}
    (success : readDigits radix bound value digits = .ok result) :
    valueFrom radix value digits = result := by
  induction digits generalizing value with
  | nil => exact Except.ok.inj success
  | cons c digits ih =>
    rw [readDigits] at success
    cases found : digit? radix c with
    | none =>
      rw [found] at success
      cases success
    | some digit =>
      rw [found] at success
      dsimp only at success
      split at success
      · have same : valueFrom radix value (c :: digits) =
            valueFrom radix (value * radix + digit) digits := by
          simp [valueFrom, found]
        exact same.trans (ih success)
      · cases success

/-- A numeral has no sign to be read before its digits. -/
theorem read_of_isNumeral (numeral : isNumeral radix digits = true) :
    read radix bound digits = readDigits radix bound 0 digits := by
  obtain ⟨filled, known⟩ := Bool.and_eq_true_iff.mp numeral
  have unsigned : digit? radix '+' = none := rfl
  unfold read
  split
  · cases filled
  · simp [unsigned] at known
  · simp [unsigned] at known
  · rfl

/-- A numeral whose number lies below the bound is read. -/
theorem read_eq (positive : 0 < radix) (numeral : isNumeral radix digits = true)
    (below : valueOf radix digits < bound) :
    read radix bound digits = .ok (valueOf radix digits) := by
  rw [read_of_isNumeral numeral]
  exact readDigits_eq positive (Bool.and_eq_true_iff.mp numeral).2 below

/-- A numeral is read as its number, which lies below the bound. -/
theorem read_eq_ok_iff (positive : 0 < radix) (room : 0 < bound)
    (numeral : isNumeral radix digits = true) {result : Nat} :
    read radix bound digits = .ok result ↔ valueOf radix digits = result ∧ result < bound := by
  constructor
  · intro success
    rw [read_of_isNumeral numeral] at success
    exact ⟨valueFrom_of_readDigits success, readDigits_lt room success⟩
  · rintro ⟨rfl, below⟩
    exact read_eq positive numeral below

end Reading

end Numeral

namespace Notation.Abnf

open Numeral

section Marks

variable {mark : Char} {piece : Text} (plain : mark ∉ piece)

include plain

private theorem ne_mark_of_mem : ∀ c ∈ piece, (c != mark) = true :=
  fun _ member => bne_iff_ne.mpr fun same => plain (same ▸ member)

/-- What comes before a mark is found by looking for the mark. -/
private theorem takeWhile_mark (rest : Text) :
    (piece ++ mark :: rest).takeWhile (· != mark) = piece := by
  rw [List.takeWhile_append_of_pos (ne_mark_of_mem plain)]
  simp

private theorem dropWhile_mark (rest : Text) :
    (piece ++ mark :: rest).dropWhile (· != mark) = mark :: rest := by
  rw [List.dropWhile_append_of_pos (ne_mark_of_mem plain)]
  simp

private theorem dropWhile_whole : piece.dropWhile (· != mark) = [] :=
  List.dropWhile_eq_nil_iff.mpr (ne_mark_of_mem plain)

end Marks

section Counts

/-- A number that a repeat may have, as it is written. -/
structure Count where
  digits : Text
  numeral : isNumeral 10 digits = true
  small : valueOf 10 digits < countBound

/-- The number of a count. -/
def Count.value (count : Count) : Nat := valueOf 10 count.digits

/-- How often an element is repeated: between two counts in order, either of which may be left
out, or exactly so often. -/
inductive Repeat where
  | between (low high : Option Count)
      (ordered : ∀ least ∈ low, ∀ most ∈ high, least.value ≤ most.value)
  | exactly (count : Count)

namespace Repeat

/-- The word of a repeat. -/
def word : Repeat → Text
  | .between low high _ =>
      (low.elim [] Count.digits) ++ '*' :: (high.elim [] Count.digits)
  | .exactly count => count.digits

/-- The bounds of a repeat. -/
def bounds : Repeat → Nat × Option Nat
  | .between low high _ => (low.elim 0 Count.value, high.map Count.value)
  | .exactly count => (count.value, some count.value)

end Repeat

private theorem star_not_mem (count : Count) : '*' ∉ count.digits := by
  intro member
  have digit := isSome_of_mem count.numeral member
  revert digit
  decide

theorem count_digits (count : Count) : Abnf.count count.digits = .ok (some count.value) := by
  have filled : count.digits.isEmpty = false := by
    simpa using (Bool.and_eq_true_iff.mp count.numeral).1
  rw [Abnf.count, filled, read_eq (by decide) count.numeral count.small]
  rfl

private theorem count_elim (count : Option Count) :
    Abnf.count (count.elim [] Count.digits) = .ok (count.map Count.value) := by
  cases count with
  | none => rfl
  | some count => exact count_digits count

/-- The bounds of a repeat are read from its word. -/
theorem repeatBounds_word (times : Repeat) : repeatBounds times.word = .ok times.bounds := by
  cases times with
  | between low high ordered =>
    have plain : '*' ∉ low.elim [] Count.digits := by
      cases low with
      | none => exact List.not_mem_nil
      | some low => exact star_not_mem low
    rw [repeatBounds, Repeat.word, dropWhile_mark plain, takeWhile_mark plain]
    dsimp only
    rw [count_elim, count_elim]
    cases low <;> rfl
  | exactly count =>
    rw [repeatBounds, Repeat.word, dropWhile_whole (star_not_mem count)]
    dsimp only
    rw [count_digits]
    rfl

/-- A rule with a repeat before it is repeated within the bounds. -/
theorem repetition?_bounds (times : Repeat) (rule : Rule) :
    Rule.repetition? (.ok rule) times.bounds.1 times.bounds.2 =
      .ok (.repetition rule times.bounds.1 times.bounds.2) := by
  have ordered : times.bounds.2.filter (· < times.bounds.1) = none := by
    cases times with
    | between low high ordered =>
      cases high with
      | none => rfl
      | some most =>
        cases low with
        | none => simp [Repeat.bounds]
        | some least =>
          have inside := ordered least rfl most rfl
          simp [Repeat.bounds, Nat.not_lt.mpr inside]
    | exactly count => simp [Repeat.bounds]
  rw [Rule.repetition?, ordered]
  rfl

end Counts

section Strings

/-- The mark before a string that says how to compare it, in a small or a capital letter. -/
structure Mark where
  sensitive : Bool
  capital : Bool

/-- The letter of a mark. -/
def Mark.letter (mark : Mark) : Char :=
  match mark.sensitive, mark.capital with
  | true, false => 's'
  | true, true => 'S'
  | false, false => 'i'
  | false, true => 'I'

/-- A string as it is written: the mark before it, if there is one, and what is quoted. -/
structure Quoted where
  mark : Option Mark
  text : Text
  plain : '"' ∉ text

namespace Quoted

/-- A text between quotes. -/
def enclose (text : Text) : Text := '"' :: (text ++ ['"'])

/-- The word of a string. -/
def word (quoted : Quoted) : Text :=
  match quoted.mark with
  | some mark => '%' :: mark.letter :: enclose quoted.text
  | none => enclose quoted.text

/-- The rule of a string. It is compared without regard to case unless it is marked otherwise. -/
def rule (quoted : Quoted) : Rule :=
  if quoted.text.isEmpty then .empty
  else
    .terminal (.inline (String.ofList quoted.text) (.literal quoted.text)
      (quoted.mark.all (!·.sensitive)))

end Quoted

private theorem trimQuotes_enclose {text : Text} (plain : '"' ∉ text) :
    trimQuotes (Quoted.enclose text) = text := by
  have skipped (text : Text) : ('"' :: text).dropWhile (· == '"') = text.dropWhile (· == '"') :=
    rfl
  have kept {text : Text} (filled : text ≠ []) (plain : '"' ∉ text) (rest : Text) :
      (text ++ rest).dropWhile (· == '"') = text ++ rest := by
    cases text with
    | nil => exact absurd rfl filled
    | cons c text =>
      have differs : c ≠ '"' := fun same => plain (same ▸ List.mem_cons_self ..)
      simp [differs]
  -- both quotes of an empty text are trimmed from the front
  by_cases filled : text = []
  · rw [filled]
    rfl
  · have last : '"' ∉ text.reverse := by simpa using plain
    have reversed := kept (List.reverse_ne_nil_iff.mpr filled) last []
    rw [List.append_nil] at reversed
    rw [trimQuotes, Quoted.enclose, skipped, kept filled plain, List.reverse_append,
      List.reverse_singleton, List.singleton_append, skipped, reversed, List.reverse_reverse]

/-- The rule of a string is read from its word. -/
theorem charVal_word (quoted : Quoted) : charVal quoted.word = .ok quoted.rule := by
  obtain ⟨mark, text, plain⟩ := quoted
  have read (sensitive : Bool) : quotedRule sensitive (Quoted.enclose text) =
      .ok (if text.isEmpty then .empty else
        .terminal (.inline (String.ofList text) (.literal text) (!sensitive))) := by
    rw [quotedRule, trimQuotes_enclose plain]
    split
    · rfl
    · rename_i filled
      exact if_neg filled
  cases mark with
  | none => exact read false
  | some mark =>
    obtain ⟨sensitive, capital⟩ := mark
    cases sensitive <;> cases capital <;> exact read _

end Strings

section Numbers

/-- The radix of a numeric value. -/
inductive Radix where
  | binary
  | decimal
  | hexadecimal

namespace Radix

/-- The number of digits of a radix. -/
def base : Radix → Nat
  | .binary => 2
  | .decimal => 10
  | .hexadecimal => 16

/-- The letter of a radix, small or capital. -/
def letter : Radix → Bool → Char
  | .binary, false => 'b'
  | .binary, true => 'B'
  | .decimal, false => 'd'
  | .decimal, true => 'D'
  | .hexadecimal, false => 'x'
  | .hexadecimal, true => 'X'

theorem radix?_letter (radix : Radix) (capital : Bool) :
    radix? (radix.letter capital) = some radix.base := by
  cases radix <;> cases capital <;> rfl

theorem base_pos (radix : Radix) : 0 < radix.base := by
  cases radix <;> decide

end Radix

/-- The code point of a character, as it is written. -/
structure Scalar (radix : Radix) where
  digits : Text
  numeral : isNumeral radix.base digits = true
  valid : (valueOf radix.base digits).isValidChar

namespace Scalar

variable {radix : Radix}

/-- The character of a code point. -/
def char (scalar : Scalar radix) : Char := Char.ofNat (valueOf radix.base scalar.digits)

theorem toNat_char (scalar : Scalar radix) :
    scalar.char.toNat = valueOf radix.base scalar.digits :=
  toNat_ofNat scalar.valid

end Scalar

/-- A numeric value: characters in a row, of which there is one at least, or those between two. -/
inductive Number where
  | row (radix : Radix) (capital : Bool) (first : Scalar radix) (more : List (Scalar radix))
  | range (radix : Radix) (capital : Bool) (low high : Scalar radix)
      (ordered : low.char ≤ high.char)

namespace Number

/-- The characters of a row, one after the other. -/
def chars {radix : Radix} (first : Scalar radix) (more : List (Scalar radix)) : Text :=
  (first :: more).map Scalar.char

/-- The numerals of a row with a dot between any two. -/
def dotted {radix : Radix} (first : Scalar radix) (more : List (Scalar radix)) : Text :=
  first.digits ++ more.flatMap fun scalar => '.' :: scalar.digits

/-- The word of a numeric value. -/
def word : Number → Text
  | .row radix capital first more => '%' :: radix.letter capital :: dotted first more
  | .range radix capital low high _ =>
      '%' :: radix.letter capital :: (low.digits ++ '-' :: high.digits)

theorem word_eq_cons (number : Number) :
    ∃ radix capital rest, number.word = '%' :: Radix.letter radix capital :: rest := by
  cases number <;> exact ⟨_, _, _, rfl⟩

/-- The characters of a row are not too many for a pattern. -/
def Short : Number → Prop
  | .row _ _ first more => Text.byteLength (chars first more) ≤ Pattern.longestLiteral
  | .range .. => True

instance (number : Number) : Decidable number.Short :=
  match number with
  | .row .. => inferInstanceAs (Decidable (_ ≤ _))
  | .range .. => .isTrue trivial

/-- The rule of a numeric value: a token with a pattern of its own. -/
def rule (number : Number) (short : number.Short) : Rule :=
  match number, short with
  | .row radix capital first more, short =>
      .terminal (.inline (String.ofList (row radix capital first more).word)
        (.pattern (.ofChars (List.cons_ne_nil _ _) short)) false)
  | .range _ _ low high ordered, _ =>
      .terminal (.inline (codePointName low.char.toNat ++ ".." ++ codePointName high.char.toNat)
        (.pattern (.ofInterval ordered)) false)

end Number

section Reading

variable {radix : Radix}

theorem numeral_eq_ok_iff {text digits : Text} (numeral : isNumeral radix.base digits = true)
    {code : Nat} : Abnf.numeral text radix.base digits = .ok code ↔
      valueOf radix.base digits = code ∧ code < numeralBound := by
  rw [← read_eq_ok_iff radix.base_pos (by decide) numeral, Abnf.numeral]
  cases Numeral.read radix.base numeralBound digits with
  | ok value =>
    constructor
    · rintro ⟨⟩
      rfl
    · rintro ⟨⟩
      rfl
  | error fault =>
    constructor
    · rintro ⟨⟩
    · rintro ⟨⟩

/-- Several numerals are read as their numbers, which all lie below the bound. -/
theorem mapM_numeral_eq_ok_iff {text : Text} {pieces : List Text}
    (numerals : ∀ piece ∈ pieces, isNumeral radix.base piece = true) {codes : List Nat} :
    pieces.mapM (Abnf.numeral text radix.base) = .ok codes ↔
      pieces.map (valueOf radix.base) = codes ∧ ∀ code ∈ codes, code < numeralBound := by
  induction pieces generalizing codes with
  | nil =>
    constructor
    · rintro ⟨⟩
      exact ⟨rfl, nofun⟩
    · rintro ⟨rfl, -⟩
      rfl
  | cons piece pieces ih =>
    obtain ⟨here, others⟩ := List.forall_mem_cons.mp numerals
    rw [List.mapM_cons]
    constructor
    · intro read
      obtain ⟨code, first, read⟩ := Error.bind_eq_ok.mp read
      obtain ⟨more, rest, same⟩ := Error.bind_eq_ok.mp read
      cases same
      obtain ⟨rfl, below⟩ := (numeral_eq_ok_iff here).mp first
      obtain ⟨rfl, bounds⟩ := (ih others).mp rest
      exact ⟨rfl, List.forall_mem_cons.mpr ⟨below, bounds⟩⟩
    · rintro ⟨rfl, bounds⟩
      obtain ⟨below, bounds⟩ := List.forall_mem_cons.mp bounds
      apply Error.bind_eq_ok.mpr
      refine ⟨_, (numeral_eq_ok_iff here).mpr ⟨rfl, below⟩, ?_⟩
      exact Error.bind_eq_ok.mpr ⟨_, (ih others).mpr ⟨rfl, bounds⟩, rfl⟩

/-- Marks between numerals are no digits. -/
private theorem not_mem_numeral {digits : Text} (numeral : isNumeral radix.base digits = true)
    {mark : Char} (between : mark = '.' ∨ mark = '-') : mark ∉ digits := by
  intro member
  have digit := isSome_of_mem numeral member
  rcases between with rfl | rfl
  · cases digit
  · cases digit

private theorem splitDots_append {piece : Text} (plain : '.' ∉ piece) (rest : Text) :
    splitDots (piece ++ '.' :: rest) = piece :: splitDots rest := by
  induction piece with
  | nil => rw [List.nil_append, splitDots, if_pos rfl]
  | cons c piece ih =>
    obtain ⟨differs, plain⟩ := List.ne_and_not_mem_of_not_mem_cons plain
    rw [List.cons_append, splitDots, if_neg (Ne.symm differs), ih plain]

private theorem splitDots_last {piece : Text} (plain : '.' ∉ piece) :
    splitDots piece = [piece] := by
  induction piece with
  | nil => rfl
  | cons c piece ih =>
    obtain ⟨differs, plain⟩ := List.ne_and_not_mem_of_not_mem_cons plain
    rw [splitDots, if_neg (Ne.symm differs), ih plain]

/-- Pieces one after the other with a dot between any two. -/
def joined (first : Text) (more : List Text) : Text :=
  first ++ more.flatMap fun piece => '.' :: piece

theorem dotted_eq_joined (first : Scalar radix) (more : List (Scalar radix)) :
    Number.dotted first more = joined first.digits (more.map Scalar.digits) := by
  rw [Number.dotted, joined, List.flatMap_map]

variable {first : Text} {more : List Text}

/-- The numerals of a row are those between its dots. -/
private theorem splitDots_joined
    (numerals : ∀ piece ∈ first :: more, isNumeral radix.base piece = true) :
    splitDots (joined first more) = first :: more := by
  induction more generalizing first with
  | nil =>
    have plain := not_mem_numeral (numerals first (List.mem_cons_self ..)) (.inl rfl)
    rw [joined, List.flatMap_nil, List.append_nil, splitDots_last plain]
  | cons second more ih =>
    obtain ⟨here, others⟩ := List.forall_mem_cons.mp numerals
    rw [joined, List.flatMap_cons, List.cons_append,
      splitDots_append (not_mem_numeral here (.inl rfl))]
    exact congrArg (first :: ·) (ih others)

private theorem hyphen_not_mem_joined
    (numerals : ∀ piece ∈ first :: more, isNumeral radix.base piece = true) :
    '-' ∉ joined first more := by
  intro member
  rcases List.mem_append.mp member with member | member
  · exact not_mem_numeral (numerals first (List.mem_cons_self ..)) (.inr rfl) member
  · obtain ⟨piece, among, member⟩ := List.mem_flatMap.mp member
    rcases List.mem_cons.mp member with same | member
    · cases same
    · exact not_mem_numeral (numerals piece (List.mem_cons_of_mem _ among)) (.inr rfl) member

/-- Numerals with dots between them are read as code points in a row. -/
theorem numVal_joined (capital : Bool)
    (numerals : ∀ piece ∈ first :: more, isNumeral radix.base piece = true) :
    let word := '%' :: radix.letter capital :: joined first more
    numVal word =
      (first :: more).mapM (numeral word radix.base) >>= codePoints word := by
  intro word
  rw [numVal, if_pos (by decide), radix.radix?_letter]
  dsimp only
  rw [dropWhile_whole (hyphen_not_mem_joined numerals)]
  dsimp only
  rw [splitDots_joined numerals]

/-- Numerals with a hyphen between them are read as a range of code points. -/
theorem numVal_hyphen (capital : Bool) {low : Text} (numeral : isNumeral radix.base low = true)
    (high : Text) :
    let word := '%' :: radix.letter capital :: (low ++ '-' :: high)
    numVal word = Abnf.numeral word radix.base low >>= fun lower =>
      Abnf.numeral word radix.base high >>= Rule.codeRange? lower := by
  intro word
  have plain : '-' ∉ low := not_mem_numeral numeral (.inr rfl)
  rw [numVal, if_pos (by decide), radix.radix?_letter]
  dsimp only
  rw [dropWhile_mark plain, takeWhile_mark plain]

/-- The code points of characters lie below the bound of numerals. -/
theorem lt_numeralBound {code : Nat} (valid : code.isValidChar) : code < numeralBound := by
  have bound : numeralBound = 4294967296 := by decide
  simp only [Nat.isValidChar] at valid
  omega

theorem numeral_digits (text : Text) (scalar : Scalar radix) :
    numeral text radix.base scalar.digits = .ok scalar.char.toNat :=
  (numeral_eq_ok_iff scalar.numeral).mpr
    ⟨scalar.toNat_char.symm, scalar.toNat_char ▸ lt_numeralBound scalar.valid⟩

theorem numeral_each (text : Text) (scalars : List (Scalar radix)) :
    (scalars.map Scalar.digits).mapM (numeral text radix.base) =
      .ok (scalars.map fun scalar => scalar.char.toNat) := by
  refine (mapM_numeral_eq_ok_iff ?_).mpr ⟨?_, ?_⟩
  · intro piece member
    obtain ⟨scalar, -, rfl⟩ := List.mem_map.mp member
    exact scalar.numeral
  · rw [List.map_map]
    exact List.map_congr_left fun scalar _ => scalar.toNat_char.symm
  · intro code member
    obtain ⟨scalar, -, rfl⟩ := List.mem_map.mp member
    exact scalar.toNat_char ▸ lt_numeralBound scalar.valid

/-- A row is read as the pattern of its characters, whatever comes of that. -/
theorem numVal_row (capital : Bool) (first : Scalar radix) (more : List (Scalar radix)) :
    numVal (Number.row radix capital first more).word =
      Rule.pattern? (String.ofList (Number.row radix capital first more).word)
        (Pattern.charsSource (Number.chars first more)) := by
  have source : codePoints (Number.row radix capital first more).word
      ((first :: more).map fun scalar => scalar.char.toNat) =
        Rule.pattern? (String.ofList (Number.row radix capital first more).word)
          (Pattern.charsSource (Number.chars first more)) := by
    rw [codePoints, Pattern.charsSource, Number.chars, List.map_map, List.map_map]
    rfl
  have numerals : ∀ piece ∈ first.digits :: more.map Scalar.digits,
      isNumeral radix.base piece = true := by
    intro piece member
    obtain ⟨scalar, -, rfl⟩ := List.mem_map.mp (List.map_cons ▸ member)
    exact scalar.numeral
  rw [← source, Number.word, dotted_eq_joined, numVal_joined capital numerals, ← List.map_cons,
    numeral_each]
  rfl

private theorem ofList_ne_empty (c : Char) (rest : Text) : String.ofList (c :: rest) ≠ "" := by
  simp

private theorem numVal_range (capital : Bool) {low high : Scalar radix}
    (ordered : low.char ≤ high.char) :
    numVal (Number.range radix capital low high ordered).word =
      Rule.codeRange? low.char.toNat high.char.toNat := by
  rw [Number.word, numVal_hyphen capital low.numeral, numeral_digits, numeral_digits]
  rfl

/-- The rule of a numeric value is read from its word. -/
theorem numVal_word {number : Number} (short : number.Short) :
    numVal number.word = .ok (number.rule short) := by
  cases number with
  | row radix capital first more =>
    rw [numVal_row]
    exact Rule.pattern?_source (ofList_ne_empty _ _) (.ofChars (List.cons_ne_nil _ _) short)
  | range radix capital low high ordered =>
    rw [numVal_range]
    exact Rule.codeRange?_ordered ordered

/-- A row of too many characters is refused. -/
theorem numVal_word_of_long {number : Number} (long : ¬ number.Short) :
    ∃ source, numVal number.word = Error.build (.invalidPattern source) := by
  cases number with
  | row radix capital first more =>
    have refused := Pattern.ofSource?_charsSource_eq_none (List.cons_ne_nil _ _)
      (Nat.lt_of_not_le long)
    exact ⟨_, (numVal_row capital first more).trans
      (Rule.pattern?_of_none (ofList_ne_empty _ _) refused)⟩
  | range => exact absurd trivial long

end Reading

end Numbers

end Notation.Abnf

end Packrat
