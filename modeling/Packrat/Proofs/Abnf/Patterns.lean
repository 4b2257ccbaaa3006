import Packrat.Proofs.Abnf.Written
import Packrat.Proofs.Notation.Abnf
import Packrat.Proofs.Pattern.Steady

/-! # Patterns of augmented Backus-Naur form

Which words the patterns of the notation take. Names, strings and comments are steady: the next
character always tells how they go on. A repeat is not, because only the end of its digits tells
whether a star comes after them, and neither is a numeric value, whose row may go on with another
numeral or begin anew.
-/

namespace Packrat.Notation.Abnf

open Numeral

/-- The characters before which a word ends: white space, and the mark of a comment. -/
def gapStarts : List CharSet := [.blank, .single ';']

section Steady

/-- The pattern of names. -/
def namePattern : Pattern := .of "[A-Za-z][A-Za-z0-9\\-]*" wellFormed_rulename

/-- The pattern of strings. -/
def quotedPattern : Pattern := .of "%[sSiI]\"[^\"]*\"|\"[^\"]*\"" wellFormed_charVal

/-- The pattern of comments. -/
def commentPattern : Pattern := .of ";[^\n]*" wellFormed_comment

/-- Every name is a word of the pattern of names. -/
theorem spells_name (name : Name) : namePattern.regex.Spells name.1 := by
  have regex : namePattern.regex = .seq (.look .textStart) (.seq (.chars letters)
      (.repetition 0 none true
        (.chars ⟨[(45, 45), (48, 57), (65, 90), (97, 122)]⟩))) := by decide +kernel
  rw [regex]
  refine name.spells fun c inside => ?_
  simp only [isNameChar, isLetter, CharClass.isAsciiUpper, CharClass.isAsciiLower,
    CharClass.isAsciiDigit, List.contains_eq_mem, List.mem_cons, List.not_mem_nil, or_false,
    Bool.or_eq_true, Bool.and_eq_true, decide_eq_true_eq, toNat_le_iff, ← Char.toNat_inj,
    Char.reduceToNat] at inside
  simp only [CharSet.contains, CharSet.within, Bool.and_eq_true, Bool.or_eq_true,
    decide_eq_true_eq, Bool.false_eq_true, or_false]
  omega

private theorem quoted_regex : quotedPattern.regex = charVals := by decide +kernel

/-- Every string is a word of the pattern of strings. -/
theorem spells_quoted (quoted : Quoted) : quotedPattern.regex.Spells quoted.word := by
  obtain ⟨mark, text, plain⟩ := quoted
  have run : Regex.Spells (.repetition 0 none true (.chars (others '"'))) text :=
    .run (fun c member => contains_others (fun same => plain (same ▸ member)) (by decide))
      (Nat.zero_le _)
  have enclosed : quotes.Spells (Quoted.enclose text) :=
    @Regex.Spells.seq _ _ ['"'] _ .literal (.seq run .literal)
  rw [quoted_regex]
  cases mark with
  | none => exact .seq .look (.other enclosed)
  | some mark =>
    have letter : markLetters.contains mark.letter = true := by
      obtain ⟨sensitive, capital⟩ := mark
      cases sensitive <;> cases capital <;> decide
    have marked := Regex.Spells.seq (.chars letter) enclosed
    exact .seq .look (.preferred (@Regex.Spells.seq _ _ ['%'] _ .literal marked))

/-- Only strings begin with a percent sign and a letter that marks strings. -/
theorem matchCount?_quoted_eq_none {c : Char} (other : markLetters.contains c = false)
    (rest : Text) : quotedPattern.matchCount? ('%' :: c :: rest) = none := by
  have anchored : quotedPattern.regex.anchored = true := by
    rw [quoted_regex]
    rfl
  have loops : quotedPattern.regex.LoopsAdvance = true := by
    rw [quoted_regex]
    decide
  refine Option.eq_none_iff_forall_ne_some.mpr fun count counted => ?_
  obtain ⟨word, after, same, -, spells⟩ := Pattern.spells_of_matchCount? anchored loops counted
  rw [quoted_regex] at spells
  cases spells with
  | seq start spells =>
    cases start
    cases spells with
    | preferred spells =>
      cases spells with
      | seq percent spells =>
        cases percent
        cases spells with
        | seq letter spells =>
          cases letter with
          | chars belongs =>
            cases same
            rw [other] at belongs
            cases belongs
    | other spells =>
      cases spells with
      | seq quote spells =>
        cases quote
        cases same

/-- A comment is taken up to the end of its line. -/
theorem matchCount?_comment {body : Text} (line : '\n' ∉ body) (rest : Text) :
    commentPattern.matchCount? (';' :: body ++ '\n' :: rest) = some (';' :: body).length := by
  have regex : commentPattern.regex = .seq (.look .textStart) (.seq (.literal [';'])
      (.repetition 0 none true (.chars (others '\n')))) := by decide +kernel
  have run : Regex.Spells (.repetition 0 none true (.chars (others '\n'))) body :=
    .run (fun c member => contains_others (fun same => line (same ▸ member)) (by decide))
      (Nat.zero_le _)
  have spells : commentPattern.regex.Spells (';' :: body) := by
    rw [regex]
    exact .seq .look (@Regex.Spells.seq _ _ [';'] _ .literal run)
  have steady : commentPattern.steady [.single '\n'] = true :=
    Pattern.steady_of_shape regex (by decide) (by decide)
  exact Pattern.matchCount?_of_spells steady spells (.single (List.mem_singleton_self _))

end Steady

section Digits

/-- The digits of a radix. -/
def Radix.digits : Radix → CharSet
  | .binary => ⟨[(48, 49)]⟩
  | .decimal => ⟨[(48, 57)]⟩
  | .hexadecimal => ⟨[(48, 57), (65, 70), (97, 102)]⟩

/-- The letters of a radix. -/
def Radix.letters : Radix → CharSet
  | .binary => ⟨[(66, 66), (98, 98)]⟩
  | .decimal => ⟨[(68, 68), (100, 100)]⟩
  | .hexadecimal => ⟨[(88, 88), (120, 120)]⟩

/-- The digits of any radix are among those of the hexadecimal numerals. -/
private theorem isSome_digit?_iff {base : Nat} {c : Char} : (digit? base c).isSome = true ↔
    (48 ≤ c.toNat ∧ c.toNat ≤ 57 ∧ c.toNat - 48 < base) ∨
      (97 ≤ c.toNat ∧ c.toNat ≤ 102 ∧ c.toNat - 87 < base) ∨
      (65 ≤ c.toNat ∧ c.toNat ≤ 70 ∧ c.toNat - 55 < base) := by
  simp only [digit?, CharClass.isAsciiDigit, Bool.and_eq_true, decide_eq_true_eq, toNat_le_iff,
    Char.reduceToNat]
  split
  · rw [Option.isSome_filter, Option.any_some, decide_eq_true_eq]
    omega
  split
  · rw [Option.isSome_filter, Option.any_some, decide_eq_true_eq]
    omega
  split
  · rw [Option.isSome_filter, Option.any_some, decide_eq_true_eq]
    omega
  · rw [Option.filter_none, Option.isSome_none, Bool.false_eq_true, false_iff]
    omega

theorem Radix.contains_digits_iff {radix : Radix} {c : Char} :
    radix.digits.contains c = true ↔ (digit? radix.base c).isSome = true := by
  rw [isSome_digit?_iff]
  cases radix <;>
  · simp only [base, digits, CharSet.contains, CharSet.within, Bool.and_eq_true, Bool.or_eq_true,
      decide_eq_true_eq, Bool.false_eq_true, or_false]
    omega

theorem Radix.contains_letters (radix : Radix) (capital : Bool) :
    radix.letters.contains (radix.letter capital) = true := by
  cases radix <;> cases capital <;> decide

/-- The letters of a radix are a small and a capital one. -/
theorem Radix.exists_letter {radix : Radix} {c : Char} (belongs : radix.letters.contains c = true) :
    ∃ capital, c = radix.letter capital := by
  have known : c = radix.letter true ∨ c = radix.letter false := by
    cases radix <;>
    · simp only [letters, CharSet.contains, CharSet.within, Bool.and_eq_true, Bool.or_eq_true,
        decide_eq_true_eq, Bool.false_eq_true, or_false] at belongs
      simp only [letter, ← Char.toNat_inj, Char.reduceToNat]
      omega
  rcases known with rfl | rfl
  · exact ⟨true, rfl⟩
  · exact ⟨false, rfl⟩

/-- Digits that may go on. -/
def Radix.run (radix : Radix) : Regex := .repetition 1 none true (.chars radix.digits)

/-- A numeral is a run of the digits of its radix. -/
theorem Radix.spells_run {radix : Radix} {digits : Text}
    (numeral : isNumeral radix.base digits = true) : radix.run.Spells digits := by
  have some : digits ≠ [] := by simpa using (Bool.and_eq_true_iff.mp numeral).1
  exact .run (fun _ member => contains_digits_iff.mpr (isSome_of_mem numeral member))
    (List.length_pos_of_ne_nil some)

end Digits

section Repeats

/-- The pattern of repeats. -/
def repeatPattern : Pattern := .of "[0-9]*\\*[0-9]*|[0-9]+" wellFormed_repeat

/-- Digits, if there are any. -/
private def digits : Regex := .repetition 0 none true (.chars Radix.decimal.digits)

/-- Two counts, either of which may be left out. -/
private def between : Regex := .seq digits (.seq (.literal ['*']) digits)

private theorem repeat_regex : repeatPattern.regex =
    .seq (.look .textStart) (.alt between Radix.decimal.run) := by
  decide +kernel

private theorem contains_of_count (count : Count) :
    ∀ c ∈ count.digits, Radix.decimal.digits.contains c = true :=
  fun _ member => Radix.contains_digits_iff.mpr (isSome_of_mem count.numeral member)

private theorem spells_count (count : Option Count) :
    digits.Spells (count.elim [] Count.digits) := by
  cases count with
  | none => exact .run nofun (Nat.zero_le _)
  | some count => exact .run (contains_of_count count) (Nat.zero_le _)

/-- A count with no star after it is not the first of two. -/
private theorem ends_between_eq_nil (count : Count) {rest : Text}
    (follows : rest.BeginsIn gapStarts) {place : Place}
    (after : place.after = count.digits ++ rest) : between.ends place = [] := by
  refine List.eq_nil_iff_forall_not_mem.mpr fun next member => ?_
  obtain ⟨word, same, -, spells⟩ := Regex.between_ends member
  rw [after] at same
  cases spells with
  | @seq _ _ front _ run spells =>
    cases spells with
    | @seq _ _ _ back star =>
      cases star
      have apart : Regex.allApart gapStarts [Radix.decimal.digits, .single '*'] = true := by
        decide
      -- what is left after the digits of the count begins with the star
      have cut : rest.dropWhile Radix.decimal.digits.contains =
          '*' :: (back ++ next.after) := by
        rw [← List.dropWhile_append_of_pos (contains_of_count count), same, List.append_assoc,
          List.dropWhile_append_of_pos run.contains_of_run]
        rfl
      cases rest with
      | nil => cases cut
      | cons c rest =>
        obtain ⟨set, among, belongs⟩ := follows c rfl
        have solid : ¬ Radix.decimal.digits.contains c = true :=
          Regex.not_contains_of_allApart apart among (List.mem_cons_self ..) belongs
        rw [List.dropWhile_cons_of_neg solid] at cut
        obtain ⟨rfl, -⟩ := List.cons.inj cut
        exact absurd ((CharSet.contains_single _ _).mpr rfl)
          (Regex.not_contains_of_allApart apart among (by simp) belongs)

private theorem spells_between (low high : Option Count) :
    between.Spells (low.elim [] Count.digits ++ '*' :: high.elim [] Count.digits) :=
  .seq (spells_count low) (@Regex.Spells.seq _ _ ['*'] _ .literal (spells_count high))

/-- Every repeat is a word of the pattern of repeats. -/
theorem spells_repeat (times : Repeat) : repeatPattern.regex.Spells times.word := by
  rw [repeat_regex]
  cases times with
  | between low high ordered =>
    exact @Regex.Spells.seq _ _ [] _ .look (.preferred (spells_between low high))
  | exactly count => exact .seq .look (.other (@Radix.spells_run .decimal _ count.numeral))

/-- A repeat is taken as a whole. -/
theorem matchCount?_repeat (times : Repeat) {rest : Text} (follows : rest.BeginsIn gapStarts) :
    repeatPattern.matchCount? (times.word ++ rest) = some times.word.length := by
  refine Pattern.matchCount?_of_prefers repeat_regex (by decide) fun place after => ?_
  cases times with
  | between low high ordered =>
    have steady : between.steady gapStarts = true := by decide
    exact (Regex.prefers_of_steady steady (spells_between low high) follows after).append_left
  | exactly count =>
    have steady : Radix.decimal.run.steady gapStarts = true := by decide
    refine .append_right (ends_between_eq_nil count follows after) ?_
    exact Regex.prefers_of_steady steady (Radix.spells_run count.numeral) follows after

end Repeats

section Numbers

/-- The pattern of numeric values. -/
def numberPattern : Pattern := .of numValSource wellFormed_numVal

namespace Radix

/-- The numerals after the first of a row. -/
def dots (radix : Radix) : Regex :=
  .repetition 1 none true (.seq (.literal ['.']) radix.run)

/-- The numeral at the end of a range. -/
def last (radix : Radix) : Regex := .seq (.literal ['-']) radix.run

/-- What may come after the first numeral. -/
def tail (radix : Radix) : Regex := .repetition 0 (some 1) true (.alt radix.dots radix.last)

/-- A numeric value in a radix, after the percent sign. -/
def value (radix : Radix) : Regex :=
  .seq (.chars radix.letters) (.seq radix.run radix.tail)

end Radix

/-- A numeric value in any radix, after the percent sign. -/
def values : Regex :=
  .alt Radix.binary.value (.alt Radix.decimal.value Radix.hexadecimal.value)

/-- A numeric value is a percent sign and a value in one of the radices. -/
theorem number_regex : numberPattern.regex =
    .seq (.look .textStart) (.seq (.literal ['%']) values) := by
  decide +kernel

section Rest

variable {radix : Radix} {place : Place} {rest : Text} (follows : rest.BeginsIn gapStarts)

include follows

private theorem prefers_dots {more : List (Scalar radix)}
    (after : place.after = more.flatMap (fun scalar => '.' :: scalar.digits) ++ rest) :
    Regex.Prefers radix.tail.ends place (more.flatMap fun scalar => '.' :: scalar.digits) rest := by
  cases more with
  | nil =>
    have begins : place.after.BeginsIn gapStarts := after ▸ follows
    refine .without (Regex.ends_eq_nil ?_ ?_ begins) after
    · cases radix <;> decide
    · cases radix <;> decide
  | cons second more =>
    have spells : radix.dots.Spells
        ((second :: more).flatMap fun scalar => '.' :: scalar.digits) := by
      rw [List.flatMap_def]
      refine .repetition (by simp) nofun fun word member => ?_
      obtain ⟨scalar, -, rfl⟩ := List.mem_map.mp member
      exact @Regex.Spells.seq _ _ ['.'] _ .literal (Radix.spells_run scalar.numeral)
    have steady : radix.dots.steady gapStarts = true := by cases radix <;> decide
    exact .optional (.append_left (Regex.prefers_of_steady steady spells follows after))

private theorem prefers_last {high : Scalar radix}
    (after : place.after = '-' :: high.digits ++ rest) :
    Regex.Prefers radix.tail.ends place ('-' :: high.digits) rest := by
  have spells : radix.last.Spells ('-' :: high.digits) :=
    @Regex.Spells.seq _ _ ['-'] _ .literal (Radix.spells_run high.numeral)
  have steady : radix.last.steady gapStarts = true := by cases radix <;> decide
  have begins : place.after.BeginsIn [.single '-'] :=
    after ▸ .single (List.mem_singleton_self _)
  refine .optional (.append_right (Regex.ends_eq_nil ?_ ?_ begins)
    (Regex.prefers_of_steady steady spells follows after))
  · cases radix <;> decide
  · cases radix <;> decide

/-- The characters that may come after a numeral of a numeric value. -/
private def joints : List CharSet := [.single '.', .single '-'] ++ gapStarts

omit follows in
private theorem prefers_value (capital : Bool) {first : Scalar radix} {tail : Text}
    (begins : Text.BeginsIn joints (tail ++ rest))
    (onward : ∀ place : Place, place.after = tail ++ rest →
      Regex.Prefers radix.tail.ends place tail rest)
    (after : place.after = radix.letter capital :: (first.digits ++ tail) ++ rest) :
    Regex.Prefers values.ends place (radix.letter capital :: (first.digits ++ tail)) rest := by
  have steady : radix.run.steady joints = true := by cases radix <;> decide
  have taken : Regex.Prefers radix.value.ends place
      ([radix.letter capital] ++ (first.digits ++ tail)) rest := by
    have opened : place.after = radix.letter capital :: (first.digits ++ (tail ++ rest)) := by
      simpa using after
    refine (Regex.Prefers.take opened (radix.contains_letters capital)).bind fun next after => ?_
    exact (Regex.prefers_of_steady steady (Radix.spells_run first.numeral) begins after).bind onward
  -- the letter tells the radices apart
  have begins : place.after.BeginsIn [radix.letters] := by
    rw [after]
    exact .cons (List.mem_singleton_self _) (radix.contains_letters capital)
  cases radix with
  | binary => exact .append_left taken
  | decimal =>
    exact .append_right (Regex.ends_eq_nil (by decide) (by decide) begins)
      (.append_left taken)
  | hexadecimal =>
    exact .append_right (Regex.ends_eq_nil (by decide) (by decide) begins)
      (.append_right (Regex.ends_eq_nil (by decide) (by decide) begins) taken)

/-- A numeric value is taken as a whole. -/
theorem matchCount?_number (number : Number) :
    numberPattern.matchCount? (number.word ++ rest) = some number.word.length := by
  refine Pattern.matchCount?_of_prefers number_regex (by decide) fun place after => ?_
  cases number with
  | row radix capital first more =>
    have begins : Text.BeginsIn joints
        ((more.flatMap fun scalar => '.' :: scalar.digits) ++ rest) := by
      cases more with
      | nil => exact follows.mono fun _ member => List.mem_append_right _ member
      | cons => exact .single (by simp [joints])
    have opened : place.after = ['%'] ++ (radix.letter capital ::
        (first.digits ++ more.flatMap fun scalar => '.' :: scalar.digits) ++ rest) := after
    exact (Regex.Prefers.literal opened).bind fun next after =>
      prefers_value capital begins (fun place => prefers_dots follows) after
  | range radix capital low high ordered =>
    have begins : Text.BeginsIn joints ('-' :: high.digits ++ rest) := .single (by simp [joints])
    have opened : place.after = ['%'] ++ (radix.letter capital ::
        (low.digits ++ '-' :: high.digits) ++ rest) := after
    exact (Regex.Prefers.literal opened).bind fun next after =>
      prefers_value capital begins (fun place => prefers_last follows) after

end Rest

end Numbers

end Packrat.Notation.Abnf
