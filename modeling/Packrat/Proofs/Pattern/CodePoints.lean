import Packrat.Proofs.Pattern.Escaped
import Packrat.Proofs.Pattern.Steady

/-! # Which code points a pattern can have

Code points in a row make a pattern only if there are characters that have them, and the pattern of
characters in a row takes those characters. The pattern of an interval takes one character out of
it. Neither looks at what comes after.
-/

namespace Packrat

namespace Numeral

variable {radix bound bound' value result : Nat} {digits : Text}

theorem readDigits_mono (wider : bound ≤ bound')
    (success : readDigits radix bound value digits = .ok result) :
    readDigits radix bound' value digits = .ok result := by
  induction digits generalizing value with
  | nil => exact success
  | cons c digits ih =>
    rw [readDigits] at success ⊢
    cases known : digit? radix c with
    | none =>
      rw [known] at success
      cases success
    | some digit =>
      rw [known] at success
      dsimp only at success ⊢
      split at success
      · rename_i below
        rw [if_pos (Nat.lt_of_lt_of_le below wider)]
        exact ih success
      · cases success

/-- What is read below a bound is read below a larger one. -/
theorem read_mono (wider : bound ≤ bound') (success : read radix bound digits = .ok result) :
    read radix bound' digits = .ok result := by
  unfold read at success ⊢
  split at success
  · cases success
  · cases success
  · exact readDigits_mono wider success
  · exact readDigits_mono wider success

end Numeral

namespace Pattern

open Numeral

section Reading

variable {code : Nat} {codes : List Nat}

/-- Digits that are read as a character are those of its code point. -/
theorem isValidChar_of_codePoint? {c : Char}
    (found : Escape.codePoint? (hexDigits code) = some c) : code.isValidChar := by
  unfold Escape.codePoint? at found
  split at found
  · cases found
  obtain ⟨value, success, scalar⟩ := Option.bind_eq_some_iff.mp found
  have small : Numeral.read 16 0x110000 (hexDigits code) = .ok value := by
    cases result : Numeral.read 16 0x110000 (hexDigits code) with
    | error fault =>
      rw [result] at success
      cases success
    | ok value' =>
      rw [result] at success
      cases success
      rfl
  -- with room enough the digits are read as the code point itself
  have same : value = code := by
    have wide := read_mono (Nat.le_max_left 0x110000 (code + 1)) small
    rw [read_hexDigits (by omega)] at wide
    exact (Except.ok.inj wide).symm
  unfold scalar? at scalar
  split at scalar
  · rename_i valid
    exact same ▸ valid
  · cases scalar

/-- The escape of a code point that no character has is not read. -/
theorem next?_escapedCode (invalid : ¬ code.isValidChar) (rest : Text) :
    Symbol.next? {} (escapedCode code rest) = none := by
  have none : Escape.codePoint? (hexDigits code) = none :=
    Option.eq_none_iff_forall_ne_some.mpr fun _ found => invalid (isValidChar_of_codePoint? found)
  change (Escape.readCodePoint? {} 2 ('\x7b' :: (hexDigits code ++ '\x7d' :: rest))).map _ = _
  rw [readCodePoint?_hexDigits, none]
  rfl

theorem map_toNat_ofNat (valid : ∀ code ∈ codes, code.isValidChar) :
    (codes.map Char.ofNat).map Char.toNat = codes := by
  rw [List.map_map]
  refine (List.map_congr_left ?_).trans (List.map_id codes)
  intro code member
  exact toNat_ofNat (valid code member)

/-- Before the first code point that no character has there are those of characters. -/
private theorem exists_invalid (invalid : ¬ ∀ code ∈ codes, code.isValidChar) :
    ∃ (chars : Text) (code : Nat) (others : List Nat),
      codes = chars.map Char.toNat ++ code :: others ∧ ¬ code.isValidChar := by
  induction codes with
  | nil => exact absurd nofun invalid
  | cons code codes ih =>
    by_cases valid : code.isValidChar
    · obtain ⟨chars, other, others, rfl, bad⟩ :=
        ih fun all => invalid (List.forall_mem_cons.mpr ⟨valid, all⟩)
      refine ⟨Char.ofNat code :: chars, other, others, ?_, bad⟩
      rw [List.map_cons, toNat_ofNat valid, List.cons_append]
    · exact ⟨[], code, codes, rfl, valid⟩

/-- There is no pattern of code points of which one is not that of a character. -/
theorem ofSource?_codesSource_eq_none (invalid : ¬ ∀ code ∈ codes, code.isValidChar) :
    ofSource? (codesSource codes) = none := by
  obtain ⟨chars, code, others, rfl, bad⟩ := exists_invalid invalid
  let opened : Reader :=
    ⟨{}, ⟨{}, none, [], []⟩, [⟨{}, none, [], [⟨.look .textStart, 0, true⟩]⟩], 0, []⟩
  let rest := escapedCode code (others.foldr escapedCode [')'])
  have refused (fuel : Nat) {reader : Reader} (plain : reader.flags = {}) :
      reader.readOn? (fuel + 1) rest = none := by
    have first : reader.readOn? (fuel + 1) rest =
        (Symbol.next? {} rest).bind fun read =>
          (reader.step? read.1).bind fun reader => reader.readOn? fuel read.2 := by
      rw [Reader.readOn?, plain]
      rfl
    rw [first, next?_escapedCode bad]
    rfl
  have unread : Regex.read? ("\\A(?:".toList ++ escapes chars rest) = none := by
    have start : Regex.read? ("\\A(?:".toList ++ escapes chars rest) =
        (opened.readOn? ((escapes chars rest).length + 3) (escapes chars rest)).bind
          Reader.finish? := rfl
    obtain ⟨fuel, long⟩ : ∃ fuel, (escapes chars rest).length + 3 = fuel + 1 + chars.length := by
      have enough := length_escapes chars rest
      exact ⟨(escapes chars rest).length + 2 - chars.length, by omega⟩
    rw [start, long, readOn?_escapes chars rest (fuel + 1) rfl, refused fuel rfl]
    rfl
  refine Option.eq_none_iff_forall_ne_some.mpr fun pattern found => ?_
  have read := pattern.read_source
  rw [source_of_ofSource? found, List.append_assoc, toList_codesSource, List.foldr_append,
    List.foldr_map] at read
  exact absurd (unread.symm.trans read) (by simp)

end Reading

section Taking

variable {pattern : Pattern} {text : Text} {count : Nat}

/-- A pattern that is steady whatever comes next takes the words of its expression. -/
theorem matchCount?_iff_of_steady (steady : pattern.steady [.all] = true) :
    pattern.matchCount? text = some count ↔
      ∃ word, pattern.regex.Spells word ∧ word <+: text ∧ count = word.length := by
  obtain ⟨⟨anchored, loops⟩, -⟩ := by simpa only [Pattern.steady, Bool.and_eq_true] using steady
  constructor
  · intro taken
    obtain ⟨word, rest, rfl, rfl, spells⟩ := spells_of_matchCount? anchored loops taken
    exact ⟨word, spells, List.prefix_append .., rfl⟩
  · rintro ⟨word, spells, ⟨rest, rfl⟩, rfl⟩
    apply matchCount?_of_spells steady spells
    intro c _
    exact ⟨.all, List.mem_singleton_self _, CharSet.contains_all c⟩

/-- The words of an expression that is tried at the start of a text are its own. -/
theorem spells_textStart_iff {body : Regex} {word : Text} :
    (Regex.seq (.look .textStart) body).Spells word ↔ body.Spells word := by
  constructor
  · intro spells
    cases spells with
    | seq start spells =>
      cases start
      exact spells
  · intro spells
    exact @Regex.Spells.seq _ _ [] _ .look spells

/-- The pattern of characters in a row takes them from a text that begins with them. -/
theorem matchCount?_ofChars {chars : Text} (filled : chars ≠ [])
    (short : chars.byteLength ≤ longestLiteral) :
    (ofChars filled short).matchCount? text = some count ↔
      chars <+: text ∧ count = chars.length := by
  have shape : (ofChars filled short).regex = .seq (.look .textStart) (.literal chars) := rfl
  rw [matchCount?_iff_of_steady (steady_of_shape shape rfl rfl), shape]
  constructor
  · rintro ⟨word, spells, begins, rfl⟩
    cases spells_textStart_iff.mp spells
    exact ⟨begins, rfl⟩
  · rintro ⟨begins, rfl⟩
    exact ⟨chars, spells_textStart_iff.mpr .literal, begins, rfl⟩

theorem contains_range {low high c : Char} :
    (CharSet.range low high).contains c = true ↔ low ≤ c ∧ c ≤ high := by
  simp only [CharSet.range, CharSet.contains, CharSet.within, Bool.and_eq_true, Bool.or_eq_true,
    decide_eq_true_eq, Bool.false_eq_true, or_false]
  exact Iff.rfl

/-- The words of a set in an interval are its characters. -/
theorem spells_range_iff {low high : Char} {word : Text} :
    (Regex.ofSet (.range low high)).Spells word ↔ ∃ c, word = [c] ∧ low ≤ c ∧ c ≤ high := by
  by_cases same : low = high
  · subst same
    have single : Regex.ofSet (.range low low) = .literal [low] := by
      simp [Regex.ofSet, CharSet.only?, CharSet.range]
    rw [single]
    constructor
    · intro spells
      cases spells
      exact ⟨low, rfl, Char.le_refl low, Char.le_refl low⟩
    · rintro ⟨c, rfl, above, below⟩
      obtain rfl := Char.le_antisymm below above
      exact .literal
  · have several : Regex.ofSet (.range low high) = .chars (.range low high) := by
      simp [Regex.ofSet, CharSet.only?, CharSet.range, Char.toNat_inj, same]
    rw [several]
    constructor
    · intro spells
      cases spells with
      | chars belongs => exact ⟨_, rfl, contains_range.mp belongs⟩
    · rintro ⟨c, rfl, inside⟩
      exact .chars (contains_range.mpr inside)

/-- The pattern of an interval takes a character of it. -/
theorem matchCount?_ofInterval {low high : Char} (ordered : low ≤ high) :
    (ofInterval ordered).matchCount? text = some count ↔
      ∃ c, [c] <+: text ∧ low ≤ c ∧ c ≤ high ∧ count = 1 := by
  have shape : (ofInterval ordered).regex =
      .seq (.look .textStart) (.ofSet (.range low high)) := rfl
  have plain : (Regex.ofSet (.range low high)).LoopsAdvance = true ∧
      (Regex.ofSet (.range low high)).steady [.all] = true := by
    unfold Regex.ofSet
    split <;> exact ⟨rfl, rfl⟩
  rw [matchCount?_iff_of_steady (steady_of_shape shape plain.1 plain.2), shape]
  constructor
  · rintro ⟨word, spells, begins, rfl⟩
    obtain ⟨c, rfl, above, below⟩ := spells_range_iff.mp (spells_textStart_iff.mp spells)
    exact ⟨c, begins, above, below, rfl⟩
  · rintro ⟨c, begins, above, below, rfl⟩
    have spells := spells_range_iff.mpr ⟨c, rfl, above, below⟩
    exact ⟨[c], spells_textStart_iff.mpr spells, begins, rfl⟩

end Taking

end Pattern

end Packrat
