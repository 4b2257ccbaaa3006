import Packrat.Proofs.Pattern.Ends
import Packrat.Rule.Build
import Mathlib.Data.List.Basic

/-! # Patterns of ranges of code points

The rule for one character between two code points is a pattern that is put together from
hexadecimal numerals. The numerals are read back as the code points, so that for any two
characters in order the pattern is the set of the characters between them.
-/

namespace Packrat

namespace Numeral

/-- The code point of the character with a code point. -/
theorem toNat_ofNat {code : Nat} (valid : code.isValidChar) : (Char.ofNat code).toNat = code := by
  rw [Char.ofNat, dif_pos valid]
  rfl

/-- The digits of a hexadecimal numeral in capital letters. -/
def hexDigits (value : Nat) : Text := (Nat.toDigits 16 value).map Char.toUpper

theorem digit?_digitChar : ∀ digit < 16, digit? 16 (Nat.digitChar digit).toUpper = some digit := by
  decide +kernel

theorem isAsciiHexDigit_digitChar :
    ∀ digit < 16, CharClass.isAsciiHexDigit (Nat.digitChar digit).toUpper = true := by
  decide +kernel

/-- The digits of a number are those of its sixteenth part and one more. -/
theorem hexDigits_eq (value : Nat) :
    hexDigits value =
      if value < 16 then [(Nat.digitChar value).toUpper]
      else hexDigits (value / 16) ++ [(Nat.digitChar (value % 16)).toUpper] := by
  unfold hexDigits
  split
  · rename_i small
    rw [Nat.toDigits_of_lt_base small]
    rfl
  · rename_i large
    rw [Nat.toDigits_of_base_le (by omega) (by omega), List.map_append]
    rfl

theorem isAsciiHexDigit_of_mem {value : Nat} {c : Char} (member : c ∈ hexDigits value) :
    CharClass.isAsciiHexDigit c = true := by
  induction value using Nat.strongRecOn with
  | _ value ih =>
    rw [hexDigits_eq] at member
    split at member
    · rename_i small
      exact List.mem_singleton.mp member ▸ isAsciiHexDigit_digitChar value small
    · rcases List.mem_append.mp member with front | last
      · exact ih (value / 16) (by omega) front
      · exact List.mem_singleton.mp last ▸ isAsciiHexDigit_digitChar _ (Nat.mod_lt _ (by omega))

theorem readDigits_append {radix bound value middle : Nat} {front back : Text}
    (read : readDigits radix bound value front = .ok middle) :
    readDigits radix bound value (front ++ back) = readDigits radix bound middle back := by
  induction front generalizing value with
  | nil =>
    cases read
    rfl
  | cons c front ih =>
    rw [List.cons_append, readDigits]
    rw [readDigits] at read
    cases digit : digit? radix c with
    | none =>
      rw [digit] at read
      cases read
    | some value' =>
      rw [digit] at read
      dsimp only at read ⊢
      split at read
      · rename_i below
        rw [if_pos below]
        exact ih read
      · cases read

/-- The digits of a number below the bound are read back. -/
theorem readDigits_hexDigits {bound value : Nat} (below : value < bound) :
    readDigits 16 bound 0 (hexDigits value) = .ok value := by
  induction value using Nat.strongRecOn with
  | _ value ih =>
    rw [hexDigits_eq]
    split
    · rename_i small
      simp only [readDigits, digit?_digitChar value small, Nat.zero_mul, Nat.zero_add,
        if_pos below]
    · rw [readDigits_append (ih (value / 16) (by omega) (by omega))]
      have whole : value / 16 * 16 + value % 16 = value := by omega
      simp only [readDigits, digit?_digitChar _ (Nat.mod_lt value (show 0 < 16 by omega)), whole,
        if_pos below]

/-- A number below the bound is read back from its hexadecimal numeral. -/
theorem read_hexDigits {bound value : Nat} (below : value < bound) :
    read 16 bound (hexDigits value) = .ok value := by
  have digits := @isAsciiHexDigit_of_mem value
  have result := readDigits_hexDigits below
  cases written : hexDigits value with
  | nil =>
    rw [hexDigits_eq] at written
    split at written <;> simp at written
  | cons c rest =>
    have plain : c ≠ '+' := by
      rintro rfl
      have hex := digits (written ▸ List.mem_cons_self ..)
      exact absurd hex (by decide)
    rw [written] at result
    unfold read
    split
    · contradiction
    · rename_i same
      exact absurd (List.cons.inj same).1 plain
    · rename_i same
      exact absurd (List.cons.inj same).1 plain
    · exact result

end Numeral

namespace Pattern

open Numeral

theorem codePoint?_hexDigits (c : Char) : Escape.codePoint? (hexDigits c.toNat) = some c := by
  have valid : c.toNat.isValidChar := c.valid
  have below : c.toNat < 0x110000 := by
    simp only [Nat.isValidChar] at valid
    omega
  have digits : (hexDigits c.toNat).all CharClass.isAsciiHexDigit = true :=
    List.all_eq_true.mpr fun _ => isAsciiHexDigit_of_mem
  have written : (hexDigits c.toNat).isEmpty = false := by
    rw [hexDigits_eq]
    split <;> simp
  simp only [Escape.codePoint?, written, digits, read_hexDigits below, scalar?, if_pos valid,
    Bool.not_true, Bool.or_self, Bool.false_eq_true, if_false, Except.toOption, Option.bind_some,
    Char.ofNat_toNat]

/-- The escape of a character by its code point. -/
def escaped (c : Char) (rest : Text) : Text :=
  '\\' :: 'x' :: '\x7b' :: (hexDigits c.toNat ++ '\x7d' :: rest)

/-- What follows the backslash of an escaped code point is read as its character, if there is one. -/
theorem readCodePoint?_hexDigits (code : Nat) (rest : Text) :
    Escape.readCodePoint? {} 2 ('\x7b' :: (hexDigits code ++ '\x7d' :: rest)) =
      (Escape.codePoint? (hexDigits code)).map fun c => (.char c, rest) := by
  have digits : ∀ d ∈ hexDigits code, CharClass.isAsciiHexDigit d = true :=
    fun _ => isAsciiHexDigit_of_mem
  have brace : CharClass.isAsciiHexDigit '\x7d' = false := by decide
  simp only [Escape.readCodePoint?, Flags.skip, Flags.takeRun, Bool.false_eq_true, if_false,
    List.takeWhile_append_of_pos digits, List.dropWhile_append_of_pos digits, List.takeWhile_cons,
    List.dropWhile_cons, brace, List.append_nil]

/-- What follows the backslash of an escaped character is read as the character. -/
theorem readCodePoint?_escaped (c : Char) (rest : Text) :
    Escape.readCodePoint? {} 2 ('\x7b' :: (hexDigits c.toNat ++ '\x7d' :: rest)) =
      some (.char c, rest) := by
  rw [readCodePoint?_hexDigits, codePoint?_hexDigits]
  rfl

theorem readItem?_escaped (c : Char) (rest : Text) :
    Bracket.readItem? {} (escaped c rest) = some (.char c, rest) :=
  readCodePoint?_escaped c rest

/-- The class of the characters between two. -/
def interval (low high : Char) (rest : Text) : Text :=
  '[' :: escaped low ('-' :: escaped high (']' :: rest))

theorem readRange?_escaped {low high : Char} (ordered : low ≤ high) (rest : Text) :
    Bracket.readRange? {} (escaped low ('-' :: escaped high rest)) =
      some (.range low high, rest) := by
  have first : (escaped high rest).head? = some '\\' := rfl
  simp only [Bracket.readRange?, readItem?_escaped, Flags.skip, Bool.false_eq_true, if_false,
    Option.bind_eq_bind, Option.bind_some, Bracket.ahead?, first, Option.some.injEq,
    Char.reduceEq, or_self, Bracket.rangeSet?, if_pos ordered]
  rfl

private theorem readOn?_escaped (c : Char) (rest : Text) (fuel : Nat) (bracket : Bracket) :
    Bracket.readOn? {} (fuel + 1) [] bracket (escaped c rest) =
      (Bracket.readRange? {} (escaped c rest)).bind fun (set, after) =>
        Bracket.readOn? {} fuel [] (bracket.pushSet set) after := rfl

private theorem readOn?_closing (set : CharSet) (rest : Text) (fuel : Nat) :
    Bracket.readOn? {} (fuel + 1) [] (Bracket.pushSet ⟨false, none, .empty, 0, 0⟩ set)
      (']' :: rest) = some (⟨set, 1⟩, rest) := rfl

/-- The class of an interval is read as the set of the characters in it. -/
theorem next?_interval {low high : Char} (ordered : low ≤ high) (rest : Text) :
    Symbol.next? {} (interval low high rest) = some (.set ⟨.range low high, 1⟩, rest) := by
  have read : Bracket.read? {} (escaped low ('-' :: escaped high (']' :: rest))) =
      some (⟨.range low high, 1⟩, rest) := by
    change Bracket.readOn? {} _ [] ⟨false, none, .empty, 0, 0⟩
      (escaped low ('-' :: escaped high (']' :: rest))) = _
    rw [readOn?_escaped, readRange?_escaped ordered, Option.bind_some]
    exact readOn?_closing ..
  change (Bracket.read? {} (escaped low ('-' :: escaped high (']' :: rest)))).map _ = _
  rw [read]
  rfl

private theorem readOn?_interval (low high : Char) (rest : Text) (fuel : Nat) (reader : Reader)
    (plain : reader.flags = {}) :
    reader.readOn? (fuel + 1) (interval low high rest) =
      (Symbol.next? {} (interval low high rest)).bind fun (symbol, after) =>
        (reader.step? symbol).bind fun reader => reader.readOn? fuel after := by
  rw [Reader.readOn?, plain]
  rfl

/-- The wrapped class of an interval is read as its set at the start of the text. -/
theorem read?_interval {low high : Char} (ordered : low ≤ high) :
    Regex.read? ("\\A(?:".toList ++ interval low high [')']) =
      some (.seq (.look .textStart) (.ofSet (.range low high))) := by
  let set : Part := ⟨.ofSet (.range low high), 1, true⟩
  let group : Part := ⟨.alternation [.concat [set.regex]], 2, true⟩
  let look : Part := ⟨.look .textStart, 0, true⟩
  let outer : Group := ⟨{}, none, [], [look]⟩
  let opened : Reader := ⟨{}, ⟨{}, none, [], []⟩, [outer], 0, []⟩
  have start : Regex.read? ("\\A(?:".toList ++ interval low high [')']) =
      (opened.readOn? ((interval low high [')']).length + 3) (interval low high [')'])).bind
        Reader.finish? := rfl
  have pushed : opened.step? (.set ⟨.range low high, 1⟩) = some (opened.push set) := rfl
  have closed (fuel : Nat) : (opened.push set).readOn? (fuel + 2) [')'] =
      some ⟨{}, ⟨{}, none, [], [group, look]⟩, [], 0, []⟩ := rfl
  have finished : Reader.finish? ⟨{}, ⟨{}, none, [], [group, look]⟩, [], 0, []⟩ =
      some (.alternation [.concat [.look .textStart, group.regex]]) := by
    simp [Reader.finish?, Reader.depthLimit, Group.content, Group.branch, Part.ofParts, group, look]
  have plain : Regex.alternation [.concat [.look .textStart, group.regex]] =
      .seq (.look .textStart) (.ofSet (.range low high)) := by
    simp only [group, set]
    unfold Regex.ofSet
    cases (CharSet.range low high).only? <;> rfl
  rw [start, readOn?_interval low high _ _ opened rfl, next?_interval ordered, Option.bind_some]
  dsimp only
  rw [pushed, Option.bind_some, closed, Option.bind_some, finished, plain]

/-- The source of the pattern of the characters between two. -/
def intervalSource (low high : Char) : String :=
  "[\\x\x7b" ++ hex low.toNat ++ "\x7d-\\x\x7b" ++ hex high.toNat ++ "\x7d]"

theorem toList_intervalSource (low high : Char) (rest : Text) :
    (intervalSource low high).toList ++ rest = interval low high rest := by
  simp [intervalSource, interval, escaped, hex, hexDigits]

theorem source_of_ofSource? {source : String} {pattern : Pattern}
    (found : ofSource? source = some pattern) : pattern.source = source := by
  unfold ofSource? at found
  split at found
  · split at found
    · cases found
      rfl
    · cases found
  · cases found

end Pattern

namespace Rule

open Pattern Numeral

theorem toNat_of_scalarOf {code : Nat} {c : Char} (found : scalarOf code = .ok c) :
    c.toNat = code := by
  unfold scalarOf scalar? at found
  split at found
  · rename_i scalar
    split at scalar
    · rename_i valid
      cases scalar
      cases found
      exact toNat_ofNat valid
    · cases scalar
  · cases found

theorem eq_of_codePoint? {code : Nat} {rule : Rule} (built : codePoint? code = .ok rule) :
    ∃ name c, rule = .terminal (.inline name (.literal [c]) false) := by
  obtain ⟨c, -, built⟩ := Error.bind_eq_ok.mp built
  cases built
  exact ⟨_, c, rfl⟩

/-- The rule for a range of code points is the pattern of the set of the characters in it. -/
theorem eq_of_codeRange? {low high : Nat} {rule : Rule} (built : codeRange? low high = .ok rule) :
    ∃ first last : Char, first.toNat = low ∧ last.toNat = high ∧ first ≤ last ∧
      ∃ name pattern, rule = .terminal (.inline name (.pattern pattern) false) ∧
        pattern.regex = .seq (.look .textStart) (.ofSet (.range first last)) := by
  obtain ⟨first, lower, built⟩ := Error.bind_eq_ok.mp built
  obtain ⟨last, upper, built⟩ := Error.bind_eq_ok.mp built
  obtain rfl := toNat_of_scalarOf lower
  obtain rfl := toNat_of_scalarOf upper
  split at built
  · cases built
  rename_i ordered
  have ordered : first ≤ last := Nat.not_lt.mp ordered
  unfold pattern? at built
  split at built
  · cases built
  obtain ⟨lexical, read, built⟩ := Error.bind_eq_ok.mp built
  cases built
  unfold LexRule.ofPattern at read
  split at read
  · rename_i pattern known
    cases read
    refine ⟨first, last, rfl, rfl, ordered, _, pattern, rfl, ?_⟩
    have source : pattern.source = intervalSource first last := source_of_ofSource? known
    have wrapped := pattern.read_source
    rw [source, List.append_assoc, toList_intervalSource, read?_interval ordered] at wrapped
    exact (Option.some.inj wrapped).symm
  · cases read

end Rule

end Packrat
