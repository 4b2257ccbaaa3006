import Packrat.Proofs.Pattern.Interval

/-! # Patterns of escaped characters

Characters that are written by their code points are read back: one after the other as a literal,
and two of them between brackets as the characters between them. A literal is small enough for a
pattern exactly if it takes no more than `longestLiteral` bytes.
-/

namespace Packrat

namespace Pattern

open Numeral

/-- The escapes of characters by their code points, one after the other. -/
def escapes (chars rest : Text) : Text := chars.foldr escaped rest

/-- The part of one character. -/
private def letter (c : Char) : Part := ⟨.literal [c], 0, true⟩

theorem next?_escaped (c : Char) (rest : Text) :
    Symbol.next? {} (escaped c rest) = some (.char c, rest) := by
  change (Escape.readCodePoint? {} 2 ('\x7b' :: (hexDigits c.toNat ++ '\x7d' :: rest))).map _ = _
  rw [readCodePoint?_escaped]
  rfl

private theorem step?_char {reader : Reader} (plain : reader.flags = {}) (c : Char) :
    reader.step? (.char c) = some (reader.push (letter c)) := by
  have only : (CharSet.single c).only? = some c := by
    simp [CharSet.only?, CharSet.single, CharSet.range]
  have set : Regex.ofSet ((Flags.fold {} (.single c))) = .literal [c] := by
    rw [Flags.fold, if_neg (by decide), Regex.ofSet, only]
  rw [Reader.step?, plain, set]
  rfl

/-- Escaped characters are pushed one by one. -/
theorem readOn?_escapes (chars rest : Text) (fuel : Nat) {reader : Reader}
    (plain : reader.flags = {}) :
    reader.readOn? (fuel + chars.length) (escapes chars rest) =
      Reader.readOn? { reader with group := { reader.group with
        parts := (chars.map letter).reverse ++ reader.group.parts } } fuel rest := by
  induction chars generalizing reader with
  | nil => rfl
  | cons c chars ih =>
    have here : reader.readOn? (fuel + chars.length + 1) (escapes (c :: chars) rest) =
        (Symbol.next? {} (escaped c (escapes chars rest))).bind fun read =>
          (reader.step? read.1).bind fun reader =>
            reader.readOn? (fuel + chars.length) read.2 := by
      rw [Reader.readOn?, plain]
      rfl
    rw [List.length_cons, ← Nat.add_assoc, here, next?_escaped, Option.bind_some]
    dsimp only
    rw [step?_char plain, Option.bind_some, @ih (reader.push (letter c)) plain]
    simp [Reader.push]

private theorem concat_letters {chars : Text} (some : chars ≠ []) :
    Regex.concat ((chars.map letter).map Part.regex) = .literal chars := by
  have joined (c : Char) (chars : Text) :
      ((c :: chars).map fun c => Regex.literal [c]).foldr Regex.joinPart [] =
        [.literal (c :: chars)] := by
    induction chars generalizing c with
    | nil => rfl
    | cons d chars ih =>
      rw [List.map_cons, List.foldr_cons, ih]
      rfl
  have parts : ((chars.map letter).map Part.regex).flatMap Regex.parts =
      chars.map fun c => Regex.literal [c] := by
    rw [List.map_map, List.flatMap_map]
    exact List.map_eq_flatMap.symm
  cases chars with
  | nil => exact absurd rfl some
  | cons c chars =>
    rw [Regex.concat, parts, joined]
    rfl

private theorem depth_letters (chars : Text) :
    ((chars.map letter).map Part.depth).foldl max 0 = 0 := by
  induction chars with
  | nil => rfl
  | cons c chars ih => exact ih

/-- A group of characters is their literal, which is not deep. -/
private theorem part_letters {chars : Text} (some : chars ≠ []) :
    ∃ depth ≤ 2, Group.part ⟨{}, none, [], (chars.map letter).reverse⟩ =
      ⟨.literal chars, depth, true⟩ := by
  obtain ⟨depth, shallow, branch⟩ : ∃ depth ≤ 1,
      Group.branch ⟨{}, none, [], (chars.map letter).reverse⟩ = ⟨.literal chars, depth, true⟩ := by
    rw [Group.branch, List.reverse_reverse, Part.ofParts, concat_letters some, depth_letters]
    refine ⟨_, ?_, rfl⟩
    dsimp only
    split <;> omega
  refine ⟨depth + 1, Nat.succ_le_succ shallow, ?_⟩
  rw [Group.part, Group.content, branch]
  simp [Part.ofParts, Regex.alternation, Regex.branches]

theorem length_escapes (chars rest : Text) :
    chars.length + rest.length ≤ (escapes chars rest).length := by
  induction chars with
  | nil => exact Nat.le_of_eq (Nat.zero_add _)
  | cons c chars ih =>
    have here : (escapes (c :: chars) rest).length =
        (hexDigits c.toNat).length + (escapes chars rest).length + 4 := by
      simp only [escapes, List.foldr_cons, escaped, List.length_cons, List.length_append]
      omega
    rw [here, List.length_cons]
    omega

/-- Wrapped escapes are read as a literal at the start of the text. -/
theorem read?_escapes {chars : Text} (some : chars ≠ []) :
    Regex.read? ("\\A(?:".toList ++ escapes chars [')']) =
      Option.some (.seq (.look .textStart) (.literal chars)) := by
  let look : Part := ⟨.look .textStart, 0, true⟩
  let outer : Group := ⟨{}, none, [], [look]⟩
  let opened : Reader := ⟨{}, ⟨{}, none, [], []⟩, [outer], 0, []⟩
  let inside : Reader := ⟨{}, ⟨{}, none, [], (chars.map letter).reverse⟩, [outer], 0, []⟩
  obtain ⟨depth, shallow, part⟩ := part_letters some
  obtain ⟨fuel, long⟩ : ∃ fuel, (escapes chars [')']).length + 3 = fuel + 2 + chars.length := by
    have enough := length_escapes chars [')']
    exact ⟨(escapes chars [')']).length + 1 - chars.length, by omega⟩
  have start : Regex.read? ("\\A(?:".toList ++ escapes chars [')']) =
      (opened.readOn? ((escapes chars [')']).length + 3) (escapes chars [')'])).bind
        Reader.finish? := rfl
  have pushed : opened.readOn? (fuel + 2 + chars.length) (escapes chars [')']) =
      inside.readOn? (fuel + 2) [')'] := by
    rw [readOn?_escapes chars _ _ rfl, List.append_nil]
  have closed : inside.readOn? (fuel + 2) [')'] =
      Option.some ⟨{}, ⟨{}, none, [], [inside.group.part, look]⟩, [], 0, []⟩ := rfl
  rw [start, long, pushed, closed, part, Option.bind_some, Reader.finish?, if_pos]
  · rfl
  · have flat : look.depth = 0 := rfl
    simp only [Group.content, Group.branch, Part.ofParts, Reader.depthLimit]
    simp [flat]
    omega

section Sources

/-- The source of the pattern of characters in a row. -/
def charsSource (chars : Text) : String :=
  "".intercalate (chars.map fun c => "\\x\x7b" ++ Numeral.hex c.toNat ++ "\x7d")

/-- The source of the pattern of code points in a row, whether there are characters that have
them or not. -/
def codesSource (codes : List Nat) : String :=
  "".intercalate (codes.map fun code => "\\x\x7b" ++ Numeral.hex code ++ "\x7d")

/-- The escape of a code point, whether there is a character that has it or not. -/
def escapedCode (code : Nat) (rest : Text) : Text :=
  '\\' :: 'x' :: '\x7b' :: (hexDigits code ++ '\x7d' :: rest)

theorem codesSource_toNat (chars : Text) :
    codesSource (chars.map Char.toNat) = charsSource chars := by
  rw [codesSource, charsSource, List.map_map]
  rfl

private theorem toList_joined (pieces : List String) :
    ("".intercalate pieces).toList = pieces.flatMap String.toList := by
  induction pieces with
  | nil => rfl
  | cons piece pieces ih =>
    cases pieces with
    | nil => simp
    | cons next pieces =>
      rw [String.intercalate_cons_cons, String.toList_append, ih]
      simp

theorem toList_codesSource (codes : List Nat) (rest : Text) :
    (codesSource codes).toList ++ rest = codes.foldr escapedCode rest := by
  rw [codesSource, toList_joined, List.flatMap_map]
  induction codes with
  | nil => rfl
  | cons code codes ih =>
    rw [List.flatMap_cons, List.append_assoc, ih]
    simp [escapedCode, Numeral.hex, hexDigits]

theorem toList_charsSource (chars rest : Text) :
    (charsSource chars).toList ++ rest = escapes chars rest := by
  rw [← codesSource_toNat, toList_codesSource, List.foldr_map]
  rfl

/-- The most bytes that a literal of a pattern may take. -/
def longestLiteral : Nat := 327674

private theorem byteLength_le (text : Text) : text.byteLength ≤ 4 * text.length := by
  induction text with
  | nil => exact Nat.le_refl _
  | cons c text ih =>
    have narrow := c.utf8Size_le_four
    simp only [Text.byteLength_cons, List.length_cons]
    omega

/-- A literal that is tried at the start of a text is small enough if it is not too long. -/
theorem fits_literal_iff {chars : Text} :
    (Regex.seq (.look .textStart) (.literal chars)).fits = true ↔
      chars.byteLength ≤ longestLiteral := by
  have wide := byteLength_le chars
  have light : Regex.weight (.seq (.look .textStart) (.literal chars)) = 1 + chars.length := rfl
  have forward : (Regex.seq (.look .textStart) (.literal chars)).forward.bytes =
      32 * (1 + chars.byteLength + 1 + 3) + 0 := rfl
  have backward : (Regex.seq (.look .textStart) (.literal chars)).backward.bytes =
      32 * (3 + chars.byteLength + 1 + 1) + 16 := rfl
  have limit : Footprint.limit = 10485760 := by decide
  rw [Regex.fits, Bool.or_eq_true, Bool.and_eq_true, decide_eq_true_iff, Footprint.fits,
    Footprint.fits, decide_eq_true_iff, decide_eq_true_iff, light, forward, backward, limit,
    show Nat.pow 2 12 = 4096 from rfl, longestLiteral]
  omega

variable {chars : Text} (filled : chars ≠ [])

/-- The pattern of characters in a row that are not too many. -/
def ofChars (short : chars.byteLength ≤ longestLiteral) : Pattern where
  source := charsSource chars
  regex := .seq (.look .textStart) (.literal chars)
  program := (Regex.seq (.look .textStart) (.literal chars)).program
  read_source := by rw [List.append_assoc, toList_charsSource, read?_escapes filled]
  fits := fits_literal_iff.mpr short
  program_eq := rfl

include filled in
theorem ofSource?_charsSource_eq_none (long : longestLiteral < chars.byteLength) :
    ofSource? (charsSource chars) = none := by
  refine Option.eq_none_iff_forall_ne_some.mpr fun pattern found => ?_
  have read := pattern.read_source
  rw [source_of_ofSource? found, List.append_assoc, toList_charsSource,
    read?_escapes filled] at read
  have small := fits_literal_iff.mp (Option.some.inj read ▸ pattern.fits)
  omega

/-- The pattern of the characters between two. -/
def ofInterval {low high : Char} (ordered : low ≤ high) : Pattern where
  source := intervalSource low high
  regex := .seq (.look .textStart) (.ofSet (.range low high))
  program := (Regex.seq (.look .textStart) (.ofSet (.range low high))).program
  read_source := by rw [List.append_assoc, toList_intervalSource, read?_interval ordered]
  fits := by
    have light : (Regex.ofSet (.range low high)).weight ≤ 2 := by
      unfold Regex.ofSet
      split
      · exact Nat.le_succ 1
      · exact Nat.le_refl 2
    have small : (1 + (Regex.ofSet (.range low high)).weight) * Nat.pow 2 12 ≤ Footprint.limit :=
      Nat.le_trans (Nat.mul_le_mul_right _ (Nat.add_le_add_left light 1)) (by decide)
    rw [Regex.fits, Bool.or_eq_true]
    exact .inl (decide_eq_true small)
  program_eq := rfl

end Sources

end Pattern

namespace Rule

open Pattern Numeral

section Building

variable {name : String} (named : name ≠ "")

include named

/-- The rule of a pattern is built from its source. -/
theorem pattern?_source (pattern : Pattern) :
    pattern? name pattern.source = .ok (.terminal (.inline name (.pattern pattern) false)) := by
  rw [pattern?, if_neg named, LexRule.ofPattern, ofSource?_source]
  rfl

/-- There is no rule of a source that is no pattern. -/
theorem pattern?_of_none {source : String} (none : ofSource? source = none) :
    pattern? name source = Error.build (.invalidPattern source) := by
  rw [pattern?, if_neg named, LexRule.ofPattern, none]
  rfl

end Building

/-- For characters in order there is a rule of those between them. -/
theorem codeRange?_ordered {low high : Char} (ordered : low ≤ high) :
    codeRange? low.toNat high.toNat = .ok (.terminal (.inline
      (codePointName low.toNat ++ ".." ++ codePointName high.toNat)
      (.pattern (.ofInterval ordered)) false)) := by
  have scalar (c : Char) : scalarOf c.toNat = .ok c := by
    have valid : c.toNat.isValidChar := c.valid
    rw [scalarOf, scalar?, if_pos valid, Char.ofNat_toNat]
  have named : codePointName low.toNat ++ ".." ++ codePointName high.toNat ≠ "" := by
    simp [codePointName]
  have ordered' : ¬ low.toNat > high.toNat := Nat.not_lt.mpr ordered
  rw [codeRange?, scalar, scalar]
  exact (if_neg ordered').trans (pattern?_source named (.ofInterval ordered))

end Rule

end Packrat
