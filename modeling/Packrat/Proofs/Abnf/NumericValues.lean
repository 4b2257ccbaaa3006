import Packrat.Proofs.Abnf.Tokens
import Packrat.Proofs.Pattern.CodePoints

/-! # What numeric values stand for

Whatever is scanned as a numeric value is made up of numerals (`exists_numerals`). Numerals in a row
stand for the characters that have their numbers, and two of them with a hyphen between for any
character from the first to the second. There is a rule of them if and only if there are such
characters, and no more of them than a pattern can have, and it matches what they stand for
(`numVal_denotes`).
-/

namespace Packrat.Notation.Abnf

open Numeral

/-- A numeral as it is written, with any number of zeros before it. -/
structure Digits (radix : Radix) where
  text : Text
  numeral : isNumeral radix.base text = true

/-- The number of a numeral. -/
def Digits.value {radix : Radix} (digits : Digits radix) : Nat := valueOf radix.base digits.text

/-- The numerals of a numeric value as it is written: some in a row, of which there is one at least,
or two with a hyphen between them. -/
inductive Numerals where
  | row (radix : Radix) (capital : Bool) (first : Digits radix) (more : List (Digits radix))
  | range (radix : Radix) (capital : Bool) (low high : Digits radix)

namespace Numerals

/-- The word of a numeric value. -/
def word : Numerals → Text
  | .row radix capital first more =>
      '%' :: radix.letter capital :: joined first.text (more.map Digits.text)
  | .range radix capital low high =>
      '%' :: radix.letter capital :: (low.text ++ '-' :: high.text)

/-- The name of the tokens of a numeric value. -/
def name : Numerals → String
  | numerals@(.row ..) => String.ofList numerals.word
  | .range _ _ low high => codePointName low.value ++ ".." ++ codePointName high.value

/-- Every number is the code point of a character, which none past U+10FFFF is, and those of a range
are in order. -/
def Valid : Numerals → Prop
  | .row _ _ first more => ∀ digits ∈ first :: more, digits.value.isValidChar
  | .range _ _ low high => low.value.isValidChar ∧ high.value.isValidChar ∧ low.value ≤ high.value

/-- The text is what a numeric value stands for: the characters of the numbers one after the other,
or one character of the range. -/
def Denotes : Numerals → Text → Prop
  | .row _ _ first more, text => text.map Char.toNat = (first :: more).map Digits.value
  | .range _ _ low high, text => ∃ c, text = [c] ∧ low.value ≤ c.toNat ∧ c.toNat ≤ high.value

/-- What a numeric value stands for is not too long for a pattern. -/
def Short (numerals : Numerals) : Prop :=
  ∀ text, numerals.Denotes text → text.byteLength ≤ Pattern.longestLiteral

/-- A pattern takes from any text what a numeric value stands for, if the text begins with it. -/
def Takes (numerals : Numerals) (pattern : Pattern) : Prop :=
  ∀ text count, pattern.matchCount? text = some count ↔
    ∃ piece, numerals.Denotes piece ∧ piece <+: text ∧ count = piece.length

theorem ne_nil_of_denotes {numerals : Numerals} {text : Text} (denotes : numerals.Denotes text) :
    text ≠ [] := by
  rintro rfl
  cases numerals with
  | row => cases denotes
  | range =>
    obtain ⟨c, same, -⟩ := denotes
    cases same

/-- One character is not too long for a pattern. -/
theorem short_range {radix : Radix} {capital : Bool} {low high : Digits radix} :
    (Numerals.range radix capital low high).Short := by
  rintro text ⟨c, rfl, -⟩
  have narrow := c.utf8Size_le_four
  rw [Text.byteLength_cons, Text.byteLength_nil, Pattern.longestLiteral]
  omega

end Numerals

section Words

variable {radix : Radix} {word : Text}

/-- A run of digits is a numeral. -/
theorem Radix.isNumeral_of_run (spells : radix.run.Spells word) :
    isNumeral radix.base word = true := by
  have solid : word ≠ [] := spells.ne_nil (by cases radix <;> decide)
  refine Bool.and_eq_true_iff.mpr ⟨by simpa using solid, List.all_eq_true.mpr ?_⟩
  intro c member
  exact contains_digits_iff.mp (spells.contains_of_run c member)

/-- A mark before a run of digits is a mark before a numeral. -/
private theorem Radix.of_marked {mark : Char}
    (spells : (Regex.seq (.literal [mark]) radix.run).Spells word) :
    ∃ digits : Digits radix, word = mark :: digits.text := by
  cases spells with
  | @seq _ _ _ digits front run =>
    cases front
    exact ⟨⟨digits, isNumeral_of_run run⟩, rfl⟩

private theorem Radix.of_dots (spells : radix.dots.Spells word) :
    ∃ more : List (Digits radix),
      word = (more.map Digits.text).flatMap fun piece => '.' :: piece := by
  cases spells with
  | @repetition _ _ _ _ words enough bounded rounds =>
    clear enough bounded
    induction words with
    | nil => exact ⟨[], rfl⟩
    | cons word words ih =>
      obtain ⟨here, others⟩ := List.forall_mem_cons.mp rounds
      obtain ⟨digits, rfl⟩ := of_marked here
      obtain ⟨more, same⟩ := ih others
      exact ⟨digits :: more, congrArg (('.' :: digits.text) ++ ·) same⟩

/-- What comes after the first numeral is a row of others, or one after a hyphen. -/
private theorem Radix.of_tail (spells : radix.tail.Spells word) :
    (∃ more : List (Digits radix),
      word = (more.map Digits.text).flatMap fun piece => '.' :: piece) ∨
      ∃ high : Digits radix, word = '-' :: high.text := by
  cases spells with
  | @repetition _ _ _ _ words _ bounded rounds =>
    match words, bounded 1 rfl, rounds with
    | [], _, _ => exact .inl ⟨[], rfl⟩
    | [word], _, rounds =>
      rw [List.flatten_singleton]
      cases rounds word (List.mem_singleton_self word) with
      | preferred dots => exact .inl (of_dots dots)
      | other last => exact .inr (of_marked last)

private theorem Radix.of_value (spells : radix.value.Spells word) :
    ∃ numerals : Numerals, numerals.word = '%' :: word := by
  cases spells with
  | seq letter spells =>
    cases letter with
    | chars belongs =>
      obtain ⟨capital, rfl⟩ := exists_letter belongs
      cases spells with
      | @seq _ _ digits _ run tail =>
        let first : Digits radix := ⟨digits, isNumeral_of_run run⟩
        rcases of_tail tail with ⟨more, rfl⟩ | ⟨high, rfl⟩
        · exact ⟨.row radix capital first more, rfl⟩
        · exact ⟨.range radix capital first high, rfl⟩

/-- A word of the pattern of numeric values is made up of numerals. -/
theorem exists_numerals (spells : numberPattern.regex.Spells word) :
    ∃ numerals : Numerals, numerals.word = word := by
  rw [number_regex, Pattern.spells_textStart_iff] at spells
  cases spells with
  | seq percent spells =>
    cases percent
    cases spells with
    | preferred binary => exact Radix.of_value binary
    | other spells =>
      cases spells with
      | preferred decimal => exact Radix.of_value decimal
      | other hexadecimal => exact Radix.of_value hexadecimal

end Words

section Reading

variable {rule : Rule}

section Rows

variable {radix : Radix} {capital : Bool} {first : Digits radix} {more : List (Digits radix)}

/-- Numerals in a row are read as code points, of which a pattern is made. -/
private theorem numVal_row_eq_ok_iff :
    numVal (Numerals.row radix capital first more).word = .ok rule ↔
    (∀ code ∈ (first :: more).map Digits.value, code < numeralBound) ∧
      Rule.pattern? (Numerals.row radix capital first more).name
        (Pattern.codesSource ((first :: more).map Digits.value)) = .ok rule := by
  have numerals : ∀ piece ∈ (first :: more).map Digits.text, isNumeral radix.base piece = true := by
    intro piece member
    obtain ⟨digits, -, rfl⟩ := List.mem_map.mp member
    exact digits.numeral
  have values : ((first :: more).map Digits.text).map (valueOf radix.base) =
      (first :: more).map Digits.value := by
    rw [List.map_map]
    rfl
  rw [Numerals.word, numVal_joined capital numerals, Error.bind_eq_ok]
  constructor
  · rintro ⟨codes, read, built⟩
    obtain ⟨rfl, below⟩ := (mapM_numeral_eq_ok_iff numerals).mp read
    change ∀ code ∈ ((first :: more).map Digits.text).map (valueOf radix.base), _ at below
    change codePoints _ (((first :: more).map Digits.text).map (valueOf radix.base)) = _ at built
    rw [values] at below built
    exact ⟨below, built⟩
  · rintro ⟨below, built⟩
    exact ⟨_, (mapM_numeral_eq_ok_iff numerals).mpr ⟨values, below⟩, built⟩

/-- The characters of numerals in a row, if there are such characters. -/
private theorem exists_chars (valid : (Numerals.row radix capital first more).Valid) :
    ∃ chars : Text, (Numerals.row radix capital first more).Denotes chars := by
  refine ⟨((first :: more).map Digits.value).map Char.ofNat, Pattern.map_toNat_ofNat ?_⟩
  intro code member
  obtain ⟨digits, among, rfl⟩ := List.mem_map.mp member
  exact valid digits among

/-- Numerals in a row stand for one text only. -/
private theorem chars_unique {chars piece : Text}
    (denotes : (Numerals.row radix capital first more).Denotes chars) :
    (Numerals.row radix capital first more).Denotes piece ↔ piece = chars := by
  constructor
  · intro denotes'
    have injective : Function.Injective Char.toNat := fun _ _ => Char.toNat_inj.mp
    exact List.map_injective_iff.mpr injective (Eq.trans denotes' (Eq.symm denotes))
  · rintro rfl
    exact denotes

private theorem name_ne_empty : (Numerals.row radix capital first more).name ≠ "" := by
  simp [Numerals.name, Numerals.word]

/-- A row of code points of characters, not too many, has the pattern of the characters. -/
private theorem numVal_row_of_valid (valid : (Numerals.row radix capital first more).Valid)
    (short : (Numerals.row radix capital first more).Short) :
    ∃ pattern, numVal (Numerals.row radix capital first more).word = .ok (.terminal (.inline
        (Numerals.row radix capital first more).name (.pattern pattern) false)) ∧
      (Numerals.row radix capital first more).Takes pattern := by
  obtain ⟨chars, denotes⟩ := exists_chars valid
  have codes : (first :: more).map Digits.value = chars.map Char.toNat := denotes.symm
  have filled : chars ≠ [] := Numerals.ne_nil_of_denotes denotes
  refine ⟨.ofChars filled (short chars denotes), ?_, ?_⟩
  · apply numVal_row_eq_ok_iff.mpr
    constructor
    · intro code member
      obtain ⟨digits, among, rfl⟩ := List.mem_map.mp member
      exact lt_numeralBound (valid digits among)
    · rw [codes, Pattern.codesSource_toNat]
      exact Rule.pattern?_source name_ne_empty (.ofChars filled (short chars denotes))
  · intro text count
    rw [Pattern.matchCount?_ofChars]
    constructor
    · rintro ⟨begins, rfl⟩
      exact ⟨chars, denotes, begins, rfl⟩
    · rintro ⟨piece, denotes', begins, rfl⟩
      obtain rfl := (chars_unique denotes).mp denotes'
      exact ⟨begins, rfl⟩

/-- Only code points of characters, and not too many, are a row. -/
private theorem valid_of_numVal_row
    (built : numVal (Numerals.row radix capital first more).word = .ok rule) :
    (Numerals.row radix capital first more).Valid ∧
      (Numerals.row radix capital first more).Short := by
  obtain ⟨-, made⟩ := numVal_row_eq_ok_iff.mp built
  have known : Pattern.ofSource? (Pattern.codesSource ((first :: more).map Digits.value)) ≠ none := by
    intro none
    rw [Rule.pattern?_of_none name_ne_empty none] at made
    cases made
  constructor
  · intro digits among
    by_contra invalid
    apply known
    apply Pattern.ofSource?_codesSource_eq_none
    intro all
    exact invalid (all _ (List.mem_map_of_mem among))
  · intro chars denotes
    by_contra long
    apply known
    have codes : (first :: more).map Digits.value = chars.map Char.toNat := Eq.symm denotes
    rw [codes, Pattern.codesSource_toNat]
    exact Pattern.ofSource?_charsSource_eq_none (Numerals.ne_nil_of_denotes denotes)
      (Nat.lt_of_not_le long)

end Rows

section Ranges

variable {radix : Radix} {capital : Bool} {low high : Digits radix}

private theorem numVal_range_eq_ok_iff :
    numVal (Numerals.range radix capital low high).word = .ok rule ↔
      low.value < numeralBound ∧ high.value < numeralBound ∧
        Rule.codeRange? low.value high.value = .ok rule := by
  rw [Numerals.word, numVal_hyphen capital low.numeral, Error.bind_eq_ok]
  constructor
  · rintro ⟨lower, read, built⟩
    obtain ⟨upper, read', built⟩ := Error.bind_eq_ok.mp built
    obtain ⟨rfl, below⟩ := (numeral_eq_ok_iff low.numeral).mp read
    obtain ⟨rfl, below'⟩ := (numeral_eq_ok_iff high.numeral).mp read'
    exact ⟨below, below', built⟩
  · rintro ⟨below, below', built⟩
    refine ⟨low.value, (numeral_eq_ok_iff low.numeral).mpr ⟨rfl, below⟩, ?_⟩
    apply Error.bind_eq_ok.mpr
    exact ⟨high.value, (numeral_eq_ok_iff high.numeral).mpr ⟨rfl, below'⟩, built⟩

/-- A range of code points in order has the pattern of the interval between them. -/
private theorem numVal_range_of_valid (valid : (Numerals.range radix capital low high).Valid) :
    ∃ pattern, numVal (Numerals.range radix capital low high).word = .ok (.terminal (.inline
        (Numerals.range radix capital low high).name (.pattern pattern) false)) ∧
      (Numerals.range radix capital low high).Takes pattern := by
  obtain ⟨validLow, validHigh, ordered⟩ := valid
  have first : (Char.ofNat low.value).toNat = low.value := toNat_ofNat validLow
  have last : (Char.ofNat high.value).toNat = high.value := toNat_ofNat validHigh
  have between : Char.ofNat low.value ≤ Char.ofNat high.value := by
    rw [toNat_le_iff, first, last]
    exact ordered
  refine ⟨.ofInterval between, ?_, ?_⟩
  · apply numVal_range_eq_ok_iff.mpr
    refine ⟨lt_numeralBound validLow, lt_numeralBound validHigh, ?_⟩
    have built := Rule.codeRange?_ordered between
    rw [first, last] at built
    exact built
  · intro text count
    rw [Pattern.matchCount?_ofInterval]
    constructor
    · rintro ⟨c, begins, above, below, rfl⟩
      rw [toNat_le_iff] at above below
      exact ⟨[c], ⟨c, rfl, first ▸ above, last ▸ below⟩, begins, rfl⟩
    · rintro ⟨piece, ⟨c, rfl, above, below⟩, begins, rfl⟩
      refine ⟨c, begins, ?_, ?_, rfl⟩
      · rw [toNat_le_iff, first]
        exact above
      · rw [toNat_le_iff, last]
        exact below

/-- Only code points of characters in order are a range. -/
private theorem valid_of_numVal_range
    (built : numVal (Numerals.range radix capital low high).word = .ok rule) :
    (Numerals.range radix capital low high).Valid ∧
      (Numerals.range radix capital low high).Short := by
  obtain ⟨-, -, made⟩ := numVal_range_eq_ok_iff.mp built
  obtain ⟨first, last, lower, upper, ordered, -⟩ := Rule.eq_of_codeRange? made
  constructor
  · refine ⟨lower ▸ first.valid, upper ▸ last.valid, ?_⟩
    rw [← lower, ← upper]
    exact toNat_le_iff.mp ordered
  · exact Numerals.short_range

end Ranges

/-- There is a rule of a numeric value if and only if there are the characters that it stands for
and not too many of them. -/
theorem exists_numVal_iff (numerals : Numerals) :
    (∃ rule, numVal numerals.word = .ok rule) ↔ numerals.Valid ∧ numerals.Short := by
  constructor
  · rintro ⟨rule, built⟩
    cases numerals with
    | row => exact valid_of_numVal_row built
    | range => exact valid_of_numVal_range built
  · rintro ⟨valid, short⟩
    cases numerals with
    | row =>
      obtain ⟨pattern, built, -⟩ := numVal_row_of_valid valid short
      exact ⟨_, built⟩
    | range =>
      obtain ⟨pattern, built, -⟩ := numVal_range_of_valid valid
      exact ⟨_, built⟩

example : ["%xD800", "%x110000", "%d57-48", "%b1-1101100000000000"].all
    (fun word => (numVal word.toList).toOption.isNone) = true := by decide +kernel

/-- The rule of a numeric value has a pattern that takes what the value stands for. -/
theorem eq_of_numVal {numerals : Numerals} (built : numVal numerals.word = .ok rule) :
    ∃ pattern, rule = .terminal (.inline numerals.name (.pattern pattern) false) ∧
      numerals.Takes pattern := by
  obtain ⟨valid, short⟩ := (exists_numVal_iff numerals).mp ⟨rule, built⟩
  cases numerals with
  | row =>
    obtain ⟨pattern, made, takes⟩ := numVal_row_of_valid valid short
    exact ⟨pattern, Except.ok.inj (built.symm.trans made), takes⟩
  | range =>
    obtain ⟨pattern, made, takes⟩ := numVal_range_of_valid valid
    exact ⟨pattern, Except.ok.inj (built.symm.trans made), takes⟩

/-- A numeric value is refused only for a fault of construction. -/
theorem construction_of_numVal {text : Text} {fault : Error} (refused : numVal text = .error fault) :
    ∃ reason, fault = .construction reason := by
  have refusal : Refusal "" fault := numVal_reads text fault refused
  generalize nowhere : "" = reporting at refusal
  cases refusal with
  | construction => exact ⟨_, rfl⟩
  | prose => exact absurd nowhere (by decide)

end Reading

section Matching

/-- Where nothing is ignored, a terminal matches what its pattern takes. -/
theorem evalAt?_of_takes {numerals : Numerals} {pattern : Pattern} (takes : numerals.Takes pattern)
    {environment : Environment} (plain : environment.grammar.ignore = []) (name : String)
    (place : Cursor) :
    ∃ outcome, environment.evalAt? (.terminal (.inline name (.pattern pattern) false)) place =
        some (outcome, environment) ∧
      (∀ found, outcome = .ok found ↔ ∃ piece, numerals.Denotes piece ∧ piece <+: place.rest ∧
        found = ⟨place.forward piece.length, .token ⟨.rule name, piece, place.offset⟩⟩) ∧
      ∀ reject, outcome = .error reject → reject.kind = .mismatch := by
  let leaf : Terminal := .inline name (.pattern pattern) false
  refine ⟨leaf.eval environment.grammar.lexicon environment.grammar.ignore place, rfl, ?_, ?_⟩
  · intro found
    rw [Terminal.eval_eq_ok_iff, plain, Cursor.skip_nil]
    constructor
    · rintro ⟨_, _, _, count, lexical, -, taken, rfl⟩
      cases lexical
      obtain ⟨piece, denotes, begins, rfl⟩ := (takes place.rest count).mp taken
      refine ⟨piece, denotes, begins, ?_⟩
      rw [Terminal.taken, ← List.prefix_iff_eq_take.mp begins]
    · rintro ⟨piece, denotes, begins, rfl⟩
      have left : place.rest ≠ [] := begins.ne_nil (Numerals.ne_nil_of_denotes denotes)
      have taken := (takes place.rest piece.length).mpr ⟨piece, denotes, begins, rfl⟩
      refine ⟨name, .pattern pattern, false, piece.length, rfl, left, taken, ?_⟩
      rw [Terminal.taken, ← List.prefix_iff_eq_take.mp begins]
  · intro reject rejected
    obtain ⟨reason, rfl⟩ := Terminal.mismatch_of_eval rejected
    rfl

end Matching

section Scanning

variable {lexical : LexRule}

theorem numVal_listed :
    grammar.lexicon.find? "num-val" = some (.pattern numberPattern) :=
  (Table.find?_insertAll _ _ _).trans rfl

/-- What is scanned as a numeric value is a word of their pattern. -/
private theorem spells_of_scan (listed : grammar.lexicon.find? "num-val" = some lexical)
    {cursor : Cursor}
    (scanned : (cursor.scan grammar.ignore "num-val" lexical false).1.kind = .rule "num-val") :
    numberPattern.regex.Spells (cursor.scan grammar.ignore "num-val" lexical false).1.text := by
  obtain rfl := Option.some.inj (listed.symm.trans numVal_listed)
  unfold Cursor.scan at scanned ⊢
  dsimp only at scanned ⊢
  by_cases ended : (cursor.skip grammar.ignore).atEnd = true
  · rw [if_pos ended] at scanned
    cases scanned
  rw [if_neg ended] at scanned ⊢
  cases taken : LexRule.matchCount? (.pattern numberPattern) false
      (cursor.skip grammar.ignore).rest with
  | none =>
    rw [taken] at scanned
    cases scanned
  | some count =>
    have anchored : numberPattern.regex.anchored = true := by rw [number_regex]; rfl
    have loops : numberPattern.regex.LoopsAdvance = true := by rw [number_regex]; decide
    obtain ⟨word, rest, same, rfl, spells⟩ := Pattern.spells_of_matchCount? anchored loops taken
    rw [same]
    change numberPattern.regex.Spells ((word ++ rest).take word.length)
    rwa [List.take_left]

/-- Whatever is scanned as a numeric value is made up of numerals. There is a rule of it exactly if
its numbers are code points of characters, in order if it is a range, and no more of them than a
pattern can have, and a numeric value without a rule is refused for a fault of construction. Where
nothing is ignored the rule matches exactly what the value stands for, if the text goes on with
that, and nothing more. -/
theorem numVal_denotes (listed : grammar.lexicon.find? "num-val" = some lexical) {cursor : Cursor}
    (scanned : (cursor.scan grammar.ignore "num-val" lexical false).1.kind = .rule "num-val") :
    let word := (cursor.scan grammar.ignore "num-val" lexical false).1.text
    (∃ numerals : Numerals, numerals.word = word) ∧
    ∀ numerals : Numerals, numerals.word = word →
      ((∃ rule, numVal word = .ok rule) ↔ numerals.Valid ∧ numerals.Short) ∧
      (∀ fault, numVal word = .error fault → ∃ reason, fault = .construction reason) ∧
      ∀ rule, numVal word = .ok rule →
        ∀ environment : Environment, environment.grammar.ignore = [] → ∀ place : Cursor,
          ∃ outcome, environment.evalAt? rule place = some (outcome, environment) ∧
            (∀ found, outcome = .ok found ↔ ∃ piece, numerals.Denotes piece ∧
              piece <+: place.rest ∧ found =
                ⟨place.forward piece.length, .token ⟨.rule numerals.name, piece, place.offset⟩⟩) ∧
            ∀ reject, outcome = .error reject → reject.kind = .mismatch := by
  intro word
  refine ⟨exists_numerals (spells_of_scan listed scanned), ?_⟩
  rintro numerals same
  rw [← same]
  refine ⟨exists_numVal_iff numerals, fun fault => construction_of_numVal, ?_⟩
  intro rule built environment plain place
  obtain ⟨pattern, rfl, takes⟩ := eq_of_numVal built
  exact evalAt?_of_takes takes plain numerals.name place

/-- A range around the surrogates, with zeros before its first numeral and small letters in the
second, matches one character on either side of them. -/
theorem numVal_denotes_around_surrogates :
    let lexical : LexRule := .pattern numberPattern
    let cursor : Cursor := .start " %x00D7FF-e000;".toList
    let word := "%x00D7FF-e000".toList
    grammar.lexicon.find? "num-val" = some lexical ∧
      (cursor.scan grammar.ignore "num-val" lexical false).1 = ⟨.rule "num-val", word, 1⟩ ∧
      ∃ rule, numVal word = .ok rule ∧
        ∀ environment : Environment, environment.grammar.ignore = [] → ∀ place : Cursor,
          ∃ outcome, environment.evalAt? rule place = some (outcome, environment) ∧
            ∀ found, outcome = .ok found ↔ ∃ c : Char, (0xD7FF ≤ c.toNat ∧ c.toNat ≤ 0xE000) ∧
              [c] <+: place.rest ∧ found =
                ⟨place.forward 1, .token ⟨.rule "U+D7FF..U+E000", [c], place.offset⟩⟩ := by
  intro lexical cursor word
  have token : (cursor.scan grammar.ignore "num-val" lexical false).1 =
      ⟨.rule "num-val", word, 1⟩ := by decide +kernel
  have scanned : (cursor.scan grammar.ignore "num-val" lexical false).1.kind =
      .rule "num-val" := by rw [token]
  obtain ⟨-, denotes⟩ := @numVal_denotes lexical numVal_listed cursor scanned
  let low : Digits .hexadecimal := ⟨"00D7FF".toList, by decide⟩
  let high : Digits .hexadecimal := ⟨"e000".toList, by decide⟩
  have lower : low.value = 0xD7FF := by decide
  have upper : high.value = 0xE000 := by decide
  let numerals : Numerals := .range .hexadecimal false low high
  have same : numerals.word = word := by decide
  have name : numerals.name = "U+D7FF..U+E000" := by decide
  rw [token] at denotes
  obtain ⟨exists_iff, -, matched⟩ := denotes numerals same
  have valid : numerals.Valid := by
    change low.value.isValidChar ∧ high.value.isValidChar ∧ low.value ≤ high.value
    rw [lower, upper]
    decide
  obtain ⟨rule, built⟩ := exists_iff.mpr ⟨valid, Numerals.short_range⟩
  refine ⟨numVal_listed, token, rule, built, ?_⟩
  intro environment plain place
  obtain ⟨outcome, ended, found_iff, -⟩ := matched rule built environment plain place
  refine ⟨outcome, ended, ?_⟩
  intro found
  rw [found_iff, name]
  constructor
  · rintro ⟨piece, ⟨c, rfl, inside⟩, begins, rfl⟩
    rw [lower, upper] at inside
    exact ⟨c, inside, begins, rfl⟩
  · rintro ⟨c, inside, begins, rfl⟩
    rw [← lower, ← upper] at inside
    exact ⟨[c], ⟨c, rfl, inside⟩, begins, rfl⟩

end Scanning

end Packrat.Notation.Abnf
