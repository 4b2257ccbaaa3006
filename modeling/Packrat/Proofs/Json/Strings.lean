import Packrat.Proofs.Json.Document

/-! # The pieces of string tokens

A string token is made of pieces between quotes: characters that stand for themselves, escapes of
one letter, and code units of four hexadecimal digits. The reader takes every such token whose
surrogates stand in pairs, high before low, and no other (`readString?_eq_none_iff`).
-/

namespace Packrat.Json

section Pieces

/-- The characters that stand for themselves in a string token. -/
def isOrdinary (c : Char) : Bool := c != '"' && c != '\\' && 0x20 ≤ c.toNat && c.toNat != 0x7F

/-- The letters and marks of the short escapes. -/
def shortLetters : Text := ['"', '/', '\\', 'b', 'f', 'n', 'r', 't']

/-- A piece of a string token. -/
inductive Piece where
  | plain (c : Char) (ordinary : isOrdinary c = true)
  | short (letter : Char) (known : letter ∈ shortLetters)
  /-- A code unit of four hexadecimal digits. -/
  | unit (first second third fourth : Char)
      (hex : [first, second, third, fourth].all CharClass.isAsciiHexDigit = true)

namespace Piece

/-- The characters of a piece. -/
def text : Piece → Text
  | .plain c _ => [c]
  | .short letter _ => ['\\', letter]
  | .unit first second third fourth _ => ['\\', 'u', first, second, third, fourth]

/-- The code unit of a piece that is written as one. -/
def unit? : Piece → Option Nat
  | .unit first second third fourth _ => codeUnit? [first, second, third, fourth]
  | _ => none

/-- The first half of a surrogate pair. -/
def isHigh (piece : Piece) : Bool := piece.unit?.any fun unit => 0xD800 ≤ unit && unit < 0xDC00

/-- The second half of a surrogate pair. -/
def isLow (piece : Piece) : Bool := piece.unit?.any fun unit => 0xDC00 ≤ unit && unit < 0xE000

end Piece

/-- Every surrogate among the pieces stands in a pair, the high one right before the low one. -/
inductive Paired : List Piece → Prop where
  | nil : Paired []
  | alone {piece pieces} (whole : piece.isHigh = false ∧ piece.isLow = false)
      (more : Paired pieces) : Paired (piece :: pieces)
  | pair {high low pieces} (first : high.isHigh = true) (second : low.isLow = true)
      (more : Paired pieces) : Paired (high :: low :: pieces)

/-- The pieces between quotes. -/
def quoted (pieces : List Piece) : Text := '"' :: (pieces.flatMap Piece.text ++ ['"'])

end Pieces

section Tokens

private def shortSet : CharSet :=
  ⟨[(34, 34), (47, 47), (92, 92), (98, 98), (102, 102), (110, 110), (114, 114), (116, 116)]⟩

private def hexSet : CharSet := ⟨[(48, 57), (65, 70), (97, 102)]⟩

private def ordinarySet : CharSet := ⟨[(32, 33), (35, 91), (93, 126), (128, 0x10FFFF)]⟩

private theorem contains_shortSet {c : Char} : shortSet.contains c = true ↔ c ∈ shortLetters := by
  simp only [shortSet, shortLetters, CharSet.contains, CharSet.within, Bool.or_eq_true,
    Bool.and_eq_true, decide_eq_true_eq, Bool.false_eq_true, or_false, List.mem_cons,
    List.not_mem_nil, ← Char.toNat_inj, Char.reduceToNat]
  omega

private theorem contains_hexSet {c : Char} :
    hexSet.contains c = true ↔ CharClass.isAsciiHexDigit c = true := by
  simp only [hexSet, CharSet.contains, CharSet.within, Bool.or_eq_true, Bool.and_eq_true,
    decide_eq_true_eq, Bool.false_eq_true, or_false, CharClass.isAsciiHexDigit,
    CharClass.isAsciiDigit, Char.le_def, UInt32.le_iff_toNat_le, Char.toNat_val, Char.reduceToNat]
  omega

private theorem contains_ordinarySet {c : Char} :
    ordinarySet.contains c = true ↔ isOrdinary c = true := by
  have valid : c.toNat < 0xD800 ∨ 0xDFFF < c.toNat ∧ c.toNat < 0x110000 := c.valid
  simp only [ordinarySet, isOrdinary, CharSet.contains, CharSet.within, Bool.or_eq_true,
    Bool.and_eq_true, decide_eq_true_eq, Bool.false_eq_true, or_false, bne_iff_ne, ne_eq,
    ← Char.toNat_inj, Char.reduceToNat]
  omega

/-- What takes one piece. -/
private def pieceRegex : Regex :=
  .alt (.seq (.literal ['\\']) (.alt (.chars shortSet)
      (.seq (.literal ['u']) (.repetition 4 (some 4) true (.chars hexSet)))))
    (.chars ordinarySet)

private theorem string_regex : stringPattern.regex = .seq (.look .textStart)
    (.seq (.literal ['"']) (.seq (.repetition 0 none true pieceRegex) (.literal ['"']))) := by
  decide +kernel

/-- No string token has U+007F. -/
theorem delete_not_mem_string {raw : Text} (whole : stringPattern.Whole raw) : '\x7f' ∉ raw := by
  have spells := Pattern.spells_of_whole whole
  rw [string_regex] at spells
  exact spells.not_mem (by decide)

private theorem spells_piece (piece : Piece) : pieceRegex.Spells piece.text := by
  cases piece with
  | plain c ordinary => exact .other (.chars (contains_ordinarySet.mpr ordinary))
  | short letter known =>
    exact .preferred (@Regex.Spells.seq _ _ ['\\'] [letter] .literal
      (.preferred (.chars (contains_shortSet.mpr known))))
  | unit first second third fourth hex =>
    have inside : ∀ c ∈ [first, second, third, fourth], hexSet.contains c = true :=
      fun c member => contains_hexSet.mpr (List.all_eq_true.mp hex c member)
    have digits : Regex.Spells (.repetition 4 (some 4) true (.chars hexSet))
        [[first], [second], [third], [fourth]].flatten := by
      refine .repetition (Nat.le_refl _) (fun _ same => by cases same; exact Nat.le_refl _) ?_
      simpa [Regex.Spells.chars] using fun c member => Regex.Spells.chars (inside c member)
    exact .preferred (@Regex.Spells.seq _ _ ['\\'] _ .literal
      (.other (@Regex.Spells.seq _ _ ['u'] _ .literal digits)))

private theorem piece_of_spells {word : Text} (spells : pieceRegex.Spells word) :
    ∃ piece : Piece, piece.text = word := by
  cases spells with
  | preferred inner =>
    cases inner with
    | seq front back =>
      cases front
      cases back with
      | preferred inner =>
        cases inner with
        | chars belongs => exact ⟨.short _ (contains_shortSet.mp belongs), rfl⟩
      | other inner =>
        cases inner with
        | @seq _ _ _ digits front back =>
          cases front
          have inside := back.contains_of_run
          obtain ⟨enough, bounded⟩ := back.length_of_run
          match digits, inside, enough, bounded with
          | [first, second, third, fourth], inside, _, _ =>
            refine ⟨.unit first second third fourth (List.all_eq_true.mpr fun c member => ?_), rfl⟩
            exact contains_hexSet.mp (inside c member)
  | other inner =>
    cases inner with
    | chars belongs => exact ⟨.plain _ (contains_ordinarySet.mp belongs), rfl⟩

private theorem pieces_of_words {words : List Text}
    (rounds : ∀ word ∈ words, ∃ piece : Piece, piece.text = word) :
    ∃ each : List Piece, words = each.map Piece.text := by
  induction words with
  | nil => exact ⟨[], rfl⟩
  | cons word words ih =>
    obtain ⟨⟨piece, rfl⟩, others⟩ := List.forall_mem_cons.mp rounds
    obtain ⟨each, rfl⟩ := ih others
    exact ⟨piece :: each, rfl⟩

/-- What takes words of an expression between quotes at the start of a text. -/
private def quotedRegex (body : Regex) : Regex :=
  .seq (.look .textStart)
    (.seq (.literal ['"']) (.seq (.repetition 0 none true body) (.literal ['"'])))

/-- If the words of an expression are pieces, its words between quotes are pieces between quotes. -/
private theorem spells_quotedRegex_iff {body : Regex}
    (each : ∀ word, body.Spells word ↔ ∃ piece : Piece, piece.text = word) {raw : Text} :
    (quotedRegex body).Spells raw ↔ ∃ pieces, raw = quoted pieces := by
  constructor
  · intro spells
    cases spells with
    | seq front back =>
      cases front
      cases back with
      | seq front back =>
        cases front
        cases back with
        | seq front back =>
          cases back
          cases front with
          | repetition enough bounded rounds =>
            obtain ⟨pieces, rfl⟩ := pieces_of_words fun word member =>
              (each word).mp (rounds word member)
            exact ⟨pieces, by simp [quoted, List.flatMap_def]⟩
  · rintro ⟨pieces, rfl⟩
    have rounds : Regex.Spells (.repetition 0 none true body)
        (pieces.map Piece.text).flatten := by
      refine .repetition (Nat.zero_le _) nofun fun word member => ?_
      obtain ⟨piece, -, same⟩ := List.mem_map.mp member
      exact (each word).mpr ⟨piece, same⟩
    rw [quoted, List.flatMap_def]
    exact .seq .look (@Regex.Spells.seq _ _ ['"'] _ .literal (.seq rounds .literal))

/-- The words of the pattern of string tokens are pieces between quotes. -/
theorem stringPattern_spells_iff {raw : Text} :
    stringPattern.regex.Spells raw ↔ ∃ pieces, raw = quoted pieces := by
  rw [string_regex]
  exact spells_quotedRegex_iff fun word =>
    ⟨piece_of_spells, fun ⟨piece, same⟩ => same ▸ spells_piece piece⟩

/-- String tokens are pieces between quotes. -/
theorem stringPattern_whole_iff {raw : Text} :
    stringPattern.Whole raw ↔ ∃ pieces, raw = quoted pieces := by
  rw [Pattern.whole_iff_spells stringPattern_steady, stringPattern_spells_iff]

theorem stringPattern_steady_all : stringPattern.steady [.all] = true :=
  Pattern.steady_of_shape string_regex rfl rfl

/-- The source of the pattern of string tokens among the standard rules, which tries the characters
that stand for themselves before the escapes. -/
def standardSource : String :=
  "\"(?:[^\"\\\\\\x00-\\x1F\\x7F]|\\\\(?:[\"\\\\/bfnrt]|u[0-9a-fA-F]\x7b4\x7d))*\""

private theorem wellFormed_standard : (Pattern.ofSource? standardSource).isSome = true := by
  decide +kernel

/-- The pattern of string tokens among the standard rules. -/
def standardPattern : Pattern := .of standardSource wellFormed_standard

theorem standard_declared :
    Lexicon.standard.find? "jsonString" = some (.pattern standardPattern) :=
  (Table.find?_ofList _ _).trans rfl

/-- What takes one escape. -/
private def escapeRegex : Regex :=
  .seq (.literal ['\\']) (.alt (.chars shortSet)
    (.seq (.literal ['u']) (.repetition 4 (some 4) true (.chars hexSet))))

private theorem standard_regex :
    standardPattern.regex = quotedRegex (.alt (.chars ordinarySet) escapeRegex) := by
  decide +kernel

/-- The words of the standard pattern are pieces between quotes too. -/
theorem standardPattern_spells_iff {raw : Text} :
    standardPattern.regex.Spells raw ↔ ∃ pieces, raw = quoted pieces := by
  rw [standard_regex]
  refine spells_quotedRegex_iff fun word => ?_
  constructor
  · intro spells
    cases spells with
    | preferred inner => exact piece_of_spells (.other inner)
    | other inner => exact piece_of_spells (.preferred inner)
  · rintro ⟨piece, rfl⟩
    cases spells_piece piece with
    | preferred inner => exact .other inner
    | other inner => exact .preferred inner

theorem standardPattern_steady_all : standardPattern.steady [.all] = true :=
  Pattern.steady_of_shape standard_regex rfl rfl

end Tokens

section Units

private theorem digit?_eq_some {c : Char} (hex : CharClass.isAsciiHexDigit c = true) :
    ∃ digit, Numeral.digit? 16 c = some digit ∧ digit < 16 := by
  simp only [CharClass.isAsciiHexDigit, CharClass.isAsciiDigit, Bool.or_eq_true,
    Bool.and_eq_true, decide_eq_true_eq, Char.le_def, UInt32.le_iff_toNat_le, Char.toNat_val,
    Char.reduceToNat] at hex
  simp only [Numeral.digit?, CharClass.isAsciiDigit, Bool.and_eq_true, decide_eq_true_eq,
    Char.le_def, UInt32.le_iff_toNat_le, Char.toNat_val, Char.reduceToNat,
    Option.filter_eq_some_iff]
  split_ifs <;> simp <;> omega

/-- Hexadecimal digits are read on top of a value if there is room for as many. -/
private theorem readDigits_eq_ok {bound value : Nat} {digits : Text}
    (hex : digits.all CharClass.isAsciiHexDigit = true)
    (room : (value + 1) * 16 ^ digits.length ≤ bound) :
    ∃ result, Numeral.readDigits 16 bound value digits = .ok result := by
  induction digits generalizing value with
  | nil => exact ⟨value, rfl⟩
  | cons c digits ih =>
    obtain ⟨here, others⟩ := Bool.and_eq_true_iff.mp hex
    obtain ⟨digit, known, small⟩ := digit?_eq_some here
    have room' : (value * 16 + digit + 1) * 16 ^ digits.length ≤ bound := by
      refine le_trans ?_ room
      rw [List.length_cons, Nat.pow_succ', ← Nat.mul_assoc]
      exact Nat.mul_le_mul_right _ (by omega)
    have below : value * 16 + digit < bound := by
      have positive : 0 < 16 ^ digits.length := Nat.pow_pos (by decide)
      exact lt_of_lt_of_le (Nat.lt_succ_self _) (le_trans (Nat.le_mul_of_pos_right _ positive) room')
    rw [Numeral.readDigits, known]
    simp only [if_pos below]
    exact ih others room'

/-- Four hexadecimal digits are a code unit. -/
private theorem codeUnit?_eq_some {digits : Text} (four : digits.length = 4)
    (hex : digits.all CharClass.isAsciiHexDigit = true) :
    ∃ unit, codeUnit? digits = some unit ∧ unit < 0x10000 := by
  obtain ⟨unit, read⟩ := @readDigits_eq_ok 0x10000 0 digits hex (by simp [four])
  refine ⟨unit, ?_, Numeral.readDigits_lt (by decide) read⟩
  rw [codeUnit?, if_pos hex]
  match digits with
  | c :: next :: digits =>
    have unsigned : c ≠ '+' := by
      rintro rfl
      exact absurd (Bool.and_eq_true_iff.mp hex).1 (by decide)
    simp [Numeral.read, unsigned, read, Except.toOption]

/-- The code units that are no characters are the surrogates. -/
private theorem scalar?_of_below {unit : Nat} (below : unit < 0x10000) :
    (scalar? unit = none ∧ 0xD800 ≤ unit ∧ unit < 0xE000) ∨
      ((∃ c, scalar? unit = some c) ∧ (unit < 0xD800 ∨ 0xE000 ≤ unit)) := by
  rw [scalar?]
  split
  · rename_i valid
    simp only [Nat.isValidChar] at valid
    exact .inr ⟨⟨_, rfl⟩, by omega⟩
  · rename_i invalid
    simp only [Nat.isValidChar] at invalid
    exact .inl ⟨rfl, by omega⟩

/-- A high surrogate and a low one are a character. -/
private theorem surrogates?_eq_some {high low : Nat} (first : 0xD800 ≤ high ∧ high < 0xDC00)
    (second : 0xDC00 ≤ low ∧ low < 0xE000) : ∃ c, surrogates? high low = some c := by
  have valid : (0x10000 + (high - 0xD800) * 0x400 + (low - 0xDC00)).isValidChar := by
    simp only [Nat.isValidChar]
    omega
  exact ⟨_, by rw [surrogates?, if_pos ⟨first.1, first.2, second.1, second.2⟩, scalar?, if_pos valid]⟩

private theorem halves_of_surrogates? {high low : Nat} {c : Char}
    (done : surrogates? high low = some c) :
    (0xD800 ≤ high ∧ high < 0xDC00) ∧ 0xDC00 ≤ low ∧ low < 0xE000 := by
  rw [surrogates?] at done
  split at done
  · omega
  · cases done

end Units

section Reading

/-- What is read at a code unit: a character, or a pair of surrogates. -/
theorem readBody?_unit (first second third fourth : Char) (rest : Text) :
    readBody? ('\\' :: 'u' :: first :: second :: third :: fourth :: rest) =
      (codeUnit? [first, second, third, fourth]).bind fun unit => match scalar? unit with
        | some c => (readBody? rest).map fun (text, after) => (c :: text, after)
        | none =>
            match rest with
            | '\\' :: 'u' :: first :: second :: third :: fourth :: rest => do
                let low ← codeUnit? [first, second, third, fourth]
                let c ← surrogates? unit low
                (readBody? rest).map fun (text, after) => (c :: text, after)
            | _ => none := by
  rw [readBody?.eq_def]
  rfl

theorem readBody?_plain {c : Char} (ordinary : c ≠ '"' ∧ c ≠ '\\' ∧ 0x20 ≤ c.toNat) (rest : Text) :
    readBody? (c :: rest) = (readBody? rest).map fun (text, after) => (c :: text, after) := by
  rw [readBody?]
  · simp [ordinary.2.1, Nat.not_lt.mpr ordinary.2.2]
  · simp [ordinary.1]
  · simp [ordinary.2.1]
  · simp [ordinary.2.1]

theorem readBody?_short {letter c : Char} (known : shortEscape? letter = some c) (rest : Text) :
    readBody? ('\\' :: letter :: rest) =
      (readBody? rest).map fun (text, after) => (c :: text, after) := by
  have other : letter ≠ 'u' := by
    rintro rfl
    cases known
  rw [readBody?]
  · rw [known]
    rfl
  · simp [other]

/-- A piece that is no surrogate stands for a character of its own. -/
private theorem readBody?_alone {piece : Piece}
    (whole : piece.isHigh = false ∧ piece.isLow = false) :
    ∃ c, ∀ rest, readBody? (piece.text ++ rest) =
      (readBody? rest).map fun (text, after) => (c :: text, after) := by
  cases piece with
  | plain c ordinary =>
    simp only [isOrdinary, Bool.and_eq_true, bne_iff_ne, ne_eq, decide_eq_true_eq] at ordinary
    exact ⟨c, readBody?_plain ⟨ordinary.1.1.1, ordinary.1.1.2, ordinary.1.2⟩⟩
  | short letter known =>
    obtain ⟨c, escape⟩ : ∃ c, shortEscape? letter = some c := by
      simp only [shortLetters, List.mem_cons, List.not_mem_nil, or_false] at known
      rcases known with rfl | rfl | rfl | rfl | rfl | rfl | rfl | rfl <;> exact ⟨_, rfl⟩
    exact ⟨c, readBody?_short escape⟩
  | unit first second third fourth hex =>
    obtain ⟨unit, known, below⟩ := codeUnit?_eq_some rfl hex
    simp only [Piece.isHigh, Piece.isLow, Piece.unit?, known, Option.any_some,
      Bool.and_eq_false_iff, decide_eq_false_iff_not] at whole
    rcases scalar?_of_below below with ⟨-, surrogate⟩ | ⟨⟨c, character⟩, -⟩
    · omega
    · refine ⟨c, fun rest => ?_⟩
      rw [Piece.text, List.cons_append, List.cons_append, List.cons_append, List.cons_append,
        List.cons_append, List.cons_append, List.nil_append, readBody?_unit, known]
      simp only [Option.bind_some, character]

/-- A half of a pair is a code unit. -/
private theorem unit_of_surrogate {piece : Piece}
    (surrogate : piece.isHigh = true ∨ piece.isLow = true) :
    ∃ first second third fourth unit, codeUnit? [first, second, third, fourth] = some unit ∧
      scalar? unit = none ∧ piece.text = ['\\', 'u', first, second, third, fourth] ∧
      piece.unit? = some unit := by
  cases piece with
  | plain c ordinary => simp [Piece.isHigh, Piece.isLow, Piece.unit?] at surrogate
  | short letter known => simp [Piece.isHigh, Piece.isLow, Piece.unit?] at surrogate
  | unit first second third fourth hex =>
    obtain ⟨unit, known, below⟩ := codeUnit?_eq_some rfl hex
    simp only [Piece.isHigh, Piece.isLow, Piece.unit?, known, Option.any_some,
      Bool.and_eq_true, decide_eq_true_eq] at surrogate
    rcases scalar?_of_below below with ⟨none, -⟩ | ⟨-, character⟩
    · exact ⟨first, second, third, fourth, unit, known, none, rfl, known⟩
    · omega

/-- A pair of surrogates stands for one character. -/
private theorem readBody?_pair {high low : Piece} (first : high.isHigh = true)
    (second : low.isLow = true) :
    ∃ c, ∀ rest, readBody? (high.text ++ (low.text ++ rest)) =
      (readBody? rest).map fun (text, after) => (c :: text, after) := by
  obtain ⟨a, b, c, d, unit, known, none, text, same⟩ := unit_of_surrogate (.inl first)
  obtain ⟨a', b', c', d', unit', known', -, text', same'⟩ := unit_of_surrogate (.inr second)
  simp only [Piece.isHigh, same, Option.any_some, Bool.and_eq_true, decide_eq_true_eq] at first
  simp only [Piece.isLow, same', Option.any_some, Bool.and_eq_true, decide_eq_true_eq] at second
  obtain ⟨character, both⟩ := surrogates?_eq_some first second
  refine ⟨character, fun rest => ?_⟩
  simp only [text, text', List.cons_append, List.nil_append, readBody?_unit, known,
    Option.bind_some, none, known', both, Option.bind_eq_bind]

/-- A surrogate is read only together with its partner. -/
private theorem partner_of_readBody? {piece : Piece} {pieces : List Piece} {rest : Text}
    {result : Text × Text} (surrogate : piece.isHigh = true ∨ piece.isLow = true)
    (done : readBody? (piece.text ++ (pieces.flatMap Piece.text ++ '"' :: rest)) = some result) :
    piece.isHigh = true ∧ ∃ low others, pieces = low :: others ∧ low.isLow = true := by
  obtain ⟨a, b, c, d, unit, known, none, text, same⟩ := unit_of_surrogate surrogate
  simp only [text, List.cons_append, List.nil_append, readBody?_unit, known, Option.bind_some,
    none] at done
  cases pieces with
  | nil => simp at done
  | cons low others =>
    cases low with
    | plain c ordinary =>
      have solid : c ≠ '\\' := by
        simp only [isOrdinary, Bool.and_eq_true, bne_iff_ne, ne_eq] at ordinary
        exact ordinary.1.1.2
      simp [Piece.text, solid] at done
    | short letter known =>
      have other : letter ≠ 'u' := by
        rintro rfl
        simp [shortLetters] at known
      simp [Piece.text, other] at done
    | unit a' b' c' d' hex =>
      obtain ⟨unit', known', -⟩ := codeUnit?_eq_some rfl hex
      simp only [List.flatMap_cons, Piece.text, List.cons_append, List.nil_append, known',
        Option.bind_eq_bind, Option.bind_some] at done
      cases both : surrogates? unit unit' with
      | none =>
        rw [both] at done
        cases done
      | some character =>
        obtain ⟨first, second⟩ := halves_of_surrogates? both
        refine ⟨?_, _, _, rfl, ?_⟩
        · simp [Piece.isHigh, same, first]
        · simp [Piece.isLow, Piece.unit?, known', second]

/-- Pieces that are paired are read up to the closing quote. -/
private theorem readBody?_of_paired {pieces : List Piece} (paired : Paired pieces) (rest : Text) :
    ∃ text, readBody? (pieces.flatMap Piece.text ++ '"' :: rest) = some (text, rest) := by
  induction paired with
  | nil => exact ⟨[], by rw [List.flatMap_nil, List.nil_append, readBody?]⟩
  | alone whole more ih =>
    obtain ⟨text, read⟩ := ih
    obtain ⟨c, step⟩ := readBody?_alone whole
    exact ⟨c :: text, by rw [List.flatMap_cons, List.append_assoc, step, read]; rfl⟩
  | pair first second more ih =>
    obtain ⟨text, read⟩ := ih
    obtain ⟨c, step⟩ := readBody?_pair first second
    refine ⟨c :: text, ?_⟩
    rw [List.flatMap_cons, List.flatMap_cons, List.append_assoc, List.append_assoc, step, read]
    rfl

/-- Pieces that are read are paired. -/
private theorem paired_of_readBody? : ∀ (pieces : List Piece) (rest : Text) (result : Text × Text),
    readBody? (pieces.flatMap Piece.text ++ '"' :: rest) = some result → Paired pieces
  | [], _, _, _ => .nil
  | piece :: pieces, rest, result, done => by
      rw [List.flatMap_cons, List.append_assoc] at done
      by_cases surrogate : piece.isHigh = true ∨ piece.isLow = true
      -- a surrogate is read with the piece after it, so that two pieces are settled at once
      · obtain ⟨first, low, others, rfl, second⟩ := partner_of_readBody? surrogate done
        obtain ⟨c, step⟩ := readBody?_pair first second
        rw [List.flatMap_cons, List.append_assoc, step] at done
        obtain ⟨inner, read, -⟩ := Option.map_eq_some_iff.mp done
        exact .pair first second (paired_of_readBody? others rest inner read)
      · have whole : piece.isHigh = false ∧ piece.isLow = false := by simpa using surrogate
        obtain ⟨c, step⟩ := readBody?_alone whole
        rw [step] at done
        obtain ⟨inner, read, -⟩ := Option.map_eq_some_iff.mp done
        exact .alone whole (paired_of_readBody? pieces rest inner read)

/-- After the first quote, what is read is a body with blanks only after it. -/
theorem readString?_quote (body : Text) :
    readString? ('"' :: body) = (readBody? body).bind fun (text, rest) =>
      if rest.all isBlank then some (String.ofList text) else none := by
  have solid : ¬ isBlank '"' = true := by decide
  rw [readString?, List.dropWhile_cons_of_neg solid]
  rfl

/-- A string token is read exactly if its surrogates stand in pairs. -/
theorem readString?_eq_none_iff {pieces : List Piece} :
    readString? (quoted pieces) = none ↔ ¬ Paired pieces := by
  rw [quoted, readString?_quote]
  constructor
  · intro none paired
    obtain ⟨text, read⟩ := readBody?_of_paired paired []
    rw [read] at none
    cases none
  · intro unpaired
    cases read : readBody? (pieces.flatMap Piece.text ++ ['"']) with
    | none => rfl
    | some result => exact absurd (paired_of_readBody? pieces [] result read) unpaired

end Reading

end Packrat.Json
