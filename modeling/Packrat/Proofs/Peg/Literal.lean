import Packrat.Proofs.Peg.Written

/-! # Names and literals

A written name and a written literal are words of the patterns of their tokens, and what stands
between the marks of a literal reads back as the text of the literal.
-/

namespace Packrat.Notation.Peg

/-- The pattern of names. -/
def identifierPattern : Pattern := .of "[A-Za-z_][A-Za-z0-9_]*" Pattern.wellFormed_identifier

/-- The pattern of literals. -/
def literalPattern : Pattern :=
  .of "\"(?:[^\"\\\\]|\\\\.)*\"|'(?:[^'\\\\]|\\\\.)*'" wellFormed_literal

section Names

/-- The characters with which a name begins. -/
def nameStarts : CharSet := ⟨[(65, 90), (95, 95), (97, 122)]⟩

private def nameChars : CharSet := ⟨[(48, 57), (65, 90), (95, 95), (97, 122)]⟩

private theorem identifier_regex : identifierPattern.regex =
    .seq (.look .textStart) (.seq (.chars nameStarts)
      (.repetition 0 none true (.chars nameChars))) := by decide +kernel

private theorem toNat_le_iff {c d : Char} : c ≤ d ↔ c.toNat ≤ d.toNat := by
  rw [Char.le_def, UInt32.le_iff_toNat_le]
  rfl

theorem contains_nameStarts {c : Char} (start : isNameStart c = true) :
    nameStarts.contains c = true := by
  have underscore : c = '_' ↔ c.toNat = 95 :=
    ⟨fun same => same ▸ rfl, fun same => Char.toNat_inj.mp same⟩
  simp only [isNameStart, CharClass.isAsciiUpper, CharClass.isAsciiLower, Bool.or_eq_true,
    Bool.and_eq_true, decide_eq_true_eq, toNat_le_iff, underscore] at start
  simp only [nameStarts, CharSet.contains, CharSet.within, Bool.and_eq_true, Bool.or_eq_true,
    decide_eq_true_eq, Bool.false_eq_true, or_false]
  simp only [Char.reduceToNat] at start
  omega

private theorem contains_nameChars {c : Char}
    (member : (isNameStart c || CharClass.isAsciiDigit c) = true) :
    nameChars.contains c = true := by
  have underscore : c = '_' ↔ c.toNat = 95 :=
    ⟨fun same => same ▸ rfl, fun same => Char.toNat_inj.mp same⟩
  simp only [isNameStart, CharClass.isAsciiUpper, CharClass.isAsciiLower, CharClass.isAsciiDigit,
    Bool.or_eq_true, Bool.and_eq_true, decide_eq_true_eq, toNat_le_iff, underscore] at member
  simp only [nameChars, CharSet.contains, CharSet.within, Bool.and_eq_true, Bool.or_eq_true,
    decide_eq_true_eq, Bool.false_eq_true, or_false]
  simp only [Char.reduceToNat] at member
  omega

/-- Every name is a word of the pattern of names. -/
theorem Name.spells (name : Name) : identifierPattern.regex.Spells name.1 := by
  obtain ⟨text, named⟩ := name
  cases text with
  | nil => cases named
  | cons c rest =>
    obtain ⟨start, others⟩ := Bool.and_eq_true_iff.mp named
    have rounds : Regex.Spells (.repetition 0 none true (.chars nameChars)) rest :=
      .run (fun d member => contains_nameChars (List.all_eq_true.mp others d member))
        (Nat.zero_le _)
    rw [identifier_regex]
    exact .seq .look (.seq (.chars (contains_nameStarts start)) rounds)

theorem Name.eq_cons (name : Name) : ∃ c rest, name.1 = c :: rest ∧ isNameStart c = true := by
  obtain ⟨text, named⟩ := name
  cases text with
  | nil => cases named
  | cons c rest => exact ⟨c, rest, rfl, (Bool.and_eq_true_iff.mp named).1⟩

end Names

section Literals

private def unescaped (quote : Quote) : CharSet :=
  match quote with
  | .single => ⟨[(0, 38), (40, 91), (93, 0x10FFFF)]⟩
  | .double => ⟨[(0, 33), (35, 91), (93, 0x10FFFF)]⟩

private def piece (quote : Quote) : Regex :=
  .alt (.chars (unescaped quote))
    (.seq (.literal ['\\']) (.chars ⟨[(0, 9), (11, 0x10FFFF)]⟩))

private def enclosed (quote : Quote) : Regex :=
  .seq (.literal [quote.mark])
    (.seq (.repetition 0 none true (piece quote)) (.literal [quote.mark]))

private theorem literal_regex : literalPattern.regex =
    .seq (.look .textStart) (.alt (enclosed .double) (enclosed .single)) := by decide +kernel

private theorem contains_unescaped {quote : Quote} {c : Char}
    (plain : ¬ (c = '\\' || c = quote.mark) = true) : (unescaped quote).contains c = true := by
  have valid : c.toNat < 0xD800 ∨ 0xDFFF < c.toNat ∧ c.toNat < 0x110000 := c.valid
  simp only [Bool.or_eq_true, decide_eq_true_eq, not_or, ← Char.toNat_inj] at plain
  cases quote <;>
  · simp only [Quote.mark, Char.reduceToNat] at plain
    simp only [unescaped, CharSet.contains, CharSet.within, Bool.and_eq_true, Bool.or_eq_true,
      decide_eq_true_eq, Bool.false_eq_true, or_false]
    omega

/-- The pieces of an escaped text, one for every character. -/
private def pieces (quote : Quote) (text : Text) : List Text :=
  text.map fun c => quote.escape [c]

private theorem flatten_pieces (quote : Quote) (text : Text) :
    (pieces quote text).flatten = quote.escape text := by
  induction text with
  | nil => rfl
  | cons c rest ih =>
    simp only [pieces, List.map_cons, List.flatten_cons] at ih ⊢
    rw [ih]
    simp only [Quote.escape]
    split <;> rfl

private theorem spells_piece (quote : Quote) (c : Char) :
    (piece quote).Spells (quote.escape [c]) := by
  simp only [Quote.escape]
  split
  · rename_i special
    refine .other (.seq .literal (.chars ?_))
    simp only [Bool.or_eq_true, decide_eq_true_eq] at special
    rcases special with rfl | rfl
    · decide
    · cases quote <;> decide
  · rename_i plain
    exact .preferred (.chars (contains_unescaped plain))

/-- Every written literal is a word of the pattern of literals. -/
theorem Quote.spells (quote : Quote) (text : Text) :
    literalPattern.regex.Spells (quote.enclose text) := by
  have rounds : Regex.Spells (.repetition 0 none true (piece quote)) (quote.escape text) := by
    rw [← flatten_pieces]
    refine .repetition (Nat.zero_le _) nofun fun word member => ?_
    obtain ⟨c, -, rfl⟩ := List.mem_map.mp member
    exact spells_piece quote c
  have here : (enclosed quote).Spells (quote.enclose text) :=
    @Regex.Spells.seq _ _ [quote.mark] _ .literal (.seq rounds .literal)
  rw [literal_regex]
  cases quote with
  | single => exact .seq .look (.other here)
  | double => exact .seq .look (.preferred here)

theorem stripQuotes_enclose (quote : Quote) (text : Text) :
    Escape.stripQuotes (quote.enclose text) = quote.escape text := by
  rw [Escape.stripQuotes, Quote.enclose, List.tail_cons, List.dropLast_concat]

private theorem resolve_escape (quote : Quote) (language : String) (body text : Text) :
    Escape.resolve language body (quote.escape text) = .ok text := by
  induction text with
  | nil => rfl
  | cons c rest ih =>
    simp only [Quote.escape]
    split
    · rename_i special
      simp only [Bool.or_eq_true, decide_eq_true_eq] at special
      have known : Escape.short? c = some c ∧ c ≠ 'u' := by
        rcases special with rfl | rfl
        · decide
        · cases quote <;> decide
      simp [Escape.resolve, known, ih, Except.map]
    · rename_i plain
      simp only [Bool.or_eq_true, decide_eq_true_eq, not_or] at plain
      simp [Escape.resolve, plain, ih, Except.map]

/-- Reading an escaped text gives the text back. -/
theorem unescape_escape (quote : Quote) (language : String) (text : Text) :
    Escape.unescape language (quote.escape text) = .ok text :=
  resolve_escape quote language _ text

end Literals

end Packrat.Notation.Peg
