import Packrat.Proofs.Json.Strings
import Packrat.Proofs.Pattern.CodePoints
import Mathlib.Data.List.DropRight

/-! # Where string tokens end

The standard rule for string tokens and that of the JSON grammar try the pieces of a token in
different orders, but have the same words (`matchCount?_standardPattern`). A quote among the pieces
stands after an odd number of backslashes and the closing one does not (`closesAt_quoted`), so a
token ends with the first quote of the text that is not escaped.
-/

namespace Packrat.Json

/-- Whether a text ends in an odd number of backslashes, so that the last escapes what follows. -/
def Escapes (front : Text) : Prop := (front.rtakeWhile (· = '\\')).length % 2 = 1

/-- A text begins with a quote, and the next quote that is not escaped ends at the offset. -/
def ClosesAt (text : Text) (stop : Nat) : Prop :=
  ∃ body rest, text = '"' :: (body ++ '"' :: rest) ∧
    stop = Text.byteLength ('"' :: (body ++ ['"'])) ∧ ¬ Escapes body ∧
    ∀ front back, body = front ++ '"' :: back → Escapes front

section Quotes

variable {front : Text}

theorem escapes_backslash : Escapes (front ++ ['\\']) ↔ ¬ Escapes front := by
  rw [Escapes, List.rtakeWhile_concat_pos _ _ _ (by decide), List.length_append,
    List.length_singleton, Escapes]
  omega

theorem not_escapes_of_ne {c : Char} (other : c ≠ '\\') : ¬ Escapes (front ++ [c]) := by
  rw [Escapes, List.rtakeWhile_concat_neg _ _ _ (by simpa using other)]
  nofun

/-- A piece leaves nothing escaped after it, and a quote in it is escaped. -/
private theorem escapes_piece (piece : Piece) (ready : ¬ Escapes front) :
    ¬ Escapes (front ++ piece.text) ∧
      ∀ head tail, piece.text = head ++ '"' :: tail → Escapes (front ++ head) := by
  cases piece with
  | plain c ordinary =>
    simp only [isOrdinary, Bool.and_eq_true, bne_iff_ne, ne_eq] at ordinary
    refine ⟨not_escapes_of_ne ordinary.1.1.2, fun head tail same => ?_⟩
    have quote : '"' ∈ [c] := by
      rw [Piece.text] at same
      simp [same]
    exact absurd (List.mem_singleton.mp quote).symm ordinary.1.1.1
  | short letter known =>
    have escaped := escapes_backslash.mpr ready
    constructor
    · rw [Piece.text, List.append_cons]
      by_cases backslash : letter = '\\'
      · rw [backslash, escapes_backslash]
        exact not_not_intro escaped
      · exact not_escapes_of_ne backslash
    · intro head tail same
      rcases head with _ | ⟨c, _ | ⟨d, head⟩⟩
      · cases same
      · obtain ⟨rfl, -⟩ := List.cons.inj same
        exact escaped
      · simp [Piece.text] at same
  | unit first second third fourth hex =>
    have digit (c : Char) (member : c ∈ [first, second, third, fourth]) : c ≠ '\\' ∧ c ≠ '"' := by
      have known := List.all_eq_true.mp hex c member
      constructor <;> rintro rfl <;> exact absurd known (by decide)
    have last : fourth ≠ '\\' := (digit fourth (by simp)).1
    constructor
    · have split : front ++ ['\\', 'u', first, second, third, fourth] =
          front ++ ['\\', 'u', first, second, third] ++ [fourth] := by simp
      rw [Piece.text, split]
      exact not_escapes_of_ne last
    · intro head tail same
      have quote : '"' ∈ ['\\', 'u', first, second, third, fourth] := by
        rw [Piece.text] at same
        simp [same]
      rcases List.mem_cons.mp quote with backslash | quote
      · exact absurd backslash (by decide)
      rcases List.mem_cons.mp quote with letter | quote
      · exact absurd letter (by decide)
      · exact absurd rfl (digit '"' quote).2

/-- Pieces leave nothing escaped after them, and every quote in them is escaped. -/
private theorem escapes_pieces (pieces : List Piece) (ready : ¬ Escapes front) :
    ¬ Escapes (front ++ pieces.flatMap Piece.text) ∧
      ∀ head tail, pieces.flatMap Piece.text = head ++ '"' :: tail → Escapes (front ++ head) := by
  induction pieces generalizing front with
  | nil =>
    rw [List.flatMap_nil, List.append_nil]
    exact ⟨ready, fun head tail same => by simp at same⟩
  | cons piece pieces ih =>
    obtain ⟨after, here⟩ := escapes_piece piece ready
    obtain ⟨last, later⟩ := ih after
    rw [List.flatMap_cons]
    refine ⟨by rwa [← List.append_assoc], fun head tail same => ?_⟩
    -- the quote is one of the first piece or one after it
    rcases List.append_eq_append_iff.mp same with ⟨between, rfl, rest⟩ | ⟨between, text, rest⟩
    · rw [← List.append_assoc]
      exact later between tail rest
    · cases between with
      | nil =>
        rw [List.append_nil] at text
        rw [← text]
        simpa using later [] tail rest.symm
      | cons c between =>
        obtain ⟨rfl, -⟩ := List.cons.inj rest
        exact here head between text

/-- A token ends with the first quote that is not escaped. -/
theorem closesAt_quoted (pieces : List Piece) (rest : Text) :
    ClosesAt (quoted pieces ++ rest) (Text.byteLength (quoted pieces)) := by
  have ready : ¬ Escapes [] := nofun
  obtain ⟨last, inside⟩ := escapes_pieces pieces ready
  exact ⟨pieces.flatMap Piece.text, rest, by simp [quoted], rfl, last, inside⟩

/-- The end is before no other quote that is not escaped. -/
private theorem length_le_of_closed {body rest body' rest' : Text}
    (same : body ++ '"' :: rest = body' ++ '"' :: rest') (last : ¬ Escapes body)
    (inside : ∀ front back, body' = front ++ '"' :: back → Escapes front) :
    body'.length ≤ body.length := by
  by_contra longer
  rcases List.append_eq_append_iff.mp same with ⟨between, rfl, back⟩ | ⟨between, rfl, -⟩
  · cases between with
    | nil => simp at longer
    | cons c between =>
      obtain ⟨rfl, -⟩ := List.cons.inj back
      exact last (inside body between rfl)
  · simp at longer

/-- A text is closed at one offset at the most. -/
theorem ClosesAt.unique {text : Text} {first second : Nat} (closes : ClosesAt text first)
    (closes' : ClosesAt text second) : first = second := by
  obtain ⟨body, rest, rfl, rfl, last, inside⟩ := closes
  obtain ⟨body', rest', same, rfl, last', inside'⟩ := closes'
  have tails := (List.cons.inj same).2
  have long := length_le_of_closed tails last inside'
  have long' := length_le_of_closed tails.symm last' inside
  rw [List.append_inj_left tails (Nat.le_antisymm long' long)]

end Quotes

section Rules

variable {text : Text}

/-- The rule of the grammar takes pieces between quotes. -/
theorem matchCount?_stringPattern_iff {count : Nat} : stringPattern.matchCount? text = some count ↔
    ∃ pieces, quoted pieces <+: text ∧ count = (quoted pieces).length := by
  rw [Pattern.matchCount?_iff_of_steady stringPattern_steady_all]
  constructor
  · rintro ⟨word, spells, begins, rfl⟩
    obtain ⟨pieces, rfl⟩ := stringPattern_spells_iff.mp spells
    exact ⟨pieces, begins, rfl⟩
  · rintro ⟨pieces, begins, rfl⟩
    exact ⟨_, stringPattern_spells_iff.mpr ⟨pieces, rfl⟩, begins, rfl⟩

/-- The order in which the pieces are tried does not matter. -/
theorem matchCount?_standardPattern (text : Text) :
    standardPattern.matchCount? text = stringPattern.matchCount? text := by
  refine Option.ext fun count => ?_
  rw [Pattern.matchCount?_iff_of_steady standardPattern_steady_all,
    Pattern.matchCount?_iff_of_steady stringPattern_steady_all]
  simp only [standardPattern_spells_iff, stringPattern_spells_iff]

theorem matchLength?_stringPattern_iff {caseless : Bool} {length : Nat} :
    (LexRule.pattern stringPattern).matchLength? caseless text = some length ↔
      ∃ pieces rest, text = quoted pieces ++ rest ∧ length = Text.byteLength (quoted pieces) := by
  rw [LexRule.matchLength?, LexRule.matchCount?, Option.map_eq_some_iff]
  simp only [matchCount?_stringPattern_iff]
  constructor
  · rintro ⟨count, ⟨pieces, ⟨rest, rfl⟩, rfl⟩, rfl⟩
    exact ⟨pieces, rest, rfl, by rw [List.take_left]⟩
  · rintro ⟨pieces, rest, rfl, rfl⟩
    exact ⟨_, ⟨pieces, List.prefix_append .., rfl⟩, by rw [List.take_left]⟩

end Rules

/-- The standard rule for string tokens and the one that the JSON grammar declares take the same
from every text: a quote, pieces, and a quote, which is the first that is not escaped. -/
theorem string_rules_agree : ∃ standard declared : LexRule,
    Lexicon.standard.find? "jsonString" = some standard ∧
    parser.grammar.lexicon.find? "jsonString" = some declared ∧
    ∀ (caseless : Bool) (text : Text),
      standard.matchLength? caseless text = declared.matchLength? caseless text ∧
      ∀ length, (standard.matchLength? caseless text = some length ↔
          ∃ pieces rest, text = quoted pieces ++ rest ∧
            length = Text.byteLength (quoted pieces)) ∧
        (standard.matchLength? caseless text = some length ↔
          (∃ pieces, quoted pieces <+: text) ∧ ClosesAt text length) := by
  have agree (caseless : Bool) (text : Text) :
      (LexRule.pattern standardPattern).matchLength? caseless text =
        (LexRule.pattern stringPattern).matchLength? caseless text := by
    rw [LexRule.matchLength?, LexRule.matchCount?, matchCount?_standardPattern]
    rfl
  refine ⟨_, _, standard_declared, string_declared, fun caseless text => ⟨agree caseless text,
    fun length => ?_⟩⟩
  rw [agree, matchLength?_stringPattern_iff]
  refine ⟨Iff.rfl, ?_⟩
  constructor
  · rintro ⟨pieces, rest, rfl, rfl⟩
    exact ⟨⟨pieces, List.prefix_append ..⟩, closesAt_quoted pieces rest⟩
  · rintro ⟨⟨pieces, rest, rfl⟩, closes⟩
    exact ⟨pieces, rest, rfl, closes.unique (closesAt_quoted pieces rest)⟩

end Packrat.Json
