import Packrat.Lexicon.Rule
import Packrat.Proofs.Text.Encoding
import Mathlib.Data.List.Forall2

/-! # Literals without regard to case

A literal that is compared without regard to case takes as many characters as it has, each alike to
its own, whatever their numbers of bytes are (`matchLength?_caseless_iff`). Being alike goes both
ways, so two texts take each other as a whole or not at all.
-/

namespace Packrat.LexRule

variable {literal text front : Text} {length : Nat}

theorem alike_iff {c d : Char} :
    alike c d = true ↔ c = d ∨ CharClass.lowercase c = CharClass.lowercase d := by
  rw [alike, Bool.or_eq_true, decide_eq_true_eq, decide_eq_true_eq]

theorem alike_comm (c d : Char) : alike c d = alike d c := by
  rw [Bool.eq_iff_iff, alike_iff, alike_iff, eq_comm, @eq_comm _ (CharClass.lowercase c)]

/-- A text begins with characters that are alike to those of a literal, one by one. -/
theorem beginsAlike_iff : beginsAlike literal text = true ↔
    ∃ front back, text = front ++ back ∧ List.Forall₂ (alike · ·) literal front := by
  induction literal generalizing text with
  | nil => exact ⟨fun _ => ⟨[], text, rfl, .nil⟩, fun _ => rfl⟩
  | cons expected literal ih =>
    cases text with
    | nil =>
      refine ⟨nofun, ?_⟩
      rintro ⟨front, back, same, each⟩
      cases each
      cases same
    | cons actual text =>
      rw [beginsAlike, Bool.and_eq_true, ih]
      constructor
      · rintro ⟨here, front, back, rfl, each⟩
        exact ⟨actual :: front, back, rfl, .cons here each⟩
      · rintro ⟨front, back, same, each⟩
        cases each with
        | cons here each =>
          obtain ⟨rfl, rfl⟩ := List.cons.inj same
          exact ⟨here, _, back, rfl, each⟩

/-- A literal takes the characters that are alike to its own. -/
theorem matchLength?_caseless_iff : (LexRule.literal literal).matchLength? true text = some length ↔
    ∃ front back, text = front ++ back ∧ Text.byteLength front = length ∧
      List.Forall₂ (alike · ·) literal front := by
  have begins := @beginsAlike_iff literal text
  rw [matchLength?, matchCount?, if_pos rfl]
  split
  · rename_i taken
    obtain ⟨front, back, rfl, each⟩ := begins.mp taken
    rw [Option.map_some, each.length_eq, List.take_left, Option.some.injEq]
    constructor
    · rintro rfl
      exact ⟨front, back, rfl, rfl, each⟩
    · rintro ⟨front', back', same, rfl, each'⟩
      rw [List.append_inj_left same (each.length_eq.symm.trans each'.length_eq)]
  · rename_i other
    refine ⟨nofun, ?_⟩
    rintro ⟨front, back, same, -, each⟩
    exact absurd (begins.mpr ⟨front, back, same, each⟩) other

-- the expansion of one character is not compared with two of the text
example : (LexRule.literal ['İ']).matchLength? true ['i', '\u0307'] = none := rfl

/-- The characters taken are all of those up to a boundary. -/
theorem isBoundary_of_matchLength? {rule : LexRule} {caseless : Bool}
    (taken : rule.matchLength? caseless text = some length) : text.IsBoundary length := by
  obtain ⟨count, -, rfl⟩ := Option.map_eq_some_iff.mp taken
  exact (Text.isBoundary_iff _ _).mpr ⟨count, rfl⟩

/-- A literal takes its own characters also where case is not regarded. -/
theorem matchLength?_caseless_of_exact
    (taken : (LexRule.literal literal).matchLength? false text = some length) :
    (LexRule.literal literal).matchLength? true text = some length := by
  obtain ⟨count, counted, rfl⟩ := Option.map_eq_some_iff.mp taken
  rw [matchCount?, if_neg Bool.false_ne_true] at counted
  split at counted
  · rename_i begins
    have same : beginsAlike literal text = true :=
      beginsAlike_of_prefix (List.isPrefixOf_iff_prefix.mp begins)
    rw [matchLength?, matchCount?, if_pos rfl, if_pos same, counted]
    rfl
  · cases counted

/-- A text that is taken as a whole takes the literal as a whole. -/
theorem matchLength?_caseless_symm
    (taken : (LexRule.literal literal).matchLength? true text = some text.byteLength) :
    (LexRule.literal text).matchLength? true literal = some literal.byteLength := by
  obtain ⟨front, back, rfl, long, each⟩ := matchLength?_caseless_iff.mp taken
  obtain rfl : back = [] := by
    have short := Text.length_le_byteLength back
    rw [Text.byteLength_append] at long
    exact List.eq_nil_of_length_eq_zero (by omega)
  refine matchLength?_caseless_iff.mpr ⟨literal, [], (List.append_nil _).symm, rfl, ?_⟩
  rw [List.append_nil]
  exact each.flip.imp fun c d same => (alike_comm c d).trans same

/-- Without regard to case, a literal takes from the front of a text as many characters as it has,
each equal to its own or with the same lower-case expansion, and stops at a boundary. Whatever it
takes with regard to case it takes without, and it takes all of a text exactly if the text takes all
of it. -/
theorem caseless_literal (literal text : Text) :
    (∀ length, (LexRule.literal literal).matchLength? true text = some length ↔
      ∃ front back, text = front ++ back ∧ Text.byteLength front = length ∧
        front.length = literal.length ∧
        List.Forall₂ (fun expected actual => expected = actual ∨
          CharClass.lowercase expected = CharClass.lowercase actual) literal front) ∧
    (∀ length, (LexRule.literal literal).matchLength? true text = some length →
      text.isCharBoundary length = true) ∧
    (∀ length, (LexRule.literal literal).matchLength? false text = some length →
      (LexRule.literal literal).matchLength? true text = some length) ∧
    ((LexRule.literal literal).matchLength? true text = some text.byteLength ↔
      (LexRule.literal text).matchLength? true literal = some literal.byteLength) := by
  refine ⟨fun length => ?_, fun length taken => ?_, fun length => matchLength?_caseless_of_exact,
    matchLength?_caseless_symm, matchLength?_caseless_symm⟩
  · rw [matchLength?_caseless_iff]
    simp only [alike_iff]
    constructor
    · rintro ⟨front, back, same, long, each⟩
      exact ⟨front, back, same, long, each.length_eq.symm, each⟩
    · rintro ⟨front, back, same, long, -, each⟩
      exact ⟨front, back, same, long, each⟩
  · exact Text.isCharBoundary_iff.mpr (isBoundary_of_matchLength? taken)

/-- A letter of one byte takes the sign of three bytes that differs from it in case only. -/
theorem caseless_literal_kelvin :
    (LexRule.literal ['k', '!']).matchLength? true ['\u212A', '!', '.'] = some 4 ∧
      Text.isCharBoundary ['\u212A', '!', '.'] 4 = true ∧
      (LexRule.literal ['k']).matchLength? false ['k', '.'] = some 1 ∧
      (LexRule.literal ['k']).matchLength? true ['k', '.'] = some 1 := by
  obtain ⟨-, boundary, -⟩ := caseless_literal ['k', '!'] ['\u212A', '!', '.']
  obtain ⟨-, -, exact, -⟩ := caseless_literal ['k'] ['k', '.']
  have taken : (LexRule.literal ['k', '!']).matchLength? true ['\u212A', '!', '.'] = some 4 := by
    rfl
  have taken' : (LexRule.literal ['k']).matchLength? false ['k', '.'] = some 1 := by decide
  exact ⟨taken, boundary 4 taken, taken', exact 1 taken'⟩

end Packrat.LexRule
