import Packrat.Proofs.Pattern.Spelling

/-! # How matches begin

`Regex.begins` lists sets of characters such that every word of an expression that is not empty
begins with a character of one of them. Two patterns whose sets have no character in common never
match at one place.
-/

namespace Packrat

namespace CharSet

/-- Whether the ranges of two sets are apart. -/
def apart (first second : CharSet) : Bool :=
  first.ranges.all fun range => second.ranges.all fun range' =>
    range.2 < range'.1 || range'.2 < range.1

theorem contains_all (c : Char) : all.contains c = true := by
  have valid : c.toNat < 0xD800 ∨ 0xDFFF < c.toNat ∧ c.toNat < 0x110000 := c.valid
  have ranges : all.ranges = [(0, 0x10FFFF)] := by decide +kernel
  simp only [contains, ranges, within, Bool.and_eq_true, Bool.or_eq_true, decide_eq_true_eq]
  omega

theorem exists_range_of_contains {set : CharSet} {c : Char} (belongs : set.contains c = true) :
    ∃ range ∈ set.ranges, range.1 ≤ c.toNat ∧ c.toNat ≤ range.2 := by
  obtain ⟨ranges⟩ := set
  simp only [contains] at belongs ⊢
  induction ranges with
  | nil => cases belongs
  | cons range more ih =>
    simp only [within, Bool.and_eq_true, Bool.or_eq_true, decide_eq_true_eq] at belongs
    rcases belongs.2 with below | further
    · exact ⟨range, List.mem_cons_self .., belongs.1, below⟩
    · obtain ⟨found, member, inside⟩ := ih further
      exact ⟨found, List.mem_cons_of_mem _ member, inside⟩

theorem not_contains_of_apart {first second : CharSet} (apart : first.apart second = true)
    {c : Char} (belongs : first.contains c = true) : ¬ second.contains c = true := by
  intro belongs'
  obtain ⟨range, member, inside⟩ := exists_range_of_contains belongs
  obtain ⟨range', member', inside'⟩ := exists_range_of_contains belongs'
  have gap := List.all_eq_true.mp (List.all_eq_true.mp apart range member) range' member'
  simp only [Bool.or_eq_true, decide_eq_true_eq] at gap
  omega

end CharSet

namespace Regex

/-- Whether an expression may take no character. -/
def nullable : Regex → Bool
  | .empty | .look _ => true
  | .literal text => text.isEmpty
  | .chars _ => false
  | .repetition min _ _ body => min = 0 || body.nullable
  | .group _ body => body.nullable
  | .seq first rest => first.nullable && rest.nullable
  | .alt preferred other => preferred.nullable || other.nullable

/-- The sets of characters with which words of an expression begin. -/
def begins : Regex → List CharSet
  | .empty | .look _ => []
  | .literal text => (text.head?.map CharSet.single).toList
  | .chars set => [set]
  | .repetition _ _ _ body => body.begins
  | .group _ body => body.begins
  | .seq first rest => first.begins ++ if first.nullable then rest.begins else []
  | .alt preferred other => preferred.begins ++ other.begins

theorem nullable_of_spells {regex : Regex} {word : Text} (spells : regex.Spells word)
    (empty : word = []) : regex.nullable = true := by
  induction spells with
  | empty | look => rfl
  | literal => simp [nullable, empty]
  | chars => cases empty
  | @repetition min max greedy body words enough bounded rounds ih =>
    cases words with
    | nil =>
      obtain rfl : min = 0 := by simpa using enough
      simp [nullable]
    | cons first words =>
      have none := List.flatten_eq_nil_iff.mp empty first (List.mem_cons_self ..)
      simp [nullable, ih first (List.mem_cons_self ..) none]
  | group _ ih => exact ih empty
  | seq _ _ ih ih' =>
    obtain ⟨front, back⟩ := List.append_eq_nil_iff.mp empty
    simp [nullable, ih front, ih' back]
  | preferred _ ih => simp [nullable, ih empty]
  | other _ ih => simp [nullable, ih empty]

/-- A word of an expression that takes characters is not empty. -/
theorem Spells.ne_nil {regex : Regex} {word : Text} (spells : regex.Spells word)
    (solid : regex.nullable = false) : word ≠ [] := by
  intro empty
  have nullable := nullable_of_spells spells empty
  rw [solid] at nullable
  cases nullable

private theorem begins_of_flatten {sets : List CharSet} {words : List Text} {c : Char}
    {rest : Text} (same : words.flatten = c :: rest)
    (each : ∀ word ∈ words, ∀ rest, word = c :: rest → ∃ set ∈ sets, set.contains c = true) :
    ∃ set ∈ sets, set.contains c = true := by
  induction words with
  | nil => cases same
  | cons word words ih =>
    cases word with
    | nil => exact ih same fun other member => each other (List.mem_cons_of_mem _ member)
    | cons d word =>
      obtain ⟨rfl, -⟩ := List.cons.inj same
      exact each _ (List.mem_cons_self ..) word rfl

/-- A word that is not empty begins with a character of one of the sets. -/
theorem begins_of_spells {regex : Regex} {word : Text} (spells : regex.Spells word) {c : Char}
    {rest : Text} (same : word = c :: rest) : ∃ set ∈ regex.begins, set.contains c = true := by
  induction spells generalizing rest with
  | empty | look => cases same
  | @literal text =>
    subst same
    exact ⟨.single c, List.mem_singleton_self _, (CharSet.contains_single c c).mpr rfl⟩
  | chars belongs =>
    cases same
    exact ⟨_, List.mem_singleton_self _, belongs⟩
  | repetition enough bounded rounds ih =>
    exact begins_of_flatten same fun word member rest same => ih word member same
  | group _ ih => exact ih same
  | @seq first second word word' front _ ih ih' =>
    cases word with
    | nil =>
      obtain ⟨set, member, belongs⟩ := ih' same
      refine ⟨set, List.mem_append_right _ ?_, belongs⟩
      rwa [if_pos (nullable_of_spells front rfl)]
    | cons d word =>
      obtain ⟨rfl, -⟩ := List.cons.inj same
      obtain ⟨set, member, belongs⟩ := ih rfl
      exact ⟨set, List.mem_append_left _ member, belongs⟩
  | preferred _ ih =>
    obtain ⟨set, member, belongs⟩ := ih same
    exact ⟨set, List.mem_append_left _ member, belongs⟩
  | other _ ih =>
    obtain ⟨set, member, belongs⟩ := ih same
    exact ⟨set, List.mem_append_right _ member, belongs⟩

end Regex

end Packrat
