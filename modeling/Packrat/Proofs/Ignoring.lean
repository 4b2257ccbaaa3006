import Packrat.Proofs.Cursor

/-! # Ignored text

What is ignored is a run of pieces. Each of them is what the first rule of the list that takes any
bytes takes where the piece before it ends, and the run goes on until no rule takes any or the text
ends. A run with that end is the only one there is (`Sheds.unique`), so skipping twice is skipping
once. Scanning begins after the run: it finds the end of the text there, or what its rule takes, or
nothing.
-/

namespace Packrat

namespace LexRule

variable {rule : LexRule} {caseless : Bool} {text : Text} {count : Nat}

/-- The rule takes no bytes from the front of a text, whether it matches there or not. -/
def Idle (rule : LexRule) (text : Text) : Prop :=
  ∀ length, rule.matchLength? false text = some length → length = 0

theorem matchLength?_of_count (found : rule.matchCount? caseless text = some count) :
    rule.matchLength? caseless text = some (Text.byteLength (text.take count)) := by
  rw [matchLength?, found, Option.map_some]

theorem matchLength?_eq_none_iff :
    rule.matchLength? caseless text = none ↔ rule.matchCount? caseless text = none :=
  Option.map_eq_none_iff

/-- A rule that counts nothing as ignored takes no bytes. -/
theorem idle_of_filter (none : (rule.matchCount? false text).filter (0 < ·) = none) :
    rule.Idle text := by
  intro length taken
  obtain ⟨count, matched, rfl⟩ := Option.map_eq_some_iff.mp taken
  have zero : count = 0 := by simpa [matched] using none
  rw [zero]
  rfl

end LexRule

/-- The first of the rules that takes any bytes from the front of a text takes so many. -/
inductive FirstTakes : List LexRule → Text → Nat → Prop where
  | here {rule : LexRule} {rules : List LexRule} {text : Text} {length : Nat}
      (taken : rule.matchLength? false text = some length) (positive : 0 < length) :
      FirstTakes (rule :: rules) text length
  | later {rule : LexRule} {rules : List LexRule} {text : Text} {length : Nat}
      (idle : rule.Idle text) (more : FirstTakes rules text length) :
      FirstTakes (rule :: rules) text length

namespace FirstTakes

variable {ignore : List LexRule} {text : Text} {length length' : Nat}

theorem positive (takes : FirstTakes ignore text length) : 0 < length := by
  induction takes with
  | here _ positive => exact positive
  | later _ _ ih => exact ih

/-- Where a rule takes bytes, not all are idle. -/
theorem not_idle (takes : FirstTakes ignore text length) :
    ¬ ∀ rule ∈ ignore, rule.Idle text := by
  intro idle
  induction takes with
  | here taken positive =>
    have zero := idle _ (List.mem_cons_self ..) _ taken
    omega
  | later _ _ ih =>
    apply ih
    intro rule member
    exact idle rule (List.mem_cons_of_mem _ member)

theorem unique (takes : FirstTakes ignore text length) (takes' : FirstTakes ignore text length') :
    length = length' := by
  induction takes with
  | here taken positive =>
    cases takes' with
    | here taken' _ => exact Option.some.inj (taken.symm.trans taken')
    | later idle _ =>
      have zero := idle _ taken
      omega
  | later idle _ ih =>
    cases takes' with
    | here taken' positive' =>
      have zero := idle _ taken'
      omega
    | later _ more' => exact ih more'

/-- What is counted at the front of a text is what the first rule takes. -/
theorem of_ignoredCount? {count : Nat} (left : text ≠ [])
    (counted : ignoredCount? ignore text = some count) :
    FirstTakes ignore text (Text.byteLength (text.take count)) := by
  induction ignore with
  | nil => cases counted
  | cons rule ignore ih =>
    unfold ignoredCount? at counted
    rw [List.findSome?_cons] at counted
    cases here : (rule.matchCount? false text).filter (0 < ·) with
    | some found =>
      rw [here] at counted
      obtain rfl : found = count := Option.some.inj counted
      obtain ⟨matched, positive⟩ := Option.filter_eq_some_iff.mp here
      apply FirstTakes.here (LexRule.matchLength?_of_count matched)
      obtain ⟨c, rest, rfl⟩ := List.exists_cons_of_ne_nil left
      obtain ⟨more, rfl⟩ : ∃ more, found = more + 1 := ⟨found - 1, by simp at positive; omega⟩
      have wide := c.utf8Size_pos
      rw [List.take_succ_cons, Text.byteLength_cons]
      omega
    | none =>
      rw [here] at counted
      exact .later (LexRule.idle_of_filter here) (ih counted)

end FirstTakes

/-- Where nothing is counted at the front of a text, every rule is idle. -/
theorem idle_of_ignoredCount? {ignore : List LexRule} {text : Text}
    (none : ignoredCount? ignore text = none) : ∀ rule ∈ ignore, rule.Idle text := by
  intro rule member
  exact LexRule.idle_of_filter (List.findSome?_eq_none_iff.mp none rule member)

/-- A text begins with pieces, each of them what the first rule that takes any bytes takes there,
and goes on with the last text. -/
inductive Sheds (ignore : List LexRule) : Text → List Text → Text → Prop where
  | done {text : Text} : Sheds ignore text [] text
  | next {piece rest last : Text} {pieces : List Text}
      (taken : FirstTakes ignore (piece ++ rest) piece.byteLength)
      (more : Sheds ignore rest pieces last) : Sheds ignore (piece ++ rest) (piece :: pieces) last

/-- Nothing is left of a text, or no rule takes any bytes from its front. -/
def NoneIgnored (ignore : List LexRule) (text : Text) : Prop :=
  text = [] ∨ ∀ rule ∈ ignore, rule.Idle text

/-- Where a piece is taken from a text, something is ignored. -/
theorem FirstTakes.not_noneIgnored {ignore : List LexRule} {piece rest : Text}
    (taken : FirstTakes ignore (piece ++ rest) piece.byteLength) :
    ¬ NoneIgnored ignore (piece ++ rest) := by
  rintro (empty | idle)
  · have positive := taken.positive
    rw [(List.append_eq_nil_iff.mp empty).1] at positive
    exact Nat.lt_irrefl 0 positive
  · exact taken.not_idle idle

namespace Sheds

variable {ignore : List LexRule} {text last last' : Text} {pieces pieces' : List Text}

theorem flatten_append (sheds : Sheds ignore text pieces last) : text = pieces.flatten ++ last := by
  induction sheds with
  | done => rfl
  | next _ _ ih => rw [List.flatten_cons, List.append_assoc, ← ih]

theorem ne_nil (sheds : Sheds ignore text pieces last) : ∀ piece ∈ pieces, piece ≠ [] := by
  induction sheds with
  | done => exact nofun
  | next taken _ ih =>
    refine List.forall_mem_cons.mpr ⟨?_, ih⟩
    rintro rfl
    exact absurd taken.positive (Nat.lt_irrefl 0)

/-- The front of a text is a piece if the first rule takes it. -/
theorem take {count : Nat} (taken : FirstTakes ignore text (Text.byteLength (text.take count)))
    (more : Sheds ignore (text.drop count) pieces last) :
    Sheds ignore text (text.take count :: pieces) last := by
  have whole := List.take_append_drop count text
  have next : Sheds ignore (text.take count ++ text.drop count) (text.take count :: pieces)
      last := by
    apply Sheds.next _ more
    rw [whole]
    exact taken
  rwa [whole] at next

/-- A run of pieces that does not go on is determined by the text. -/
theorem unique (sheds : Sheds ignore text pieces last) (none : NoneIgnored ignore last)
    (sheds' : Sheds ignore text pieces' last') (none' : NoneIgnored ignore last') :
    pieces = pieces' ∧ last = last' := by
  induction sheds generalizing pieces' with
  | done =>
    cases sheds' with
    | done => exact ⟨rfl, rfl⟩
    | next taken _ => exact absurd none taken.not_noneIgnored
  | @next piece rest last pieces taken more ih =>
    generalize same : piece ++ rest = text at sheds'
    cases sheds' with
    | done =>
      subst same
      exact absurd none' taken.not_noneIgnored
    | @next piece' rest' _ pieces' taken' more' =>
      have long : piece.byteLength = piece'.byteLength := by
        apply FirstTakes.unique taken
        rwa [same]
      obtain ⟨rfl, rfl⟩ := Text.append_inj same long
      obtain ⟨rfl, rfl⟩ := ih none more'
      exact ⟨rfl, rfl⟩

end Sheds

namespace Cursor

variable {ignore : List LexRule} {cursor : Cursor}

/-- Skipping sheds pieces up to where nothing is ignored. -/
theorem sheds_skip (cursor : Cursor) (ignore : List LexRule) :
    (∃ pieces, Sheds ignore cursor.rest pieces (cursor.skip ignore).rest) ∧
      NoneIgnored ignore (cursor.skip ignore).rest := by
  -- by induction on what is left to read, which every piece makes shorter
  induction long : cursor.rest.length using Nat.strongRecOn generalizing cursor with
  | ind length ih =>
    by_cases ended : cursor.rest = []
    · rw [skip_of_none (.inl ended)]
      exact ⟨⟨[], .done⟩, .inl ended⟩
    cases counted : ignoredCount? ignore cursor.rest with
    | none =>
      rw [skip_of_none (.inr counted)]
      exact ⟨⟨[], .done⟩, .inr (idle_of_ignoredCount? counted)⟩
    | some count =>
      have taken := FirstTakes.of_ignoredCount? ended counted
      have shorter : (cursor.forward count).rest.length < length := by
        have positive := taken.positive
        have some : cursor.rest.take count ≠ [] := by
          intro none
          rw [none] at positive
          exact Nat.lt_irrefl 0 positive
        have cut := List.length_pos_iff.mpr some
        rw [List.length_take] at cut
        rw [rest_forward, List.length_drop]
        omega
      obtain ⟨⟨pieces, sheds⟩, none⟩ := ih _ shorter (cursor.forward count) rfl
      rw [skip_forward ended counted] at sheds none
      exact ⟨⟨cursor.rest.take count :: pieces, Sheds.take taken sheds⟩, none⟩

/-- The cursor after what is ignored is the only one before which the text sheds pieces and behind
which nothing is ignored. -/
theorem skip_eq_iff {there : Cursor} :
    cursor.skip ignore = there ↔ there.text = cursor.text ∧
      (∃ pieces, Sheds ignore cursor.rest pieces there.rest) ∧ NoneIgnored ignore there.rest := by
  obtain ⟨⟨pieces, sheds⟩, none⟩ := cursor.sheds_skip ignore
  constructor
  · rintro rfl
    exact ⟨text_skip .., ⟨pieces, sheds⟩, none⟩
  · rintro ⟨same, ⟨pieces', sheds'⟩, none'⟩
    apply eq_of_rest
    · rw [text_skip, same]
    · exact (sheds.unique none sheds' none').2

/-- What was skipped is not skipped again. -/
theorem skip_skip (cursor : Cursor) (ignore : List LexRule) :
    (cursor.skip ignore).skip ignore = cursor.skip ignore := by
  obtain ⟨-, none⟩ := cursor.sheds_skip ignore
  exact skip_eq_iff.mpr ⟨rfl, ⟨[], .done⟩, none⟩

/-- So many characters further on is as far as their bytes. -/
theorem seek_byteLength_take (cursor : Cursor) (count : Nat) :
    cursor.seek (cursor.offset + Text.byteLength (cursor.rest.take count)) =
      cursor.forward count :=
  @seek_offset cursor (cursor.forward count) (text_forward ..).symm

/-- Where nothing is ignored, scanning finds the end of the text exactly if the text ends there, or
else what the rule takes up to the place after it, or nothing. -/
theorem scan_of_skip {here : Cursor} (still : here.skip ignore = here) (name : String)
    (rule : LexRule) (caseless : Bool) :
    let found := here.scan ignore name rule caseless
    if here.offset = here.text.byteLength then found = (.eof here.offset, here)
    else
      match rule.matchLength? caseless here.rest with
      | some length =>
          found.1.kind = .rule name ∧ found.1.start = here.offset ∧
            found.1.stop = here.offset + length ∧ found.1.text <+: here.rest ∧
            found.2 = here.seek (here.offset + length) ∧ found.2.offset = here.offset + length
      | none => found = (.empty here.offset, here) := by
  intro found
  have unfolded (place : Cursor) (skipped : here.skip ignore = place) :
      found = if place.atEnd then (.eof place.offset, place) else
        match rule.matchCount? caseless place.rest with
        | some count => (⟨.rule name, place.rest.take count, place.offset⟩, place.forward count)
        | none => (.empty place.offset, place) := by
    subst skipped
    rfl
  have scanned := unfolded here still
  have atEnd : here.atEnd = true ↔ here.offset = here.text.byteLength := by
    rw [offset_eq_byteLength_iff]
    exact List.isEmpty_iff
  by_cases ended : here.offset = here.text.byteLength
  · rw [if_pos ended, scanned, if_pos (atEnd.mpr ended)]
  rw [if_neg ended]
  rw [if_neg (mt atEnd.mp ended)] at scanned
  cases matched : rule.matchCount? caseless here.rest with
  | none =>
    rw [LexRule.matchLength?_eq_none_iff.mpr matched]
    rw [matched] at scanned
    exact scanned
  | some count =>
    rw [LexRule.matchLength?_of_count matched]
    rw [matched] at scanned
    rw [scanned]
    refine ⟨rfl, rfl, rfl, List.take_prefix count here.rest, ?_, rfl⟩
    exact (here.seek_byteLength_take count).symm

/-- Skipping ends at a place after the cursor, before which the text is a run of pieces, each of
them what the first rule that takes any bytes takes there, and behind which no rule takes any or
nothing is left. To skip again changes nothing, and scanning from there is scanning from the cursor:
it finds the end of the text exactly if the text ends there, or else the token that the rule takes
and the place after it, or the empty token. -/
theorem skip_then_scan (cursor : Cursor) (ignore : List LexRule) (name : String) (rule : LexRule)
    (caseless : Bool) :
    let here := cursor.skip ignore
    let found := cursor.scan ignore name rule caseless
    (here.text = cursor.text ∧ cursor.offset ≤ here.offset ∧
      here.offset ≤ cursor.text.byteLength) ∧
    (∃ pieces, Sheds ignore cursor.rest pieces here.rest ∧
      cursor.rest = pieces.flatten ++ here.rest ∧ (∀ piece ∈ pieces, piece ≠ []) ∧
      here.offset = cursor.offset + Text.byteLength pieces.flatten) ∧
    (here.offset = cursor.text.byteLength ∨ ∀ rule ∈ ignore, rule.Idle here.rest) ∧
    here.skip ignore = here ∧
    here.scan ignore name rule caseless = found ∧
    if here.offset = cursor.text.byteLength then found = (.eof here.offset, here)
    else
      match rule.matchLength? caseless here.rest with
      | some length =>
          found.1.kind = .rule name ∧ found.1.start = here.offset ∧
            found.1.stop = here.offset + length ∧ found.1.text <+: here.rest ∧
            found.2 = here.seek (here.offset + length) ∧ found.2.offset = here.offset + length
      | none => found = (.empty here.offset, here) := by
  intro here found
  obtain ⟨⟨pieces, sheds⟩, settled⟩ := cursor.sheds_skip ignore
  have same : here.text = cursor.text := text_skip ..
  have still : here.skip ignore = here := cursor.skip_skip ignore
  have front : cursor.rest = pieces.flatten ++ here.rest := sheds.flatten_append
  have rescanned : here.scan ignore name rule caseless = found := by
    unfold found scan
    rw [still]
  have whole := cursor.byteLength_text
  have whole' := here.byteLength_text
  rw [same, whole, front, Text.byteLength_append] at whole'
  rw [front, Text.byteLength_append] at whole
  refine ⟨⟨same, by omega, by omega⟩, ⟨pieces, sheds, front, sheds.ne_nil, by omega⟩, ?_, still,
    rescanned, ?_⟩
  · rw [← same, offset_eq_byteLength_iff]
    exact settled
  · have scanned := scan_of_skip still name rule caseless
    rw [rescanned, same] at scanned
    exact scanned

end Cursor

end Packrat
