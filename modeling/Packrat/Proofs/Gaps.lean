import Packrat.Proofs.Spacing

/-! # Comments between words

Where a grammar ignores white space and comments, its words stand after gaps. `Gap` says of a run
that it is made of blanks and comments, whatever the comments are, and `Written` of a text that it
consists of words with gaps between them. A gap before a clear text is what is skipped, so that the
first character after it tells what comes next (`Leads`).
-/

namespace Packrat

/-- A run of white space and comments. -/
inductive Gap (comment : Text → Prop) : Text → Prop where
  | nil : Gap comment []
  | blank {c run} (blank : CharClass.isBlank c = true) (more : Gap comment run) :
      Gap comment (c :: run)
  | comment {piece run} (here : comment piece) (more : Gap comment run) :
      Gap comment (piece ++ run)

/-- The text ends or goes on with a gap that is not empty. -/
def Loose (gap : Text → Prop) (text : Text) : Prop :=
  text = [] ∨ ∃ run rest, gap run ∧ run ≠ [] ∧ text = run ++ rest

/-- The text consists of the words, with a gap that is not empty between any two of them and any
gap before the first and after the last. -/
def Written (gap : Text → Prop) (words : List Text) (text : Text) : Prop :=
  ∃ rest, Parted gap (Loose gap) words text rest ∧ gap rest

/-- After a gap the text ends or goes on with a character of one of the sets. -/
def Leads (gap : Text → Prop) (sets : List CharSet) (text : Text) : Prop :=
  ∃ run rest, gap run ∧ text = run ++ rest ∧ rest.BeginsIn sets

section Gaps

variable {gap comment : Text → Prop} {run text : Text} {words : List Text}

theorem Gap.ofComment {piece : Text} (here : comment piece) : Gap comment piece := by
  have single := Gap.comment here .nil
  rwa [List.append_nil] at single

/-- A gap that comments begin with a mark begins with a blank or the mark. -/
theorem Loose.beginsIn {mark : Char} (marked : ∀ piece, comment piece → piece.head? = some mark)
    (loose : Loose (Gap comment) text) : text.BeginsIn [.blank, .single mark] := by
  rcases loose with rfl | ⟨run, rest, gap, filled, rfl⟩
  · exact .nil
  · cases gap with
    | nil => exact absurd rfl filled
    | blank blank => exact .cons (by simp) ((CharSet.contains_blank _).trans blank)
    | comment here =>
      obtain ⟨others, rfl⟩ := List.head?_eq_some_iff.mp (marked _ here)
      exact .single (by simp)

theorem Leads.mono {sets sets' : List CharSet} (leads : Leads gap sets text)
    (inside : ∀ set ∈ sets, set ∈ sets') : Leads gap sets' text := by
  obtain ⟨run, rest, here, same, begins⟩ := leads
  exact ⟨run, rest, here, same, begins.mono inside⟩

theorem Leads.ofGap (here : gap text) (sets : List CharSet) : Leads gap sets text :=
  ⟨text, [], here, (List.append_nil text).symm, .nil⟩

theorem Leads.ofChar {c : Char} {word others rest : Text} {sets : List CharSet} (here : gap run)
    (chars : word = c :: others) (member : .single c ∈ sets) :
    Leads gap sets (run ++ (word ++ rest)) := by
  subst chars
  exact ⟨run, c :: others ++ rest, here, rfl, .single member⟩

/-- Words with the same gap between any two are written. -/
theorem written_intercalate {piece : Text} (empty : gap []) (here : gap piece)
    (filled : piece ≠ []) (words : List Text) : Written gap words (piece.intercalate words) := by
  suffices spaced : ∀ run, gap run →
      Written gap words (if words = [] then [] else run ++ piece.intercalate words) by
    cases words with
    | nil => exact ⟨[], .nil, empty⟩
    | cons word words => simpa using spaced [] empty
  induction words with
  | nil => exact fun _ _ => ⟨[], .nil, empty⟩
  | cons word words ih =>
    intro run before
    obtain ⟨rest, parted, ends⟩ := ih piece here
    cases words with
    | nil =>
      refine ⟨[], ?_, empty⟩
      have last : Parted gap (Loose gap) [word] (run ++ (word ++ [])) [] :=
        .cons before (.inl rfl) .nil
      simpa using last
    | cons next words =>
      refine ⟨rest, ?_, ends⟩
      simp only [List.cons_ne_nil, if_false] at parted ⊢
      have joined : Loose gap (piece ++ piece.intercalate (next :: words)) :=
        .inr ⟨piece, _, here, filled, rfl⟩
      have more : Parted gap (Loose gap) (word :: next :: words)
          (run ++ (word ++ (piece ++ piece.intercalate (next :: words)))) rest :=
        .cons before joined parted
      simpa using more

end Gaps

/-- After a blank the same is skipped as from its front. -/
theorem Cursor.skip_blank {ignore others : List LexRule} (first : ignore = .blanks :: others)
    {c : Char} (blank : CharClass.isBlank c = true) {cursor : Cursor} {rest : Text}
    (left : cursor.rest = c :: rest) :
    (cursor.forward 1).skip ignore = cursor.skip ignore := by
  have ignored (text : Text) (filled : text.takeWhile CharClass.isBlank ≠ []) :
      ignoredCount? ignore text = some (text.takeWhile CharClass.isBlank).length := by
    rw [ignoredCount?, first, List.findSome?_cons, LexRule.matchCount?_takeWhile filled,
      Option.filter_some, if_pos (by simpa using List.length_pos_of_ne_nil filled)]
  have next : (cursor.forward 1).rest = rest := by
    rw [Cursor.rest_forward, left]
    rfl
  -- the rule of blanks takes this one together with those after it
  have here := ignored cursor.rest (by simp [left, blank])
  have skipped := Cursor.skip_forward (by simp [left]) here
  rw [← skipped, left, List.takeWhile_cons, if_pos blank, List.length_cons, Nat.add_comm,
    ← Cursor.forward_forward, ← next]
  by_cases more : (cursor.forward 1).rest.takeWhile CharClass.isBlank = []
  · rw [more, List.length_nil, Cursor.forward_zero]
  · have some : (cursor.forward 1).rest ≠ [] := by
      intro none
      exact more (by rw [none]; rfl)
    exact (Cursor.skip_forward some (ignored _ more)).symm

namespace Skips

variable {ignore others : List LexRule} (first : ignore = .blanks :: others) {run text : Text}

include first

/-- A blank is skipped with what is skipped after it. -/
theorem blank {c : Char} (blank : CharClass.isBlank c = true) (skips : Skips ignore run text) :
    Skips ignore (c :: run) text := by
  intro cursor left
  rw [← Cursor.skip_blank first blank left]
  refine skips _ ?_
  rw [Cursor.rest_forward, left]
  rfl

/-- A gap before a clear text is skipped if its comments are. -/
theorem of_gap {comment : Text → Prop} (clear : Clear ignore text)
    (each : ∀ piece run, comment piece → Skips ignore run text → Skips ignore (piece ++ run) text)
    (gap : Gap comment run) : Skips ignore run text := by
  induction gap with
  | nil => exact of_clear clear
  | blank blank _ ih => exact ih.blank first blank
  | comment here _ ih => exact each _ _ here ih

end Skips

/-- A comment that the rule after that of blanks takes is skipped. -/
theorem Skips.after_comment {comments : LexRule} {ignore : List LexRule}
    (both : ignore = [.blanks, comments]) {c : Char} {piece run text : Text}
    (solid : CharClass.isBlank c = false)
    (counted : comments.matchCount? false (c :: piece ++ (run ++ text)) = some (c :: piece).length)
    (skips : Skips ignore run text) : Skips ignore (c :: piece ++ run) text := by
  refine skips.after_piece (List.cons_ne_nil c piece) ?_
  have none : LexRule.blanks.matchCount? false (c :: piece ++ (run ++ text)) = none :=
    LexRule.matchCount?_blanks_eq_none solid _
  have ignored : (comments.matchCount? false (c :: piece ++ (run ++ text))).filter (0 < ·) =
      some (c :: piece).length := by
    rw [counted, Option.filter_some, if_pos (by simp)]
  rw [ignoredCount?, both, List.findSome?_cons, none, Option.filter_none, List.findSome?_cons,
    ignored]

end Packrat
