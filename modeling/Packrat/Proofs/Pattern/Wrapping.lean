import Packrat.Proofs.Pattern.Enclosed
import Packrat.Proofs.Pattern.Interval
import Packrat.Proofs.Pattern.Soundness

/-! # Patterns whose source is an expression of its own

The source of a pattern is pasted into a group that is tried at the start of a text. If the source
is an expression of its own, it is read there as it is alone (`Regex.read?_wrapped`), so the pattern
takes what a match of that expression from the start of the text takes
(`LexRule.match_of_own_source`). A source that closes the group goes on outside of it, where it may
match further on.
-/

namespace Packrat

namespace Regex

open Pattern

/-- A condition before an expression joins no part of it. -/
theorem concat_look (condition : Look) (regex : Regex) :
    concat [.look condition, regex] =
      ofParts (.look condition :: regex.parts.foldr joinPart []) := by
  simp [concat, parts, joinPart]

theorem branches_concat_look (condition : Look) (regex : Regex) :
    (concat [.look condition, regex]).branches = [concat [.look condition, regex]] := by
  rw [concat_look]
  cases regex.parts.foldr joinPart [] <;> rfl

theorem anchored_concat_look (regex : Regex) :
    (concat [.look .textStart, regex]).anchored = true := by
  rw [concat_look]
  cases regex.parts.foldr joinPart [] <;> rfl

theorem matches_concat_look {condition : Look} {regex : Regex} {place next : Place} :
    (concat [.look condition, regex]).Matches place next ↔
      condition.holds place = true ∧ regex.Matches place next := by
  rw [matches_concat]
  constructor
  · rintro ⟨_, ⟨holds, rfl⟩, _, matched, rfl⟩
    exact ⟨holds, matched⟩
  · rintro ⟨holds, matched⟩
    exact ⟨_, ⟨holds, rfl⟩, _, matched, rfl⟩

/-- The group around the group that a source is pasted into. -/
private def wrapping : Group := ⟨{}, none, [], [{ regex := .look .textStart, depth := 0 }]⟩

/-- What comes before a wrapped source opens a group around what is read then. -/
private theorem readOn?_opened {fuel : Nat} {text : Text} {last : Reader}
    (read : Reader.start.readOn? fuel ("\\A(?:".toList ++ text) = some last) :
    ∃ less, (Reader.start.inside wrapping).readOn? less text = some last := by
  have spelled : "\\A(?:".toList ++ text = '\\' :: 'A' :: '(' :: '?' :: ':' :: text := rfl
  rw [spelled] at read
  rcases Reader.readOn?_cases read with ⟨empty, -⟩ | ⟨-, _, _, _, _, -, first, step, read⟩
  · cases empty
  cases first
  cases step
  rcases Reader.readOn?_cases read with ⟨empty, -⟩ | ⟨-, _, _, _, less, -, first, step, read⟩
  · cases empty
  cases first
  cases step
  exact ⟨less, read⟩

/-- The group around a source is read to its end only by the bracket that closes it. -/
private theorem finish?_inside (reader : Reader) : (reader.inside wrapping).finish? = none := by
  simp [Reader.finish?, Reader.inside]

/-- Once the group around a source is closed, it follows the condition before it. -/
private theorem finish?_closed {reader closed : Reader} {own regex : Regex}
    (unnumbered : reader.outermost? = none) (finished : reader.finish? = some own)
    (step : (reader.inside wrapping).step? .closing = some closed)
    (finished' : closed.finish? = some regex) :
    regex = concat [.look .textStart, own] := by
  obtain ⟨flags, group, around, numbered, names⟩ := reader
  unfold Reader.finish? at finished finished'
  dsimp only at finished finished'
  split at finished <;> cases finished
  rename_i whole
  obtain rfl : around = [] := List.isEmpty_iff.mp whole.1
  cases step
  split at finished' <;> cases finished'
  have part : group.part.regex = group.content.regex := by
    change group.number = none at unnumbered
    simp only [Group.part, unnumbered]
  change alternation [concat [.look .textStart, group.part.regex]] = _
  rw [part, alternation, List.flatMap_singleton, branches_concat_look]

/-- A wrapped source that is an expression of its own is that expression at the start of a text. -/
theorem read?_wrapped {source : Text} {own regex : Regex} (alone : read? source = some own)
    (wrapped : read? ("\\A(?:".toList ++ source ++ [')']) = some regex) :
    regex = concat [.look .textStart, own] := by
  obtain ⟨whole, read, finished⟩ := Option.bind_eq_some_iff.mp alone
  obtain ⟨last, read', finished'⟩ := Option.bind_eq_some_iff.mp wrapped
  rw [List.append_assoc] at read'
  obtain ⟨fuel, inside⟩ := readOn?_opened read'
  have unnumbered : whole.outermost? = none := Reader.outermost?_readOn? read
  rcases Reader.readOn?_inside (.append source) read inside with rfl | step
  · cases (finish?_inside whole).symm.trans finished'
  · exact finish?_closed unnumbered finished step finished'

end Regex

namespace LexRule

/-- What a rule of a source takes from a text is what the source matches from the first character
on, read as an expression of its own. Of any source, also one that can only be read where it is
pasted, it is where a match of the pasted expression ends, which begins with the text if that
expression is seen to be tried there only. -/
theorem match_of_source (source : String) (rule : LexRule) (built : ofPattern source = .ok rule)
    (caseless : Bool) (text : Text) (length : Nat)
    (taken : rule.matchLength? caseless text = some length) :
    ∃ word rest, text = word ++ rest ∧ word.byteLength = length ∧
      (∀ own, Regex.read? source.toList = some own →
        own.Matches (.start text) (.between word rest)) ∧
      ∀ wrapped, Regex.read? ("\\A(?:".toList ++ source.toList ++ [')']) = some wrapped →
        ∃ first : Place, first.In text ∧ wrapped.Matches first (.between word rest) ∧
          (wrapped.anchored = true → first = .start text) := by
  unfold ofPattern at built
  split at built
  · rename_i pattern found
    cases built
    obtain rfl : pattern.source = source := Pattern.source_of_ofSource? found
    obtain ⟨count, matched, rfl⟩ := Option.map_eq_some_iff.mp taken
    obtain ⟨first, _, inText, ⟨word, rest, rfl, rfl⟩, holds, rfl, atStart⟩ :=
      Pattern.matches_of_matchCount? matched
    refine ⟨word, rest, rfl, ?_, fun own alone => ?_, fun wrapped read => ?_⟩
    · rw [Place.between, List.take_left]
    · have pasted := Regex.read?_wrapped alone pattern.read_source
      rw [pasted] at holds atStart
      rw [atStart (Regex.anchored_concat_look own)] at holds
      exact (Regex.matches_concat_look.mp holds).2
    · cases pattern.read_source.symm.trans read
      exact ⟨first, inText, holds, atStart⟩
  · cases built

theorem match_of_source_group :
    ∃ own word rest, Regex.read? "a(b|bc)".toList = some own ∧ "abcx".toList = word ++ rest ∧
      Text.byteLength word = 2 ∧ own.Matches (.start "abcx".toList) (.between word rest) := by
  let own : Regex := .seq (.literal ['a']) (.group 0 (.alt (.literal ['b']) (.literal ['b', 'c'])))
  let wrapped : Regex := .seq (.look .textStart) own
  let pattern : Pattern :=
    ⟨"a(b|bc)", wrapped, wrapped.program, by decide +kernel, by decide +kernel, rfl⟩
  have built : ofPattern "a(b|bc)" = .ok (.pattern pattern) := by
    rw [ofPattern, show "a(b|bc)" = pattern.source from rfl, Pattern.ofSource?_source]
  have taken : (LexRule.pattern pattern).matchLength? false "abcx".toList = some 2 := by
    decide +kernel
  obtain ⟨word, rest, split, length, alone, -⟩ := match_of_source _ _ built _ _ _ taken
  have read : Regex.read? "a(b|bc)".toList = some own := by decide +kernel
  exact ⟨own, word, rest, read, split, length, alone own read⟩

/-- The source `a)|(b` closes the group that it is pasted into, and what comes then is tried further
on as well: in the text `xb` the second character ends a match, although none begins with the
first. The source is no expression of its own. -/
theorem match_of_unbalanced_source :
    ∃ rule wrapped, ofPattern "a)|(b" = .ok rule ∧
      Regex.read? ("\\A(?:".toList ++ "a)|(b".toList ++ [')']) = some wrapped ∧
      rule.matchLength? false "xb".toList = some 2 ∧
      Regex.read? "a)|(b".toList = none ∧ ∀ next, ¬ wrapped.Matches (.start "xb".toList) next := by
  let wrapped : Regex :=
    .alt (.seq (.look .textStart) (.literal ['a'])) (.group 0 (.literal ['b']))
  let pattern : Pattern :=
    ⟨"a)|(b", wrapped, wrapped.program, by decide +kernel, by decide +kernel, rfl⟩
  refine ⟨.pattern pattern, wrapped, ?_, pattern.read_source, by decide +kernel, by decide +kernel,
    fun next holds => ?_⟩
  · rw [ofPattern, show "a)|(b" = pattern.source from rfl, Pattern.ofSource?_source]
  · have noFirst : Regex.literalEnds ['a'] (.start "xb".toList) = [] := by decide +kernel
    have noSecond : Regex.literalEnds ['b'] (.start "xb".toList) = [] := by decide +kernel
    rcases holds with ⟨_, ⟨-, rfl⟩, taken⟩ | taken
    · rw [Regex.Matches, noFirst] at taken
      exact List.not_mem_nil taken
    · rw [Regex.Matches, Regex.Matches, noSecond] at taken
      exact List.not_mem_nil taken

end LexRule

end Packrat
