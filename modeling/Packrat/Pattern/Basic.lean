import Packrat.Pattern.Match
import Packrat.Pattern.Memory
import Packrat.Pattern.Reader

/-! # Patterns

A `Pattern` is a source together with the expression and the program that it stands for, so a
pattern that exists is well formed. Its source is wrapped so that a match begins where the text
does.
-/

namespace Packrat

/-- A pattern: a source, the expression of that source wrapped so that it is tried at the start
of a text only, and the program of that expression. The source is pasted between the brackets of
the wrapping as it stands. -/
structure Pattern where
  source : String
  regex : Regex
  program : Program
  read_source : Regex.read? ("\\A(?:".toList ++ source.toList ++ [')']) = some regex
  fits : regex.fits = true
  program_eq : program = regex.program

namespace Pattern

/-- The pattern of a source, if the wrapped source is well formed and small enough. -/
def ofSource? (source : String) : Option Pattern :=
  match read : Regex.read? ("\\A(?:".toList ++ source.toList ++ [')']) with
  | some regex =>
      if fits : regex.fits = true then some ⟨source, regex, regex.program, read, fits, rfl⟩
      else none
  | none => none

/-- The number of characters before the end of the match of a pattern in a text. A match that
begins where the text does is not looked for any further on. -/
def matchCount? (pattern : Pattern) (text : Text) : Option Nat :=
  pattern.program.matchEnd? (!pattern.regex.anchored) text

/-- A pattern is determined by its source. -/
theorem ext_source {first second : Pattern} (same : first.source = second.source) :
    first = second := by
  obtain ⟨source, regex, program, read, fits, rfl⟩ := first
  obtain ⟨source', regex', program', read', fits', rfl⟩ := second
  obtain rfl : source = source' := same
  obtain rfl : regex = regex' := Option.some.inj (read.symm.trans read')
  rfl

/-- Reading the source of a pattern gives the pattern back. -/
@[simp] theorem ofSource?_source (pattern : Pattern) :
    ofSource? pattern.source = some pattern := by
  unfold ofSource?
  split
  · rename_i regex read
    obtain rfl : regex = pattern.regex := Option.some.inj (read.symm.trans pattern.read_source)
    rw [dif_pos pattern.fits]
    exact congrArg some (ext_source rfl)
  · rename_i read
    rw [pattern.read_source] at read
    cases read

end Pattern

end Packrat
