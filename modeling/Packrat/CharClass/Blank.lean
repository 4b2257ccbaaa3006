import Packrat.CharClass.Ranges

/-! # White space

The characters with the Unicode property `White_Space`, which is what a pattern's `\s` matches.
-/

namespace Packrat.CharClass

/-- The blank characters past ASCII. -/
def blankRanges : List (Nat × Nat) :=
  [(0x85, 0x85), (0xA0, 0xA0), (0x1680, 0x1680), (0x2000, 0x200A), (0x2028, 0x2029),
   (0x202F, 0x202F), (0x205F, 0x205F), (0x3000, 0x3000)]

/-- Whether a character is white space. -/
def isBlank (c : Char) : Bool :=
  if c.toNat < 0x80 then c = ' ' || (0x09 ≤ c.toNat && c.toNat ≤ 0x0D)
  else inRanges blankRanges c.toNat

/-- Every blank of the ASCII text formats is white space. -/
theorem isBlank_of_ascii {c : Char} (blank : c = ' ' ∨ c = '\t' ∨ c = '\n' ∨ c = '\r') :
    isBlank c = true := by
  rcases blank with rfl | rfl | rfl | rfl <;> decide

end Packrat.CharClass
