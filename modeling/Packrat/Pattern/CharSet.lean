import Packrat.CharClass.Blank
import Packrat.CharClass.Digit
import Packrat.CharClass.Folding
import Packrat.CharClass.Word

/-! # Sets of characters

A set of characters is the list of the longest closed ranges of code points that make it up, in
increasing order. Surrogates are no characters, so U+E000 is next to U+D7FF. Sets with the same
characters are therefore equal, which comparing expressions relies on.
-/

namespace Packrat

/-- A set of characters, as its longest ranges of code points in increasing order. -/
structure CharSet where
  ranges : List (Nat × Nat)
  deriving DecidableEq, Repr

namespace CharSet

/-- The code point after one that is no surrogate. -/
def after (code : Nat) : Nat := if code = 0xD7FF then 0xE000 else code + 1

/-- The code point before one that is no surrogate. -/
def before (code : Nat) : Nat := if code = 0xE000 then 0xD7FF else code - 1

/-- The last code point. -/
def lastCode : Nat := 0x10FFFF

/-- Whether a code point lies in one of the ranges, which are in increasing order. -/
def within : List (Nat × Nat) → Nat → Bool
  | [], _ => false
  | (low, high) :: more, code => low ≤ code && (code ≤ high || within more code)

/-- Whether a character belongs to the set. -/
def contains (set : CharSet) (c : Char) : Bool := within set.ranges c.toNat

/-- Adds a range to ranges in increasing order, joining it with those it meets or touches. -/
def insertRange (low high : Nat) : List (Nat × Nat) → List (Nat × Nat)
  | [] => [(low, high)]
  | (first, last) :: more =>
      if after high < first then (low, high) :: (first, last) :: more
      else if after last < low then (first, last) :: insertRange low high more
      else insertRange (min low first) (max high last) more

/-- The ranges from a code point on that lie between the given ones. -/
def gaps (code : Nat) : List (Nat × Nat) → List (Nat × Nat)
  | [] => if code ≤ lastCode then [(code, lastCode)] else []
  | (low, high) :: more =>
      if code < low then (code, before low) :: gaps (after high) more
      else gaps (after high) more

/-- The set without characters. -/
def empty : CharSet := ⟨[]⟩

/-- The characters from one to another. -/
def range (low high : Char) : CharSet := ⟨[(low.toNat, high.toNat)]⟩

/-- The set of one character. -/
def single (c : Char) : CharSet := range c c

/-- The characters of either set. -/
def union (first second : CharSet) : CharSet :=
  ⟨first.ranges.foldr (fun range ranges => insertRange range.1 range.2 ranges) second.ranges⟩

/-- The characters outside the set. -/
def complement (set : CharSet) : CharSet := ⟨gaps 0 set.ranges⟩

/-- The characters of both sets. -/
def intersection (first second : CharSet) : CharSet :=
  (first.complement.union second.complement).complement

/-- The characters of the first set that are not in the second. -/
def difference (first second : CharSet) : CharSet := first.intersection second.complement

/-- The characters of exactly one of the sets. -/
def symmetricDifference (first second : CharSet) : CharSet :=
  (first.union second).difference (first.intersection second)

/-- The set with all variants of its characters, given the folded forms of letters. -/
def folded (folds : List (Nat × Nat)) (set : CharSet) : CharSet :=
  let forms := folds.filterMap fun (variant, form) =>
    if within set.ranges variant || within set.ranges form then some form else none
  let variants := folds.filter fun (_, form) => forms.contains form
  ⟨variants.foldr (fun (variant, form) ranges =>
    insertRange variant variant (insertRange form form ranges)) set.ranges⟩

/-- Every character. -/
def all : CharSet := empty.complement

/-- The decimal digits. -/
def digit : CharSet := ⟨(0x30, 0x39) :: CharClass.digitRanges⟩

/-- The white space. -/
def blank : CharSet := ⟨(0x09, 0x0D) :: (0x20, 0x20) :: CharClass.blankRanges⟩

/-- The word characters. -/
def word : CharSet :=
  ⟨(0x30, 0x39) :: (0x41, 0x5A) :: (0x5F, 0x5F) :: (0x61, 0x7A) :: CharClass.wordRanges⟩

/-- The decimal digits of ASCII. -/
def asciiDigit : CharSet := ⟨[(0x30, 0x39)]⟩

/-- The white space of ASCII. -/
def asciiBlank : CharSet := ⟨[(0x09, 0x0D), (0x20, 0x20)]⟩

/-- The word characters of ASCII. -/
def asciiWord : CharSet := ⟨[(0x30, 0x39), (0x41, 0x5A), (0x5F, 0x5F), (0x61, 0x7A)]⟩

/-- The sets of ASCII characters that have names of their own. -/
def named? (name : String) : Option CharSet :=
  [("alnum", [(0x30, 0x39), (0x41, 0x5A), (0x61, 0x7A)]),
   ("alpha", [(0x41, 0x5A), (0x61, 0x7A)]),
   ("ascii", [(0x00, 0x7F)]),
   ("blank", [(0x09, 0x09), (0x20, 0x20)]),
   ("cntrl", [(0x00, 0x1F), (0x7F, 0x7F)]),
   ("digit", [(0x30, 0x39)]),
   ("graph", [(0x21, 0x7E)]),
   ("lower", [(0x61, 0x7A)]),
   ("print", [(0x20, 0x7E)]),
   ("punct", [(0x21, 0x2F), (0x3A, 0x40), (0x5B, 0x60), (0x7B, 0x7E)]),
   ("space", [(0x09, 0x0D), (0x20, 0x20)]),
   ("upper", [(0x41, 0x5A)]),
   ("word", [(0x30, 0x39), (0x41, 0x5A), (0x5F, 0x5F), (0x61, 0x7A)]),
   ("xdigit", [(0x30, 0x39), (0x41, 0x46), (0x61, 0x66)])].lookup name |>.map CharSet.mk

/-- Whether the set has ASCII characters only. -/
def isAscii (set : CharSet) : Bool := set.ranges.all (·.2 < 0x80)

/-- The only character of the set. -/
def only? (set : CharSet) : Option Char :=
  match set.ranges with
  | [(low, high)] => if low = high then some (Char.ofNat low) else none
  | _ => none

theorem contains_single (c d : Char) : (single c).contains d = true ↔ d = c := by
  simp only [single, range, contains, within, Bool.and_eq_true, Bool.or_eq_true,
    decide_eq_true_eq, Bool.false_eq_true, or_false]
  constructor
  · rintro ⟨low, high⟩
    exact Char.toNat_inj.mp (Nat.le_antisymm high low)
  · rintro rfl
    exact ⟨Nat.le_refl _, Nat.le_refl _⟩

end CharSet

end Packrat
