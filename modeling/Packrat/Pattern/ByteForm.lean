import Packrat.Pattern.CharSet

/-! # Sets of characters as bytes

The UTF-8 forms of a set of characters are written as a list of rows, in increasing order. A row
is a list of ranges, one for each byte, and stands for every form with its bytes in the ranges.
-/

namespace Packrat

/-- The ranges of the bytes, one after the other, of forms of equal length. -/
abbrev ByteForm := List (Nat × Nat)

namespace ByteForm

/-- The forms of the code points from `low` to `high`, as the digits to base 64 that `count`
bytes hold after a first digit, which stands above `base`. -/
def ofDigits : Nat → Nat → Nat → Nat → List ByteForm
  | 0, base, low, high => [[(base + low, base + high)]]
  | count + 1, base, low, high =>
      let unit := 64 ^ (count + 1)
      let first := low / unit
      let last := high / unit
      let below (low high digitLow digitHigh : Nat) : List ByteForm :=
        (ofDigits count 0x80 low high).map ((base + digitLow, base + digitHigh) :: ·)
      if first = last then below (low % unit) (high % unit) first first
      else
        let cutLow := low % unit != 0
        let cutHigh := high % unit != unit - 1
        let start := if cutLow then first + 1 else first
        let stop := if cutHigh then last - 1 else last
        (if cutLow then below (low % unit) (unit - 1) first first else []) ++
          (if start ≤ stop then below 0 (unit - 1) start stop else []) ++
          (if cutHigh then below 0 (high % unit) last last else [])

/-- The code points whose forms have equal lengths: the first and the last, the number of bytes
after the first, and what stands below the digit in the first. -/
def lengths : List (Nat × Nat × Nat × Nat) :=
  [(0x00, 0x7F, 0, 0x00), (0x80, 0x7FF, 1, 0xC0), (0x800, 0xD7FF, 2, 0xE0),
   (0xE000, 0xFFFF, 2, 0xE0), (0x10000, 0x10FFFF, 3, 0xF0)]

/-- The forms of a set of characters, in increasing order. -/
def ofSet (set : CharSet) : List ByteForm :=
  set.ranges.flatMap fun (low, high) =>
    lengths.flatMap fun (first, last, count, base) =>
      if max low first ≤ min high last then ofDigits count base (max low first) (min high last)
      else []

/-- Adds a form to groups of forms with equal first ranges, last first. -/
def addToGroups : List ((Nat × Nat) × List ByteForm) → ByteForm →
    List ((Nat × Nat) × List ByteForm)
  | groups, [] => groups
  | (head, rests) :: more, range :: rest =>
      if head = range then (head, rest :: rests) :: more
      else (range, [rest]) :: (head, rests) :: more
  | [], range :: rest => [(range, [rest])]

/-- The groups of forms in increasing order that have equal first ranges. -/
def groups (forms : List ByteForm) : List ((Nat × Nat) × List ByteForm) :=
  (forms.foldl addToGroups []).reverse.map fun (head, rests) => (head, rests.reverse)

/-- What may follow each beginning of the forms, for beginnings of fewer than `depth` ranges. -/
def rests : Nat → List ByteForm → List (List ByteForm)
  | 0, _ => []
  | depth + 1, forms =>
      if forms.all List.isEmpty then []
      else forms :: (groups forms).flatMap fun (_, below) => rests depth below

end ByteForm

end Packrat
