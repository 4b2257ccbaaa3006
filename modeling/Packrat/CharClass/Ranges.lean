/-! # Ranges of code points

A character class of the Unicode standard is kept as a list of closed ranges of code points in
increasing order, from U+0080 on; each class states its ASCII part as a test of its own.
-/

namespace Packrat.CharClass

/-- Whether a code point lies in one of the closed ranges. -/
def inRanges (ranges : List (Nat × Nat)) (code : Nat) : Bool :=
  ranges.any fun range => range.1 ≤ code && code ≤ range.2

/-- The ASCII digits. -/
def isAsciiDigit (c : Char) : Bool := '0' ≤ c && c ≤ '9'

/-- The capital letters of ASCII. -/
def isAsciiUpper (c : Char) : Bool := 'A' ≤ c && c ≤ 'Z'

/-- The small letters of ASCII. -/
def isAsciiLower (c : Char) : Bool := 'a' ≤ c && c ≤ 'z'

/-- The ASCII digits and the letters that serve as hexadecimal digits, in either case. -/
def isAsciiHexDigit (c : Char) : Bool :=
  isAsciiDigit c || ('a' ≤ c && c ≤ 'f') || ('A' ≤ c && c ≤ 'F')

theorem inRanges_cons (range : Nat × Nat) (ranges : List (Nat × Nat)) (code : Nat) :
    inRanges (range :: ranges) code =
      ((decide (range.1 ≤ code) && decide (code ≤ range.2)) || inRanges ranges code) := rfl

end Packrat.CharClass
