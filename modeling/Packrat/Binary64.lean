/-! # Binary floating point

A finite number of the IEEE 754 binary64 format, kept as a whole significand and a power of two.
Decimal numbers are rounded to the nearest such number, ties to the even significand, in exact
arithmetic on whole numbers. `Binary64.shortest` goes back: it finds the fewest decimal digits
that are rounded to the number again.
-/

namespace Packrat

/-- The number `significand * 2 ^ scale`, with a sign that zero has too. The significand is below
`2 ^ 53`, and at least `2 ^ 52` unless the scale is `-1074`. -/
structure Binary64 where
  negative : Bool
  significand : Nat
  scale : Int
  deriving DecidableEq, Repr

namespace Binary64

/-- The lowest power of two that a number is a multiple of. -/
def minScale : Int := -1074

/-- The highest power of two of a finite number. -/
def maxScale : Int := 971

/-- The numerator and the denominator of `value * base ^ exponent`. -/
def fraction (value base : Nat) (exponent : Int) : Nat × Nat :=
  if 0 ≤ exponent then (value * base.pow exponent.toNat, 1)
  else (value, base.pow (-exponent).toNat)

/-- The quotient rounded to the nearest whole number, a half to the even one. -/
def roundDiv (numerator denominator : Nat) : Nat :=
  let quotient := numerator / denominator
  let twice := 2 * (numerator % denominator)
  if twice < denominator then quotient
  else if denominator < twice then quotient + 1
  else if quotient % 2 = 0 then quotient
  else quotient + 1

/-- The highest power of two that is no larger than a positive fraction. -/
def log2 (numerator denominator : Nat) : Int :=
  let guess : Int := (numerator.log2 : Int) - (denominator.log2 : Int)
  let (top, bottom) := fraction denominator 2 guess
  if top ≤ numerator * bottom then guess else guess - 1

/-- The number nearest to a positive fraction, unless it is too large for the format. -/
def ofFraction? (negative : Bool) (numerator denominator : Nat) : Option Binary64 :=
  let scale := max (log2 numerator denominator - 52) minScale
  let (top, bottom) := fraction 1 2 (-scale)
  let rounded := roundDiv (numerator * top) (denominator * bottom)
  let (significand, scale) :=
    if rounded = Nat.pow 2 53 then (Nat.pow 2 52, scale + 1) else (rounded, scale)
  if scale ≤ maxScale then some ⟨negative, significand, scale⟩ else none

/-- The number nearest to `digits * 10 ^ exponent`, unless it is too large for the format. -/
def ofDecimal? (negative : Bool) (digits : Nat) (exponent : Int) : Option Binary64 :=
  let magnitude := ((Nat.toDigits 10 digits).length : Int) + exponent
  if digits = 0 || magnitude < -330 then some ⟨negative, 0, minScale⟩
  else if 310 ≤ magnitude then none
  else
    let (numerator, denominator) := fraction digits 10 exponent
    ofFraction? negative numerator denominator

/-- The bits of the number in the interchange format. -/
def bits (number : Binary64) : Nat :=
  let sign := if number.negative then Nat.pow 2 63 else 0
  if number.significand < Nat.pow 2 52 then sign + number.significand
  else sign + (number.scale + 1075).toNat * Nat.pow 2 52 + (number.significand - Nat.pow 2 52)

/-- Whether a fraction is rounded to the number without regard to its sign: whether it lies
between the points half-way to the two neighbours. The neighbour below a power of two is twice as
near. The end points belong to a number with an even significand. -/
def rounds (number : Binary64) (numerator denominator : Nat) : Bool :=
  let significand := 4 * number.significand
  let below :=
    if number.significand = Nat.pow 2 52 && minScale < number.scale then significand - 1
    else significand - 2
  let above := significand + 2
  let (top, bottom) := fraction 1 2 (number.scale - 2)
  let value := numerator * bottom
  let low := below * top * denominator
  let high := above * top * denominator
  if number.significand % 2 = 0 then low ≤ value && value ≤ high
  else low < value && value < high

/-- The least power of ten above a positive fraction that lies below one. -/
def leadingZeros (numerator denominator : Nat) : Nat → Nat
  | 0 => 0
  | fuel + 1 =>
      if denominator ≤ numerator * 10 then 0
      else leadingZeros (numerator * 10) denominator fuel + 1

/-- The power of ten just above a positive fraction. -/
def log10 (numerator denominator : Nat) : Int :=
  if denominator ≤ numerator then ((Nat.toDigits 10 (numerator / denominator)).length : Int)
  else -(leadingZeros numerator denominator 400 : Int)

/-- A decimal of `width` digits that is rounded to the number, if there is one: of the two that
enclose the number the nearer, and of two as near the even one. -/
def decimal? (number : Binary64) (numerator denominator : Nat) (point : Int) (width : Nat) :
    Option (Nat × Int) :=
  let exponent := point - width
  let (top, bottom) := fraction 1 10 exponent
  let scaled := numerator * bottom
  let unit := denominator * top
  let lower := scaled / unit
  let fits (digits : Nat) : Bool := number.rounds (digits * top) bottom
  let nearest := roundDiv scaled unit
  if fits nearest then
    if nearest = Nat.pow 10 width then some (1, point) else some (nearest, exponent)
  else if fits lower then some (lower, exponent)
  else if fits (lower + 1) then some (lower + 1, exponent)
  else none

/-- The first decimal found among those of `width` digits and more. -/
def search (number : Binary64) (numerator denominator : Nat) (point : Int) (width : Nat) :
    Nat → Nat × Int
  | 0 => (roundDiv numerator denominator, 0)
  | fuel + 1 =>
      match number.decimal? numerator denominator point width with
      | some decimal => decimal
      | none => search number numerator denominator point (width + 1) fuel

/-- The digits and the power of ten of the shortest decimal that is rounded to the number. -/
def shortest (number : Binary64) : Nat × Int :=
  if number.significand = 0 then (0, 0)
  else
    let (numerator, denominator) := fraction number.significand 2 number.scale
    search number numerator denominator (log10 numerator denominator) 1 17

example : ((ofDecimal? false 1 (-1)).map bits) = some 0x3FB999999999999A := by decide +kernel

example : (ofDecimal? false 3 (-1)).map shortest = some (3, -1) := by decide +kernel

end Binary64

end Packrat
