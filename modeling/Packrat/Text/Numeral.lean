import Packrat.Text.Basic
import Packrat.CharClass.Ranges

/-! # Numerals

Unsigned numerals are read in a radix below a bound, with one leading `+` allowed. Reading goes
from left to right and stops at the first digit that is no digit of the radix or that takes the
value to the bound, so of two faults the leftmost is reported.
-/

namespace Packrat

/-- Why a text is no numeral. -/
inductive NumeralFault where
  | empty
  | badDigit
  | tooLarge
  deriving DecidableEq, Repr

/-- The wording of a fault. -/
def NumeralFault.message : NumeralFault → String
  | .empty => "cannot parse integer from empty string"
  | .badDigit => "invalid digit found in string"
  | .tooLarge => "number too large to fit in target type"

namespace Numeral

/-- The value of a digit in radices up to sixteen, in either case. -/
def digit? (radix : Nat) (c : Char) : Option Nat :=
  let value :=
    if CharClass.isAsciiDigit c then some (c.toNat - 0x30)
    else if 'a' ≤ c ∧ c ≤ 'f' then some (c.toNat - 0x57)
    else if 'A' ≤ c ∧ c ≤ 'F' then some (c.toNat - 0x37)
    else none
  value.filter (· < radix)

/-- Reads digits on top of the value of the digits before them. -/
def readDigits (radix bound : Nat) : Nat → Text → Except NumeralFault Nat
  | value, [] => .ok value
  | value, c :: rest =>
      match digit? radix c with
      | none => .error .badDigit
      | some digit =>
          if value * radix + digit < bound then readDigits radix bound (value * radix + digit) rest
          else .error .tooLarge

/-- Reads a numeral whose value lies below the bound. -/
def read (radix bound : Nat) : Text → Except NumeralFault Nat
  | [] => .error .empty
  | ['+'] => .error .badDigit
  | '+' :: digits => readDigits radix bound 0 digits
  | digits => readDigits radix bound 0 digits

/-- The hexadecimal numeral of a number, in capital letters. -/
def hex (value : Nat) : String :=
  String.ofList ((Nat.toDigits 16 value).map Char.toUpper)

/-- The name of a code point, with four hexadecimal digits or more. -/
def codePointName (code : Nat) : String :=
  let digits := (Nat.toDigits 16 code).map Char.toUpper
  "U+" ++ String.ofList (List.replicate (4 - digits.length) '0' ++ digits)

example : codePointName 0xE9 = "U+00E9" := by decide

/-- Whatever is read lies below the bound. -/
theorem readDigits_lt {radix bound value result : Nat} {digits : Text} (below : value < bound)
    (success : readDigits radix bound value digits = .ok result) : result < bound := by
  induction digits generalizing value with
  | nil =>
    simp only [readDigits, Except.ok.injEq] at success
    exact success ▸ below
  | cons c rest ih =>
    simp only [readDigits] at success
    split at success
    · simp at success
    · split at success
      · exact ih (by assumption) success
      · simp at success

end Numeral

end Packrat
