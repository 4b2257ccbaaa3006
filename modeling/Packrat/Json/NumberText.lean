import Packrat.Json.Value
import Packrat.Text.Numeral

/-! # Number texts

The text of a number token is a whole number if it consists of digits after an optional sign and
fits into 64 bits, and otherwise the nearest binary floating-point number. A sign, leading
zeros, and a point without digits on one side are all accepted here; what cannot be read are
texts that are no decimal number, and numbers too large for the format.
-/

namespace Packrat.Json

/-- The sign of a number, and the text after it. -/
def readSign : Text → Bool × Text
  | '-' :: rest => (true, rest)
  | '+' :: rest => (false, rest)
  | text => (false, text)

/-- The value of decimal digits. -/
def decimalValue (digits : Text) : Nat :=
  digits.foldl (fun value c => value * 10 + (c.toNat - 0x30)) 0

/-- Whether a text consists of decimal digits, of which there is one at least. -/
def isDigits (text : Text) : Bool := !text.isEmpty && text.all CharClass.isAsciiDigit

/-- The whole number of a text that fits into 64 bits. A text that begins with a hyphen must fit
with its sign. -/
def readInteger? (raw : Text) : Option Int :=
  let (negative, digits) := readSign raw
  if isDigits digits then
    let value := decimalValue digits
    if negative then if value ≤ Nat.pow 2 63 then some (-value) else none
    else if value < Nat.pow 2 64 then some value else none
  else none

/-- The exponent after the digits of a number. -/
def readExponent? : Text → Option Int
  | [] => some 0
  | mark :: rest =>
      if mark = 'e' || mark = 'E' then
        let (negative, digits) := readSign rest
        if isDigits digits then
          some (if negative then -(decimalValue digits : Int) else decimalValue digits)
        else none
      else none

/-- The floating-point number of a text. -/
def readFloat? (raw : Text) : Option Binary64 := do
  let (negative, text) := readSign raw
  let whole := text.takeWhile CharClass.isAsciiDigit
  let text := text.dropWhile CharClass.isAsciiDigit
  let (part, text) :=
    match text with
    | '.' :: rest =>
        (rest.takeWhile CharClass.isAsciiDigit, rest.dropWhile CharClass.isAsciiDigit)
    | _ => ([], text)
  let exponent ← readExponent? text
  if whole.isEmpty && part.isEmpty then none
  else
    Binary64.ofDecimal? negative (decimalValue (whole ++ part)) (exponent - (part.length : Int))

/-- The number that a text stands for. -/
def readNumber? (raw : Text) : Option Value :=
  match readInteger? raw with
  | some value => some (.integer value)
  | none => (readFloat? raw).map .float

end Packrat.Json
