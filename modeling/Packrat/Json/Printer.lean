import Packrat.Json.Value

/-! # Writing JSON

Values are written over several lines, two blanks to each level. Strings escape the quote, the
backslash and the controls, and other characters stand as they are. Numbers that are not whole
have the fewest digits that give the same number.
-/

namespace Packrat.Json

/-- The written form of one character of a string. -/
def escapeChar (c : Char) : Text :=
  if c = '"' then ['\\', '"']
  else if c = '\\' then ['\\', '\\']
  else if c = '\x08' then ['\\', 'b']
  else if c = '\x0c' then ['\\', 'f']
  else if c = '\n' then ['\\', 'n']
  else if c = '\r' then ['\\', 'r']
  else if c = '\t' then ['\\', 't']
  else if c.toNat < 0x20 then
    ['\\', 'u', '0', '0', Nat.digitChar (c.toNat / 16), Nat.digitChar (c.toNat % 16)]
  else [c]

/-- The written form of a string. -/
def printString (text : String) : Text := '"' :: text.toList.flatMap escapeChar ++ ['"']

/-- The written form of `digits * 10 ^ exponent`. From a hundred-thousandth up to ten thousand
million million it is positional, with a digit after the point; elsewhere it has an exponent. -/
def printDecimal (digits : Nat) (exponent : Int) : Text :=
  let figures := Nat.toDigits 10 digits
  let point := (figures.length : Int) + exponent
  if 0 ≤ exponent ∧ point ≤ 16 then
    figures ++ List.replicate exponent.toNat '0' ++ ['.', '0']
  else if 0 < point ∧ point ≤ 16 then
    figures.take point.toNat ++ '.' :: figures.drop point.toNat
  else if -5 < point ∧ point ≤ 0 then
    ['0', '.'] ++ List.replicate (-point).toNat '0' ++ figures
  else
    let mantissa :=
      match figures with
      | first :: second :: more => first :: '.' :: second :: more
      | short => short
    let power := point - 1
    mantissa ++ 'e' :: (if power < 0 then '-' else '+') :: Nat.toDigits 10 power.natAbs

/-- The written form of a number that is not whole. -/
def printFloat (number : Binary64) : Text :=
  let (digits, exponent) := number.shortest
  if number.negative then '-' :: printDecimal digits exponent else printDecimal digits exponent

/-- The written form of a whole number. -/
def printInteger (value : Int) : Text :=
  if value < 0 then '-' :: Nat.toDigits 10 value.natAbs else Nat.toDigits 10 value.natAbs

/-- A new line with the blanks of a level. -/
def newLine (level : Nat) : Text := '\n' :: List.replicate (2 * level) ' '

mutual

/-- The written form of a value that stands at a level. -/
def print (level : Nat) : Value → Text
  | .null => "null".toList
  | .bool true => "true".toList
  | .bool false => "false".toList
  | .integer value => printInteger value
  | .float value => printFloat value
  | .string text => printString text
  | .array [] => ['[', ']']
  | .array (item :: more) =>
      '[' :: newLine (level + 1) ++ print (level + 1) item ++ printItems level more ++
        newLine level ++ [']']
  | .object [] => ['\x7b', '\x7d']
  | .object ((name, value) :: more) =>
      '\x7b' :: newLine (level + 1) ++ printString name ++ [':', ' '] ++
        print (level + 1) value ++ printMembers level more ++ newLine level ++ ['\x7d']

/-- The written form of the items of an array after the first. -/
def printItems (level : Nat) : List Value → Text
  | [] => []
  | item :: more =>
      ',' :: newLine (level + 1) ++ print (level + 1) item ++ printItems level more

/-- The written form of the members of an object after the first. -/
def printMembers (level : Nat) : List (String × Value) → Text
  | [] => []
  | (name, value) :: more =>
      ',' :: newLine (level + 1) ++ printString name ++ [':', ' '] ++
        print (level + 1) value ++ printMembers level more

end

/-- The written form of a document. -/
def Value.pretty (value : Value) : Text := print 0 value

end Packrat.Json
