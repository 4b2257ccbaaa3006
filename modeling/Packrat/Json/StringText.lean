import Packrat.Text.Numeral

/-! # String texts

The text of a string token is read strictly: escapes are resolved, a code point past U+FFFF is
written as a pair of surrogates, and a surrogate without its partner or a control is an error.
Blanks may stand before the first quote and after the last.
-/

namespace Packrat.Json

/-- The blanks of JSON. -/
def isBlank (c : Char) : Bool := c = ' ' || c = '\t' || c = '\n' || c = '\r'

/-- The number that four hexadecimal digits stand for. -/
def codeUnit? (digits : Text) : Option Nat :=
  if digits.all CharClass.isAsciiHexDigit then (Numeral.read 16 0x10000 digits).toOption else none

/-- The character of an escape with a single letter or mark. -/
def shortEscape? : Char → Option Char
  | '"' => some '"'
  | '\\' => some '\\'
  | '/' => some '/'
  | 'b' => some '\x08'
  | 'f' => some '\x0c'
  | 'n' => some '\n'
  | 'r' => some '\r'
  | 't' => some '\t'
  | _ => none

/-- The character of a pair of surrogates. -/
def surrogates? (high low : Nat) : Option Char :=
  if 0xD800 ≤ high ∧ high < 0xDC00 ∧ 0xDC00 ≤ low ∧ low < 0xE000 then
    scalar? (0x10000 + (high - 0xD800) * 0x400 + (low - 0xDC00))
  else none

/-- Reads the body of a string up to its closing quote: the characters and what follows. -/
def readBody? : Text → Option (Text × Text)
  | [] => none
  | '"' :: rest => some ([], rest)
  | '\\' :: 'u' :: first :: second :: third :: fourth :: rest => do
      let unit ← codeUnit? [first, second, third, fourth]
      match scalar? unit with
      | some c => (readBody? rest).map fun (text, after) => (c :: text, after)
      | none =>
          match rest with
          | '\\' :: 'u' :: first :: second :: third :: fourth :: rest => do
              let low ← codeUnit? [first, second, third, fourth]
              let c ← surrogates? unit low
              (readBody? rest).map fun (text, after) => (c :: text, after)
          | _ => none
  | '\\' :: letter :: rest => do
      let c ← shortEscape? letter
      (readBody? rest).map fun (text, after) => (c :: text, after)
  | c :: rest =>
      if c = '\\' || c.toNat < 0x20 then none
      else (readBody? rest).map fun (text, after) => (c :: text, after)

/-- The string that a text stands for. -/
def readString? (raw : Text) : Option String :=
  match raw.dropWhile isBlank with
  | '"' :: body => do
      let (text, rest) ← readBody? body
      if rest.all isBlank then some (String.ofList text) else none
  | _ => none

example : readString? "\"a\\u00e9\\ud83d\\ude00\\n\"".toList = some "aé😀\n" := by decide +kernel

example : readString? "\"\\ud83d\"".toList = none := by decide +kernel

end Packrat.Json
