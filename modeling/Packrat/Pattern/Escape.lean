import Packrat.Pattern.Flags
import Packrat.Pattern.Place
import Packrat.Text.Numeral

/-! # Escapes in patterns

What a backslash and the characters after it stand for: a character, a class or a condition. A
backslash before punctuation leaves it as it is; before a letter or digit without a meaning it
is refused.
-/

namespace Packrat.Pattern

/-- What a backslash and the characters after it stand for. -/
inductive Escape where
  | char (c : Char)
  | set (set : CharSet)
  | look (condition : Look)
  deriving DecidableEq, Repr

namespace Escape

/-- The character with the code point that the hexadecimal digits give. -/
def codePoint? (digits : Text) : Option Char :=
  if digits.isEmpty || !digits.all CharClass.isAsciiHexDigit then none
  else (Numeral.read 16 0x110000 digits).toOption.bind scalar?

/-- Takes so many hexadecimal digits. -/
def takeDigits? (flags : Flags) : Nat → Text → Option (Text × Text)
  | 0, text => some ([], text)
  | _ + 1, [] => none
  | count + 1, c :: rest => do
      let (digits, after) ← takeDigits? flags count (flags.skip rest)
      if CharClass.isAsciiHexDigit c then some (c :: digits, after) else none

/-- Reads a code point of `width` digits, or of any number of them between braces. Without
Unicode, two digits are a byte, which has to be one of ASCII. -/
def readCodePoint? (flags : Flags) (width : Nat) (text : Text) : Option (Escape × Text) :=
  match flags.skip text with
  | '\x7b' :: rest =>
      match flags.takeRun CharClass.isAsciiHexDigit (flags.skip rest) with
      | (digits, '\x7d' :: after) => (codePoint? digits).map (.char ·, flags.skip after)
      | _ => none
  | rest => do
      let (digits, after) ← takeDigits? flags width rest
      let c ← codePoint? digits
      if !flags.unicode && width = 2 && 0x80 ≤ c.toNat then none else some (.char c, after)

/-- The characters of ASCII that a backslash leaves as they are. -/
def isPlain (c : Char) : Bool :=
  c.toNat < 0x80 && !(CharClass.isAsciiDigit c || CharClass.isAsciiUpper c ||
    CharClass.isAsciiLower c || c = '<' || c = '>')

/-- A class or, for a capital letter, its complement. -/
def ofClass? (flags : Flags) (negated : Bool) (unicode ascii : CharSet) (rest : Text) :
    Option (Escape × Text) := do
  let set := if flags.unicode then unicode else ascii
  let set ← if negated then flags.complement? set else some set
  some (.set set, rest)

/-- The condition that the words on both sides of a place make it an edge. -/
def ofEdge (flags : Flags) (edge : WordEdge) : Escape := .look (.word edge !flags.unicode)

/-- The edge with a name. -/
def edge? (name : Text) : Option WordEdge :=
  [("start", WordEdge.start), ("end", .stop), ("start-half", .notAfterWord),
   ("end-half", .notBeforeWord)].lookup (String.ofList name)

/-- Whether a character can stand in the name of an edge. -/
def isEdgeChar (c : Char) : Bool :=
  CharClass.isAsciiUpper c || CharClass.isAsciiLower c || c = '-'

/-- Reads what follows `\b`: the name of an edge between braces, or nothing. Braces that begin
otherwise are left for a repetition. -/
def readEdge? (flags : Flags) : Text → Option (Escape × Text)
  | '\x7b' :: rest =>
      match flags.skip rest with
      | [] => none
      | c :: more =>
          if isEdgeChar c then
            match flags.takeRun isEdgeChar (c :: more) with
            | (name, '\x7d' :: after) => (edge? name).map (ofEdge flags ·, after)
            | _ => none
          else some (ofEdge flags .boundary, '\x7b' :: rest)
  | rest => some (ofEdge flags .boundary, rest)

/-- Reads what follows a backslash. -/
def read? (flags : Flags) : Text → Option (Escape × Text)
  | [] => none
  | 'x' :: rest => readCodePoint? flags 2 rest
  | 'u' :: rest => readCodePoint? flags 4 rest
  | 'U' :: rest => readCodePoint? flags 8 rest
  | 'd' :: rest => ofClass? flags false .digit .asciiDigit rest
  | 's' :: rest => ofClass? flags false .blank .asciiBlank rest
  | 'w' :: rest => ofClass? flags false .word .asciiWord rest
  | 'D' :: rest => ofClass? flags true .digit .asciiDigit rest
  | 'S' :: rest => ofClass? flags true .blank .asciiBlank rest
  | 'W' :: rest => ofClass? flags true .word .asciiWord rest
  | 'a' :: rest => some (.char '\x07', rest)
  | 'f' :: rest => some (.char '\x0c', rest)
  | 't' :: rest => some (.char '\t', rest)
  | 'n' :: rest => some (.char '\n', rest)
  | 'r' :: rest => some (.char '\r', rest)
  | 'v' :: rest => some (.char '\x0b', rest)
  | 'A' :: rest => some (.look .textStart, rest)
  | 'z' :: rest => some (.look .textEnd, rest)
  | 'b' :: rest => readEdge? flags rest
  | 'B' :: rest => some (ofEdge flags .noBoundary, rest)
  | '<' :: rest => some (ofEdge flags .start, rest)
  | '>' :: rest => some (ofEdge flags .stop, rest)
  | c :: rest => if isPlain c then some (.char c, rest) else none

end Escape

end Packrat.Pattern
