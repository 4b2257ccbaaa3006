import Packrat.Rule.Build

/-! # Escapes in literals

The text of a literal is what stands between its quotes, with backslash escapes resolved. Every
other character stands for itself, and whatever follows a backslash without being an escape is an
error.
-/

namespace Packrat.Escape

/-- The character of an escape with a single letter or mark. -/
def short? : Char → Option Char
  | 'n' => some '\n'
  | 'r' => some '\r'
  | 't' => some '\t'
  | '0' => some '\x00'
  | 'b' => some '\x08'
  | 'f' => some '\x0c'
  | '\\' => some '\\'
  | '"' => some '"'
  | '\'' => some '\''
  | '/' => some '/'
  | '[' => some '['
  | ']' => some ']'
  | '-' => some '-'
  | _ => none

/-- The character of four hexadecimal digits. -/
def codePoint? (digits : Text) : Option Char :=
  if digits.length = 4 && digits.all CharClass.isAsciiHexDigit then
    (Numeral.read 16 0x10000 digits).toOption.bind scalar?
  else none

/-- Resolves the escapes in the part of a literal that is left to read. -/
def resolve (language : String) (body : Text) : Text → Except Error Text
  | [] => .ok []
  | ['\\'] => Error.build (.danglingEscape language body)
  | '\\' :: 'u' :: first :: second :: third :: fourth :: rest =>
      match codePoint? [first, second, third, fourth] with
      | some c => (resolve language body rest).map (c :: ·)
      | none => Error.build (.badCodePoint language [first, second, third, fourth] body)
  | '\\' :: 'u' :: digits => Error.build (.badCodePoint language digits body)
  | '\\' :: letter :: rest =>
      match short? letter with
      | some c => (resolve language body rest).map (c :: ·)
      | none => Error.build (.unknownEscape language letter body)
  | c :: rest => (resolve language body rest).map (c :: ·)

/-- The text that the body of a literal stands for. -/
def unescape (language : String) (body : Text) : Except Error Text := resolve language body body

/-- What stands between the quotes of a literal, whatever the quotes are. -/
def stripQuotes (text : Text) : Text := text.tail.dropLast

example : (unescape "PEG" "a\\\"\\u0041\\n".toList).toOption = some "a\"A\n".toList := by decide

end Packrat.Escape
