import Packrat.Text.Basic
import Packrat.CharClass.Hidden

/-! # Quoted text

Text in messages stands between double quotes. The quote, the backslash and the usual controls
have short escapes, and other characters without a visible form are written by their code point.
-/

namespace Packrat.Text

/-- The written form of one character between quotes. -/
def escapeChar (c : Char) : Text :=
  if c = '"' then ['\\', '"']
  else if c = '\\' then ['\\', '\\']
  else if c = '\n' then ['\\', 'n']
  else if c = '\r' then ['\\', 'r']
  else if c = '\t' then ['\\', 't']
  else if c = '\x00' then ['\\', '0']
  else if CharClass.isHidden c then
    ['\\', 'u', '\x7b'] ++ Nat.toDigits 16 c.toNat ++ ['\x7d']
  else [c]

/-- The text between double quotes, with every character that needs it escaped. -/
def quoted (text : Text) : String :=
  String.ofList ('"' :: text.flatMap escapeChar ++ ['"'])

example : quoted "a\"b".toList = "\"a\\\"b\"" := by decide

example : quoted ['\x7f', 'é', Char.ofNat 0x301] = "\"\\u\x7b7f\x7dé\\u\x7b301\x7d\"" := by
  decide +kernel

end Packrat.Text

namespace Packrat

/-- A name between double quotes. -/
def quotedName (name : String) : String := Text.quoted name.toList

end Packrat
