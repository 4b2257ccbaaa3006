import Packrat.CharClass.Word
import Packrat.Text.Basic

/-! # Places in a text and conditions on them

A place lies between two characters, or before the first, or after the last. A condition looks
at the characters on both sides of a place and takes none of them.
-/

namespace Packrat

/-- A place in a text: the number of characters before it, the last of them, and the text after
it. -/
structure Place where
  index : Nat
  before : Option Char
  after : Text
  deriving DecidableEq, Repr

namespace Place

/-- The place before the first character. -/
def start (text : Text) : Place := ⟨0, none, text⟩

/-- Whether a character of a class stands before the place. -/
def follows (place : Place) (isMember : Char → Bool) : Bool := place.before.any isMember

/-- Whether a character of a class stands after the place. -/
def precedes (place : Place) (isMember : Char → Bool) : Bool := place.after.head?.any isMember

end Place

/-- What the characters on the two sides of a place say about words. -/
inductive WordEdge where
  /-- A word character on one side only. -/
  | boundary
  /-- Word characters on both sides or on neither. -/
  | noBoundary
  /-- A word character after the place only. -/
  | start
  /-- A word character before the place only. -/
  | stop
  /-- No word character before the place. -/
  | notAfterWord
  /-- No word character after the place. -/
  | notBeforeWord
  deriving DecidableEq, Repr

/-- A condition on a place in a text. -/
inductive Look where
  | textStart
  | textEnd
  | lineStart
  | lineEnd
  /-- The start of a line, where a carriage return ends lines too and its pair with a line feed
  is not cut. -/
  | lineStartAfterReturn
  /-- The end of a line, where a carriage return ends lines too and its pair with a line feed
  is not cut. -/
  | lineEndBeforeReturn
  | word (edge : WordEdge) (ascii : Bool)
  deriving DecidableEq, Repr

/-- Whether word characters before and after a place make it the given edge. -/
def WordEdge.holds (before after : Bool) : WordEdge → Bool
  | .boundary => before != after
  | .noBoundary => before == after
  | .start => !before && after
  | .stop => before && !after
  | .notAfterWord => !before
  | .notBeforeWord => !after

/-- Whether the condition holds at a place. -/
def Look.holds (place : Place) : Look → Bool
  | .textStart => place.before.isNone
  | .textEnd => place.after.isEmpty
  | .lineStart => place.before.isNone || place.follows (· = '\n')
  | .lineEnd => place.after.isEmpty || place.precedes (· = '\n')
  | .lineStartAfterReturn =>
      place.before.isNone || place.follows (· = '\n') ||
        (place.follows (· = '\r') && !place.precedes (· = '\n'))
  | .lineEndBeforeReturn =>
      place.after.isEmpty || place.precedes (· = '\r') ||
        (place.precedes (· = '\n') && !place.follows (· = '\r'))
  | .word edge ascii =>
      let isMember := if ascii then CharClass.isAsciiWord else CharClass.isWord
      edge.holds (place.follows isMember) (place.precedes isMember)

end Packrat
