import Packrat.Text.Position
import Packrat.Text.Quoted

/-! # Cursors

A cursor is a place between two characters of a text. It keeps the characters before it, last
first, and those after it, so it can stand nowhere but on a character boundary. Its offset is
the byte length of what lies before it.
-/

namespace Packrat

/-- A place between two characters of a text. -/
@[ext] structure Cursor where
  before : Text
  rest : Text
  offset : Nat
  offset_eq : offset = before.byteLength
  deriving DecidableEq

namespace Cursor

/-- The cursor at the start of a text. -/
def start (text : Text) : Cursor := ⟨[], text, 0, rfl⟩

/-- The whole text that the cursor stands in. -/
def text (cursor : Cursor) : Text := cursor.before.reverse ++ cursor.rest

/-- The cursor after the next `count` characters, or at the end if there are fewer. -/
def forward (cursor : Cursor) (count : Nat) : Cursor where
  before := (cursor.rest.take count).reverse ++ cursor.before
  rest := cursor.rest.drop count
  offset := cursor.offset + Text.byteLength (cursor.rest.take count)
  offset_eq := by
    rw [Text.byteLength_append, Text.byteLength_reverse, cursor.offset_eq, Nat.add_comm]

/-- The cursor in the same text at the last character boundary that is not past the byte offset
`offset`. -/
def seek (cursor : Cursor) (offset : Nat) : Cursor :=
  (start cursor.text).forward (cursor.text.charsWithin offset)

/-- The number of values that a byte offset can have. -/
def offsetBound : Nat := Nat.pow 2 64

/-- The cursor moved on by a number of bytes, unless that leads past the largest offset. -/
def advance? (cursor : Cursor) (bytes : Nat) : Option Cursor :=
  if cursor.offset + bytes < offsetBound then some (cursor.seek (cursor.offset + bytes)) else none

/-- Whether nothing is left to read. -/
def atEnd (cursor : Cursor) : Bool := cursor.rest.isEmpty

/-- The line and column of the cursor. -/
def position (cursor : Cursor) : Position := .locate cursor.text cursor.offset

/-- A short account of the cursor, with the next characters. -/
def describe (cursor : Cursor) : String :=
  s!"Cursor \x7b offset: {cursor.offset}, len: {cursor.text.byteLength}, " ++
    s!"next: {Text.quoted (cursor.rest.take 16)} \x7d"

@[simp] theorem text_start (text : Text) : (start text).text = text := rfl

@[simp] theorem text_forward (cursor : Cursor) (count : Nat) :
    (cursor.forward count).text = cursor.text := by
  simp [text, forward]

@[simp] theorem text_seek (cursor : Cursor) (offset : Nat) :
    (cursor.seek offset).text = cursor.text := by
  simp [seek]

/-- Seeking ends at the boundary that the byte offset is moved back to. -/
theorem offset_seek (cursor : Cursor) (offset : Nat) :
    (cursor.seek offset).offset = cursor.text.floorBoundary offset := by
  simp [seek, forward, start, Text.floorBoundary]

/-- The text is as long as what lies before the cursor and after it. -/
theorem byteLength_text (cursor : Cursor) :
    cursor.text.byteLength = cursor.offset + cursor.rest.byteLength := by
  simp [text, cursor.offset_eq]

@[simp] theorem forward_zero (cursor : Cursor) : cursor.forward 0 = cursor := by
  ext : 1 <;> simp [forward]

end Cursor

end Packrat
