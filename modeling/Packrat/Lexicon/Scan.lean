import Packrat.Lexicon.Cursor
import Packrat.Lexicon.Rule
import Packrat.Lexicon.Token

/-! # Scanning

Scanning skips what the grammar ignores and then tries one rule. Ignored text is a run of pieces,
each taken by the first ignoring rule that takes any characters at all there.
-/

namespace Packrat

/-- The number of characters that the first of the rules to take any takes from a text. -/
def ignoredCount? (ignore : List LexRule) (text : Text) : Option Nat :=
  ignore.findSome? fun rule => (rule.matchCount? false text).filter (0 < ·)

/-- The number of characters of the ignored pieces at the front of a text, of which the first
`pending` are known to be ignored. -/
def skipCount (ignore : List LexRule) : Nat → Text → Nat
  | _, [] => 0
  | pending + 1, _ :: rest => skipCount ignore pending rest + 1
  | 0, c :: rest =>
      match ignoredCount? ignore (c :: rest) with
      | some (count + 1) => skipCount ignore count rest + 1
      | _ => 0

namespace Cursor

/-- The cursor after all that is ignored. -/
def skip (cursor : Cursor) (ignore : List LexRule) : Cursor :=
  cursor.forward (skipCount ignore 0 cursor.rest)

/-- Skips what is ignored and tries a rule: the token found and the cursor after it. At the end
of the text the token is the end sentinel, and where the rule does not match the empty one, both
at the cursor after what was ignored. -/
def scan (cursor : Cursor) (ignore : List LexRule) (name : String) (rule : LexRule)
    (caseless : Bool) : Token × Cursor :=
  let here := cursor.skip ignore
  if here.atEnd then (.eof here.offset, here)
  else
    match rule.matchCount? caseless here.rest with
    | some count => (⟨.rule name, here.rest.take count, here.offset⟩, here.forward count)
    | none => (.empty here.offset, here)

@[simp] theorem text_skip (cursor : Cursor) (ignore : List LexRule) :
    (cursor.skip ignore).text = cursor.text := text_forward ..

@[simp] theorem text_scan (cursor : Cursor) (ignore : List LexRule) (name : String)
    (rule : LexRule) (caseless : Bool) :
    (cursor.scan ignore name rule caseless).2.text = cursor.text := by
  unfold scan
  dsimp only
  split
  · simp
  · split <;> simp

@[simp] theorem skip_nil (cursor : Cursor) : cursor.skip [] = cursor := by
  have none : skipCount [] 0 cursor.rest = 0 := by
    cases cursor.rest <;> rfl
  simp [skip, none]

end Cursor

end Packrat
