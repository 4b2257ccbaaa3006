import Packrat.Lexicon.Cursor
import Packrat.Rule.Basic
import Packrat.Tree

/-! # Outcomes

Applying a rule at a cursor gives a match or a reject. A reject is an ordinary value that other
rules look at in order to try something else; its reason is kept as a cause and put into words
only by `Reason.message`.
-/

namespace Packrat

/-- Why a rule does not match. -/
inductive Reason where
  /-- Text is left where it should end. -/
  | inputLeft (offset : Nat)
  /-- The grammar has no lexical rule of the name. -/
  | unknownToken (name : String)
  /-- A terminal found a sentinel instead of its token, at an offset and before some text. -/
  | tokenMissing (terminal : Terminal) (found : TokenKind) (offset : Nat) (before : Text)
  | noAlternative (offset : Nat)
  /-- Several alternatives of a choice match, with the offsets where they end. -/
  | severalMatch (offset : Nat) (alternatives : List String) (ends : List Nat)
  | unknownProduction (name : String)
  /-- Something is there that must not be. -/
  | unexpected (shape : String) (offset : Nat)
  | tooFew (min : Nat) (rule : String)
  /-- What must follow does not. -/
  | lookahead (reason : Reason)
  /-- A reason given in words. -/
  | stated (text : String)

namespace Reason

/-- The text after a place, cut to twelve characters. -/
def preview (text : Text) : String :=
  if text.isEmpty then ""
  else if text.length ≤ 12 then s!" before {text.quoted}"
  else s!" before {Text.quoted (text.take 12)}..."

/-- The wording of a reason. -/
def message : Reason → String
  | .inputLeft offset => s!"expected end of input at offset {offset}"
  | .unknownToken name => s!"no lexical rule named `{name}`"
  | .tokenMissing terminal found offset before =>
      s!"could not match {terminal.describe} at offset {offset}: found {found.name}" ++
        preview before
  | .noAlternative offset => s!"no alternative matched at offset {offset}"
  | .severalMatch offset alternatives ends =>
      s!"ambiguous input at offset {offset}: {ends.length} alternatives of (" ++
        " | ".intercalate alternatives ++ ") matched, ending at [" ++
        ", ".intercalate (ends.map toString) ++ "]"
  | .unknownProduction name => s!"production `{name}` does not exist"
  | .unexpected shape offset => s!"unexpected {shape} at offset {offset}"
  | .tooFew min rule => s!"expected at least {min} of {rule}"
  | .lookahead reason => s!"lookahead failed: {reason.message}"
  | .stated text => text

end Reason

/-- Whether a rule fails because nothing matches or because too much does. -/
inductive RejectKind where
  | mismatch
  | ambiguous
  deriving DecidableEq, Repr

/-- A tree, and the cursor after the text that it was built from. -/
structure Match where
  cursor : Cursor
  node : Tree

/-- The cursor where a rule fails, and why. -/
structure Reject where
  cursor : Cursor
  reason : Reason
  kind : RejectKind

/-- What every rule gives. -/
abbrev Outcome := Except Reject Match

namespace Match

/-- The match of nothing at a cursor. -/
def emptyAt (cursor : Cursor) : Match := ⟨cursor, .token (.empty cursor.offset)⟩

end Match

namespace Reject

/-- A mismatch at a cursor. -/
def mismatch (cursor : Cursor) (reason : Reason) : Reject := ⟨cursor, reason, .mismatch⟩

/-- Whether the reject reports an ambiguity. -/
def isAmbiguous (reject : Reject) : Bool := reject.kind = .ambiguous

/-- The message with the position of the cursor. -/
def display (reject : Reject) : String :=
  s!"{reject.reason.message} (at {reject.cursor.position.display})"

/-- The reject of a choice at a cursor none of whose alternatives matches. An ambiguity below is
the better report. -/
def noAlternative (cursor : Cursor) (ambiguity : Option Reject) : Reject :=
  ambiguity.getD (.mismatch cursor (.noAlternative cursor.offset))

end Reject

namespace Outcome

/-- The matches among outcomes. -/
def successes : List Outcome → List Match
  | [] => []
  | .ok found :: more => found :: successes more
  | .error _ :: more => successes more

/-- The first reject among outcomes that reports an ambiguity. -/
def ambiguity? : List Outcome → Option Reject
  | [] => none
  | .ok _ :: more => ambiguity? more
  | .error reject :: more => if reject.isAmbiguous then some reject else ambiguity? more

end Outcome

end Packrat
