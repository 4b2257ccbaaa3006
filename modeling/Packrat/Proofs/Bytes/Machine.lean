import Packrat.Parser
import Packrat.Text.Slice
import Mathlib.Logic.Function.Basic

/-! # Evaluation on byte offsets

Here a cursor is any number of bytes in a buffer, so that it may point past the end or into a
character. Whatever looks at the text cuts a slice, which fails where one cannot be cut, and the
failure ends the evaluation. Which matches a pattern has is left to an engine that is asked about
the remaining text and answers with a number of bytes, about which nothing is assumed. The steps
are those of `Rule.eval` and the table is that of `Grammar.applyMemoized`.
-/

namespace Packrat

/-- Offsets between which no slice can be cut. -/
structure Miscut where
  start : Nat
  stop : Nat
  deriving DecidableEq, Repr

/-- Finds the end of the match of a pattern in a text, in bytes. -/
abbrev Engine := Pattern → Text → Option Nat

namespace Engine

/-- Every end that the engine finds is a character boundary within the text. -/
def Sound (engine : Engine) : Prop :=
  ∀ pattern text stop, engine pattern text = some stop → text.IsBoundary stop

/-- The engine that runs the program of the pattern. -/
def embedded : Engine := fun pattern text =>
  (pattern.matchCount? text).map fun count => Text.byteLength (text.take count)

end Engine

namespace LexRule

/-- The number of bytes in which a text begins with the characters of a literal, alike one by
one. -/
def alikeLength? : Text → Text → Option Nat
  | [], _ => some 0
  | _ :: _, [] => none
  | expected :: others, actual :: text =>
      if alike expected actual then (alikeLength? others text).map (actual.utf8Size + ·) else none

/-- The number of bytes that the rule takes from the front of a text. -/
def lengthBy? (engine : Engine) (rule : LexRule) (caseless : Bool) (text : Text) : Option Nat :=
  match rule with
  | .literal expected =>
      if caseless then alikeLength? expected text
      else if expected.isPrefixOf text then some expected.byteLength
      else none
  | .pattern tried => engine tried text

end LexRule

/-- A number of bytes in a buffer, with the rules for what is ignored there. -/
structure ByteCursor where
  buffer : Text
  offset : Nat
  ignore : List LexRule

namespace ByteCursor

/-- The cursor at the start of a buffer. -/
def start (buffer : Text) (ignore : List LexRule) : ByteCursor := ⟨buffer, 0, ignore⟩

/-- The cursor in the same buffer at the last boundary up to an offset. -/
def moveTo (cursor : ByteCursor) (offset : Nat) : ByteCursor :=
  { cursor with offset := cursor.buffer.floorBoundary offset }

/-- The cursor moved on by a number of bytes. -/
def advance (cursor : ByteCursor) (bytes : Nat) : ByteCursor :=
  cursor.moveTo (cursor.offset + bytes)

/-- Whether nothing is left to read. -/
def atEnd (cursor : ByteCursor) : Bool := cursor.buffer.byteLength ≤ cursor.offset

/-- The slice of the buffer between two offsets. -/
def slice (cursor : ByteCursor) (start stop : Nat) : Except Miscut Slice :=
  match Slice.of? cursor.buffer start stop with
  | some slice => .ok slice
  | none => .error ⟨start, stop⟩

/-- The text of the buffer from an offset on. -/
def textFrom (cursor : ByteCursor) (offset : Nat) : Except Miscut Text :=
  (cursor.slice offset cursor.buffer.byteLength).map (·.text)

/-- The token of a kind between two offsets. -/
def token (cursor : ByteCursor) (kind : TokenKind) (start stop : Nat) : Except Miscut Token :=
  (cursor.slice start stop).map fun slice => ⟨kind, slice.text, slice.start⟩

/-- The offset after what is ignored from an offset on. Every round leads at least a byte further,
so the fuel is the number of bytes that are left. -/
def skipFrom (engine : Engine) (cursor : ByteCursor) : Nat → Nat → Except Miscut Nat
  | 0, offset => .ok offset
  | fuel + 1, offset =>
      if offset < cursor.buffer.byteLength then do
        let rest ← cursor.textFrom offset
        match cursor.ignore.findSome? fun rule =>
            (rule.lengthBy? engine false rest).filter (0 < ·) with
        | some length => skipFrom engine cursor fuel (offset + length)
        | none => return offset
      else .ok offset

/-- The cursor after all that is ignored. -/
def skip (engine : Engine) (cursor : ByteCursor) : Except Miscut ByteCursor :=
  (cursor.skipFrom engine (cursor.buffer.byteLength - cursor.offset) cursor.offset).map
    cursor.moveTo

/-- Skips what is ignored and tries a rule. -/
def scan (engine : Engine) (cursor : ByteCursor) (name : String) (rule : LexRule)
    (caseless : Bool) : Except Miscut (Token × ByteCursor) := do
  let here ← cursor.skip engine
  if here.atEnd then return (← here.token .eof here.offset here.offset, here)
  else
    match rule.lengthBy? engine caseless (← here.textFrom here.offset) with
    | some length =>
        return (← here.token (.rule name) here.offset (here.offset + length), here.advance length)
    | none => return (← here.token .empty here.offset here.offset, here)

end ByteCursor

/-- A tree, and the cursor after the text that it was built from. -/
structure ByteMatch where
  cursor : ByteCursor
  node : Tree

/-- The cursor where a rule fails, and why. -/
structure ByteReject where
  cursor : ByteCursor
  reason : Reason
  kind : RejectKind

/-- What every rule gives. -/
abbrev ByteOutcome := Except ByteReject ByteMatch

/-- The outcomes of productions by their names and offsets. -/
abbrev ByteMemo := String × Nat → Option ByteOutcome

/-- The table before anything is applied. -/
def ByteMemo.empty : ByteMemo := fun _ => none

/-- Keeps an outcome. -/
def ByteMemo.store (memo : ByteMemo) (name : String) (offset : Nat) (outcome : ByteOutcome) :
    ByteMemo :=
  Function.update memo (name, offset) (some outcome)

/-- A computation that uses the table, ends with a slice that cannot be cut, or may not end. -/
abbrev ByteRun := StateT ByteMemo (ExceptT Miscut Option)

namespace ByteRun

/-- A computation that only cuts slices. -/
def check {α : Type} (result : Except Miscut α) : ByteRun α :=
  fun memo => ExceptT.mk (some (result.map fun value => (value, memo)))

/-- Runs a computation on a table. The result is absent if it does not end. -/
def on {α : Type} (action : ByteRun α) (memo : ByteMemo) :
    Option (Except Miscut (α × ByteMemo)) :=
  (StateT.run action memo).run

/-- A computation that does not end. -/
def endless {α : Type} : ByteRun α := fun _ => ExceptT.mk none

end ByteRun

/-- What the rules of a grammar are evaluated with. -/
structure ByteSetting where
  engine : Engine
  lexicon : Lexicon
  apply : String → ByteCursor → ByteRun (Option ByteOutcome)

namespace ByteReject

/-- A mismatch at a cursor. -/
def mismatch (cursor : ByteCursor) (reason : Reason) : ByteReject := ⟨cursor, reason, .mismatch⟩

/-- The reject of a choice at a cursor none of whose alternatives matches. -/
def noAlternative (cursor : ByteCursor) (ambiguity : Option ByteReject) : ByteReject :=
  ambiguity.getD (.mismatch cursor (.noAlternative cursor.offset))

/-- The reject itself if it reports an ambiguity. -/
def ambiguity? (reject : ByteReject) : Option ByteReject :=
  if reject.kind = .ambiguous then some reject else none

end ByteReject

namespace ByteOutcome

/-- The match of nothing at a cursor. -/
def emptyAt (cursor : ByteCursor) : Except Miscut ByteOutcome := do
  return .ok ⟨cursor, .token (← cursor.token .empty cursor.offset cursor.offset)⟩

/-- The match at the end of the text. -/
def atEnd (cursor : ByteCursor) : Except Miscut ByteOutcome := do
  if cursor.atEnd then
    return .ok ⟨cursor, .token (← cursor.token .eof cursor.offset cursor.offset)⟩
  else return .error (.mismatch cursor (.inputLeft cursor.offset))

/-- The ambiguity that an outcome reports. -/
def ambiguity? : ByteOutcome → Option ByteReject
  | .ok _ => none
  | .error reject => reject.ambiguity?

/-- The outcome of a choice whose alternatives have the given outcomes: the only match. -/
def unique (cursor : ByteCursor) (rules : List Rule) (outcomes : List ByteOutcome) :
    ByteOutcome :=
  match outcomes.filterMap Except.toOption with
  | [] => .error (.noAlternative cursor (outcomes.findSome? ambiguity?))
  | [found] => .ok found
  | found =>
      .error ⟨cursor, .severalMatch cursor.offset (Rule.describeAll rules)
        (found.map (·.cursor.offset)), .ambiguous⟩

/-- The outcome of an optional rule: a match of nothing instead of a reject. -/
def orEmpty (cursor : ByteCursor) : ByteOutcome → Except Miscut ByteOutcome
  | .ok found => .ok (.ok found)
  | .error _ => emptyAt cursor

/-- The outcome of a negative lookahead. -/
def absent (cursor : ByteCursor) : ByteOutcome → Except Miscut ByteOutcome
  | .ok found => .ok (.error (.mismatch cursor (.unexpected found.node.shape cursor.offset)))
  | .error _ => emptyAt cursor

/-- The outcome of a positive lookahead. -/
def ahead (cursor : ByteCursor) : ByteOutcome → ByteOutcome
  | .ok found => .ok ⟨cursor, found.node⟩
  | .error reject => .error (.mismatch cursor (.lookahead reject.reason))

/-- The outcome of a reference to a production, which is absent if the grammar does not have
it. -/
def named (name : String) (cursor : ByteCursor) : Option ByteOutcome → ByteOutcome
  | none => .error (.mismatch cursor (.unknownProduction name))
  | some (.ok found) => .ok ⟨found.cursor, .named name found.node⟩
  | some (.error reject) => .error reject

end ByteOutcome

namespace Terminal

/-- Tries a lexical rule at a cursor, after what is ignored. The report of what was found there
looks at the text once more. -/
def tryBytes (terminal : Terminal) (engine : Engine) (name : String) (rule : LexRule)
    (caseless : Bool) (cursor : ByteCursor) : Except Miscut ByteOutcome := do
  let (token, next) ← cursor.scan engine name rule caseless
  match token.kind with
  | .rule _ => return .ok ⟨next, .token token⟩
  | found =>
      let rest ← next.textFrom next.offset
      return .error (.mismatch cursor (.tokenMissing terminal found token.start rest))

/-- Applies a terminal at a cursor. -/
def evalBytes (terminal : Terminal) (engine : Engine) (lexicon : Lexicon) (cursor : ByteCursor) :
    Except Miscut ByteOutcome :=
  match terminal with
  | .listed name =>
      match lexicon.find? name with
      | some rule => terminal.tryBytes engine name rule false cursor
      | none => .ok (.error (.mismatch cursor (.unknownToken name)))
  | .inline name rule caseless => terminal.tryBytes engine name rule caseless cursor

end Terminal

/-- What a repetition has read: the trees, last first, the cursor after them, and the reject that
ended it. -/
structure ByteRounds where
  nodes : List Tree
  cursor : ByteCursor
  failure : Option ByteReject

namespace ByteRounds

/-- Repeats a rule until `max` rounds are done, it rejects, or a round consumes nothing. The fuel
is one more than the number of bytes left. -/
def read (parse : ByteCursor → ByteRun ByteOutcome) (min : Nat) (max : Option Nat) :
    Nat → List Tree → ByteCursor → ByteRun ByteRounds
  | 0, nodes, cursor => pure ⟨nodes, cursor, none⟩
  | fuel + 1, nodes, cursor => do
      if max.any (· ≤ nodes.length) then return ⟨nodes, cursor, none⟩
      match ← parse cursor with
      | .error reject => return ⟨nodes, cursor, some reject⟩
      | .ok found =>
          if cursor.offset < found.cursor.offset then
            read parse min max fuel (found.node :: nodes) found.cursor
          else
            let copies := Nat.max (min - nodes.length) 1
            return ⟨List.replicate copies found.node ++ nodes, found.cursor, none⟩

/-- The outcome of a repetition that started at a cursor. -/
def outcome (rounds : ByteRounds) (cursor : ByteCursor) (rule : Rule) (min : Nat) : ByteOutcome :=
  if rounds.nodes.length < min then
    .error (rounds.failure.getD (.mismatch cursor (.tooFew min rule.describe)))
  else .ok ⟨rounds.cursor, .array rounds.nodes.reverse⟩

end ByteRounds

namespace Rule

mutual

/-- Applies a rule at a cursor. -/
def evalBytes (setting : ByteSetting) : Rule → ByteCursor → ByteRun ByteOutcome
  | .endOfText, cursor => .check (ByteOutcome.atEnd cursor)
  | .empty, cursor => .check (ByteOutcome.emptyAt cursor)
  | .terminal leaf, cursor => .check (leaf.evalBytes setting.engine setting.lexicon cursor)
  | .sequence rules, cursor => do
      return (← evalBytesSequence setting rules cursor).map fun (nodes, next) =>
        ⟨next, .array nodes⟩
  | .choice rules, cursor => do return .unique cursor rules (← evalBytesAll setting rules cursor)
  | .ordered rules, cursor => evalBytesOrdered setting rules cursor none
  | .optional rule, cursor => do
      .check (ByteOutcome.orEmpty cursor (← evalBytes setting rule cursor))
  | .repetition rule min max, cursor => do
      let rounds ← ByteRounds.read (evalBytes setting rule) min max
        (cursor.buffer.byteLength - cursor.offset + 1) [] cursor
      return rounds.outcome cursor rule min
  | .absent rule, cursor => do .check (ByteOutcome.absent cursor (← evalBytes setting rule cursor))
  | .ahead rule, cursor => do return .ahead cursor (← evalBytes setting rule cursor)
  | .reference name, cursor => do return .named name cursor (← setting.apply name cursor)
  | .veiled rule, cursor => evalBytes setting rule cursor

/-- Applies rules one after the other, each where the one before ends. -/
def evalBytesSequence (setting : ByteSetting) :
    List Rule → ByteCursor → ByteRun (Except ByteReject (List Tree × ByteCursor))
  | [], cursor => pure (.ok ([], cursor))
  | rule :: more, cursor => do
      match ← evalBytes setting rule cursor with
      | .error reject => return .error reject
      | .ok found =>
          return (← evalBytesSequence setting more found.cursor).map fun (nodes, next) =>
            (found.node :: nodes, next)

/-- Applies every one of several rules at the same cursor. -/
def evalBytesAll (setting : ByteSetting) : List Rule → ByteCursor → ByteRun (List ByteOutcome)
  | [], _ => pure []
  | rule :: more, cursor => do
      let outcome ← evalBytes setting rule cursor
      return outcome :: (← evalBytesAll setting more cursor)

/-- Applies rules at the same cursor until one matches, keeping the first ambiguity that one of
them reports. -/
def evalBytesOrdered (setting : ByteSetting) :
    List Rule → ByteCursor → Option ByteReject → ByteRun ByteOutcome
  | [], cursor, ambiguity => pure (.error (.noAlternative cursor ambiguity))
  | rule :: more, cursor, ambiguity => do
      match ← evalBytes setting rule cursor with
      | .ok found => return .ok found
      | .error reject => evalBytesOrdered setting more cursor (ambiguity.or reject.ambiguity?)

end

end Rule

namespace Grammar

/-- Applies a production with applications nested at most `depth` deep, unless the table has the
outcome. -/
def applyBytes (grammar : Grammar) (engine : Engine) :
    Nat → String → ByteCursor → ByteRun (Option ByteOutcome)
  | 0, _, _ => .endless
  | depth + 1, name, cursor =>
      match grammar.productions.find? name with
      | none => return none
      | some rule => do
          match (← get) (name, cursor.offset) with
          | some outcome => return some outcome
          | none =>
              let outcome ← rule.evalBytes
                ⟨engine, grammar.lexicon, grammar.applyBytes engine depth⟩ cursor
              modify (·.store name cursor.offset outcome)
              return some outcome

/-- Applies a rule with applications of productions nested at most `depth` deep. -/
def evalBytes (grammar : Grammar) (engine : Engine) (depth : Nat) (rule : Rule)
    (cursor : ByteCursor) : ByteRun ByteOutcome :=
  rule.evalBytes ⟨engine, grammar.lexicon, grammar.applyBytes engine depth⟩ cursor

end Grammar

namespace Parser

/-- What a parser makes of what was found for a production at the start of a text. -/
def answerBytes (engine : Engine) (production : String) (text : Text) (whole : Bool) :
    Option ByteOutcome → Except Miscut (Except Error Tree)
  | none => .ok (.error (.unknownProduction production))
  | some (.error reject) =>
      let position := Position.locate text reject.cursor.offset
      match reject.kind with
      | .mismatch => .ok (.error (.rejected production position reject.reason.message))
      | .ambiguous => .ok (.error (.ambiguous production position reject.reason.message))
  | some (.ok found) => do
      if whole then
        let rest ← found.cursor.skip engine
        if rest.atEnd then return .ok found.node
        else
          return .error (.rejected production (.locate text rest.offset)
            s!"unexpected trailing input at offset {rest.offset}")
      else return .ok found.node

/-- The tree of a production at the start of a text, all of which it has to match but for ignored
text if `whole` is set. -/
def runBytes (parser : Parser) (engine : Engine) (depth : Nat) (production : String) (text : Text)
    (whole : Bool) : ByteRun (Except Error Tree) := do
  let applied ← parser.grammar.applyBytes engine depth production
    (.start text parser.grammar.ignore)
  .check (answerBytes engine production text whole applied)

end Parser

end Packrat
