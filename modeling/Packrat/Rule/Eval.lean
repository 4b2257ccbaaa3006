import Packrat.Lexicon.Scan
import Packrat.Rule.Outcome

/-! # Evaluating rules

`Rule.eval` applies a rule at a cursor. It leaves open how the productions of the grammar are
applied and in which monad that happens, so the same definition serves with a table of earlier
results and without one. It is structural in the rule, and a repetition goes on only while its
rounds consume text.
-/

namespace Packrat

/-- What the rules of a grammar are evaluated with. -/
structure Setting (m : Type → Type) where
  lexicon : Lexicon
  ignore : List LexRule
  /-- Applies the production of a name, if there is one. -/
  apply : String → Cursor → m (Option Outcome)

namespace Terminal

/-- Tries a lexical rule at a cursor, after what is ignored. -/
def tryRule (terminal : Terminal) (ignore : List LexRule) (name : String) (rule : LexRule)
    (caseless : Bool) (cursor : Cursor) : Outcome :=
  let (token, next) := cursor.scan ignore name rule caseless
  match token.kind with
  | .rule _ => .ok ⟨next, .token token⟩
  | found => .error (.mismatch cursor (.tokenMissing terminal found token.start next.rest))

/-- Applies a terminal at a cursor. -/
def eval (lexicon : Lexicon) (ignore : List LexRule) (terminal : Terminal) (cursor : Cursor) :
    Outcome :=
  match terminal with
  | .listed name =>
      match lexicon.find? name with
      | some rule => terminal.tryRule ignore name rule false cursor
      | none => .error (.mismatch cursor (.unknownToken name))
  | .inline name rule caseless => terminal.tryRule ignore name rule caseless cursor

end Terminal

namespace Outcome

/-- The match at the end of the text. -/
def atEnd (cursor : Cursor) : Outcome :=
  if cursor.atEnd then .ok ⟨cursor, .token (.eof cursor.offset)⟩
  else .error (.mismatch cursor (.inputLeft cursor.offset))

/-- The outcome of a choice whose alternatives have the given outcomes: the only match. -/
def unique (cursor : Cursor) (rules : List Rule) (outcomes : List Outcome) : Outcome :=
  match successes outcomes with
  | [] => .error (.noAlternative cursor (ambiguity? outcomes))
  | [found] => .ok found
  | found =>
      .error ⟨cursor, .severalMatch cursor.offset (Rule.describeAll rules)
        (found.map (·.cursor.offset)), .ambiguous⟩

/-- The outcome of an optional rule: a match of nothing instead of a reject. -/
def orEmpty (cursor : Cursor) : Outcome → Outcome
  | .ok found => .ok found
  | .error _ => .ok (.emptyAt cursor)

/-- The outcome of a negative lookahead. -/
def absent (cursor : Cursor) : Outcome → Outcome
  | .ok found => .error (.mismatch cursor (.unexpected found.node.shape cursor.offset))
  | .error _ => .ok (.emptyAt cursor)

/-- The outcome of a positive lookahead. -/
def ahead (cursor : Cursor) : Outcome → Outcome
  | .ok found => .ok ⟨cursor, found.node⟩
  | .error reject => .error (.mismatch cursor (.lookahead reject.reason))

/-- The outcome of a reference to a production, which is absent if the grammar does not have
it. -/
def named (name : String) (cursor : Cursor) : Option Outcome → Outcome
  | none => .error (.mismatch cursor (.unknownProduction name))
  | some (.ok found) => .ok ⟨found.cursor, .named name found.node⟩
  | some (.error reject) => .error reject

end Outcome

/-- What a repetition has read: the trees, last first, the cursor after them, and the reject that
ended it. -/
structure Rounds where
  nodes : List Tree
  cursor : Cursor
  failure : Option Reject

namespace Rounds

variable {m : Type → Type} [Monad m]

/-- Repeats a rule until `max` rounds are done, it rejects, or a round consumes nothing. Such a
round would go on for ever with the same tree, so it counts for as many as `min` asks for. The
fuel is one more than the number of characters left. -/
def read (parse : Cursor → m Outcome) (min : Nat) (max : Option Nat) :
    Nat → List Tree → Cursor → m Rounds
  | 0, nodes, cursor => pure ⟨nodes, cursor, none⟩
  | fuel + 1, nodes, cursor => do
      if max.any (· ≤ nodes.length) then return ⟨nodes, cursor, none⟩
      match ← parse cursor with
      | .error reject => return ⟨nodes, cursor, some reject⟩
      | .ok found =>
          if found.cursor.rest.length < cursor.rest.length then
            read parse min max fuel (found.node :: nodes) found.cursor
          else
            let copies := Nat.max (min - nodes.length) 1
            return ⟨List.replicate copies found.node ++ nodes, found.cursor, none⟩

/-- The outcome of a repetition that started at a cursor. -/
def outcome (rounds : Rounds) (cursor : Cursor) (rule : Rule) (min : Nat) : Outcome :=
  if rounds.nodes.length < min then
    .error (rounds.failure.getD (.mismatch cursor (.tooFew min rule.describe)))
  else .ok ⟨rounds.cursor, .array rounds.nodes.reverse⟩

end Rounds

namespace Rule

variable {m : Type → Type} [Monad m]

mutual

/-- Applies a rule at a cursor. -/
def eval (setting : Setting m) : Rule → Cursor → m Outcome
  | .endOfText, cursor => pure (.atEnd cursor)
  | .empty, cursor => pure (.ok (.emptyAt cursor))
  | .terminal leaf, cursor => pure (leaf.eval setting.lexicon setting.ignore cursor)
  | .sequence rules, cursor => do
      return (← evalSequence setting rules cursor).map fun (nodes, next) => ⟨next, .array nodes⟩
  | .choice rules, cursor => do
      return .unique cursor rules (← evalAll setting rules cursor)
  | .ordered rules, cursor => evalOrdered setting rules cursor none
  | .optional rule, cursor => do return .orEmpty cursor (← eval setting rule cursor)
  | .repetition rule min max, cursor => do
      let rounds ← Rounds.read (eval setting rule) min max (cursor.rest.length + 1) [] cursor
      return rounds.outcome cursor rule min
  | .absent rule, cursor => do return .absent cursor (← eval setting rule cursor)
  | .ahead rule, cursor => do return .ahead cursor (← eval setting rule cursor)
  | .reference name, cursor => do return .named name cursor (← setting.apply name cursor)
  | .veiled rule, cursor => eval setting rule cursor

/-- Applies rules one after the other, each where the one before ends. -/
def evalSequence (setting : Setting m) :
    List Rule → Cursor → m (Except Reject (List Tree × Cursor))
  | [], cursor => pure (.ok ([], cursor))
  | rule :: more, cursor => do
      match ← eval setting rule cursor with
      | .error reject => return .error reject
      | .ok found =>
          return (← evalSequence setting more found.cursor).map fun (nodes, next) =>
            (found.node :: nodes, next)

/-- Applies every one of several rules at the same cursor. -/
def evalAll (setting : Setting m) : List Rule → Cursor → m (List Outcome)
  | [], _ => pure []
  | rule :: more, cursor => do
      let outcome ← eval setting rule cursor
      return outcome :: (← evalAll setting more cursor)

/-- Applies rules at the same cursor until one matches, keeping the first ambiguity that one of
them reports. -/
def evalOrdered (setting : Setting m) : List Rule → Cursor → Option Reject → m Outcome
  | [], cursor, ambiguity => pure (.error (.noAlternative cursor ambiguity))
  | rule :: more, cursor, ambiguity => do
      match ← eval setting rule cursor with
      | .ok found => return .ok found
      | .error reject =>
          evalOrdered setting more cursor
            (ambiguity.or (if reject.isAmbiguous then some reject else none))

end

end Rule

end Packrat
