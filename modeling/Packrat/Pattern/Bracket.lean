import Packrat.Pattern.Escape

/-! # Classes between square brackets

A class lists characters, ranges, escapes and classes within it. The operations `&&`, `--` and
`~~` take the common characters, the characters of the left side only and those of one side
only; they have the same rank and group to the left, and what stands between two of them is one
operand. A caret after the opening bracket takes the other characters.
-/

namespace Packrat.Pattern

/-- An operation on two sets of characters. -/
inductive SetOperation where
  | intersection
  | difference
  | symmetricDifference
  deriving DecidableEq, Repr

/-- The result of an operation. -/
def SetOperation.apply : SetOperation → CharSet → CharSet → CharSet
  | .intersection, left, right => left.intersection right
  | .difference, left, right => left.difference right
  | .symmetricDifference, left, right => left.symmetricDifference right

/-- A class that was read: its characters, and how deep classes and operations are nested. -/
structure ClassValue where
  set : CharSet
  depth : Nat
  deriving DecidableEq, Repr

/-- An open class: whether it takes the other characters, the operand and the operation that
wait for another operand, and the items of the operand being read, with their number and the
depth of the deepest. -/
structure Bracket where
  negated : Bool
  left : Option (ClassValue × SetOperation)
  set : CharSet
  items : Nat
  depth : Nat
  deriving DecidableEq, Repr

namespace Bracket

/-- Adds an item to the operand being read. -/
def push (bracket : Bracket) (item : ClassValue) : Bracket :=
  { bracket with
    set := bracket.set.union item.set
    items := bracket.items + 1
    depth := max bracket.depth item.depth }

/-- Adds characters to the operand being read. -/
def pushSet (bracket : Bracket) (set : CharSet) : Bracket := bracket.push ⟨set, 0⟩

/-- All operands so far, combined. Several items of one operand are one level deeper than the
items. -/
def operand (flags : Flags) (bracket : Bracket) : ClassValue :=
  let last : ClassValue :=
    ⟨bracket.set, if 2 ≤ bracket.items then bracket.depth + 1 else bracket.depth⟩
  match bracket.left with
  | none => last
  | some (first, operation) =>
      ⟨operation.apply (flags.fold first.set) (flags.fold last.set),
        max first.depth last.depth + 1⟩

/-- Begins another operand. -/
def operate (flags : Flags) (bracket : Bracket) (operation : SetOperation) : Bracket :=
  ⟨bracket.negated, some (bracket.operand flags, operation), .empty, 0, 0⟩

/-- The class, once its bracket is closed. -/
def close? (flags : Flags) (bracket : Bracket) : Option ClassValue := do
  let value := bracket.operand flags
  let set := flags.fold value.set
  let set ← if bracket.negated then flags.complement? set else some set
  if flags.unicode || set.isAscii then some ⟨set, value.depth + 1⟩ else none

/-- Reads the beginning of a class after its bracket: a caret, hyphens, or a closing bracket that
stands for itself. -/
def begin (flags : Flags) (text : Text) : Bracket × Text :=
  let text := flags.skip text
  let negated := text.head? = some '^'
  let text := if negated then flags.skip text.tail else text
  let fresh : Bracket := ⟨negated, none, .empty, 0, 0⟩
  let (hyphens, after) := flags.takeRun (· = '-') text
  if hyphens.isEmpty then
    match text with
    | ']' :: rest => (fresh.pushSet (.single ']'), flags.skip rest)
    | _ => (fresh, text)
  else (hyphens.foldl (fun bracket _ => bracket.pushSet (.single '-')) fresh, after)

/-- Reads one character or escape. -/
def readItem? (flags : Flags) : Text → Option (Escape × Text)
  | [] => none
  | '\\' :: rest => Escape.read? flags rest
  | c :: rest => some (.char c, rest)

/-- The set of an item that stands alone. -/
def itemSet? : Escape → Option CharSet
  | .char c => some (.single c)
  | .set set => some set
  | .look _ => none

/-- The set of a range between two items. -/
def rangeSet? : Escape → Escape → Option CharSet
  | .char low, .char high => if low ≤ high then some (.range low high) else none
  | _, _ => none

/-- The character that decides whether the hyphen before a text makes a range. Of a comment only
the first character counts. -/
def ahead? (flags : Flags) (text : Text) : Option Char :=
  if flags.verbose then
    match text.dropWhile CharClass.isBlank with
    | '#' :: rest => (rest.dropWhile CharClass.isBlank).head?
    | rest => rest.head?
  else text.head?

/-- Reads an item or a range. A hyphen makes a range unless the closing bracket or another
hyphen follows it. -/
def readRange? (flags : Flags) (text : Text) : Option (CharSet × Text) := do
  let (low, rest) ← readItem? flags text
  match flags.skip rest with
  | '-' :: more =>
      if ahead? flags more = some ']' ∨ ahead? flags more = some '-' then
        return (← itemSet? low, '-' :: more)
      else
        let (high, after) ← readItem? flags (flags.skip more)
        return (← rangeSet? low high, after)
  | rest => return (← itemSet? low, rest)

/-- Reads the name of a set between colons, after the bracket before them. A caret before the
name takes the other characters. -/
def readName? (flags : Flags) : Text → Option (CharSet × Text)
  | ':' :: rest =>
      let negated := rest.head? = some '^'
      let rest := if negated then rest.tail else rest
      match rest.dropWhile (· != ':') with
      | ':' :: ']' :: after => do
          let named ← CharSet.named? (String.ofList (rest.takeWhile (· != ':')))
          let set := flags.fold named
          some (if negated then set.complement else set, after)
      | _ => none
  | _ => none

/-- Reads a class up to its closing bracket, given the classes around it, innermost first. The
fuel is more than the length of the text. -/
def readOn? (flags : Flags) : Nat → List Bracket → Bracket → Text → Option (ClassValue × Text)
  | 0, _, _, _ => none
  | fuel + 1, around, bracket, text =>
      match flags.skip text with
      | [] => none
      | ']' :: rest => do
          let value ← bracket.close? flags
          match around with
          | [] => some (value, rest)
          | outer :: others => readOn? flags fuel others (outer.push value) rest
      | '[' :: rest =>
          match readName? flags rest with
          | some (set, after) => readOn? flags fuel around (bracket.pushSet set) after
          | none =>
              let (inner, after) := begin flags rest
              readOn? flags fuel (bracket :: around) inner after
      | '&' :: '&' :: rest => readOn? flags fuel around (bracket.operate flags .intersection) rest
      | '-' :: '-' :: rest => readOn? flags fuel around (bracket.operate flags .difference) rest
      | '~' :: '~' :: rest =>
          readOn? flags fuel around (bracket.operate flags .symmetricDifference) rest
      | item => do
          let (set, after) ← readRange? flags item
          readOn? flags fuel around (bracket.pushSet set) after

/-- Reads a class after its opening bracket. -/
def read? (flags : Flags) (text : Text) : Option (ClassValue × Text) :=
  let (bracket, rest) := begin flags text
  readOn? flags (text.length + 1) [] bracket rest

end Bracket

end Packrat.Pattern
