import Packrat.Pattern.Regex
import Packrat.Pattern.Symbol

/-! # Reading patterns

The symbols of a pattern are put together from left to right. Groups are kept on a stack, each
with the branches and the parts read so far and the flags to return to. A mark of repetition
applies to the part before it, of which there must be one, and every group must be closed.
Groups, repetitions, classes, sequences and alternations may be nested in one another up to a
limit.
-/

namespace Packrat.Pattern

/-- A part of a branch: its expression, how deep it is nested, and whether it can be repeated,
which flags cannot. -/
structure Part where
  regex : Regex
  depth : Nat
  repeatable : Bool := true
  deriving DecidableEq, Repr

namespace Part

/-- The part that a list of parts makes; more parts than one are one level deeper. -/
def ofParts (build : List Regex → Regex) (parts : List Part) : Part where
  regex := build (parts.map Part.regex)
  depth :=
    let deepest := (parts.map Part.depth).foldl max 0
    if 2 ≤ parts.length then deepest + 1 else deepest

end Part

/-- An open group: the flags to return to after it, its number if it has one, the branches that
are finished, and the parts of the one that is not, both last first. -/
structure Group where
  outer : Flags
  number : Option Nat
  branches : List Part
  parts : List Part
  deriving DecidableEq, Repr

namespace Group

/-- The branch that is not finished. -/
def branch (group : Group) : Part := .ofParts .concat group.parts.reverse

/-- The expression between the brackets of the group. -/
def content (group : Group) : Part :=
  .ofParts .alternation (group.branch :: group.branches).reverse

/-- The group as a part. -/
def part (group : Group) : Part :=
  let content := group.content
  { regex :=
      match group.number with
      | some number => .group number content.regex
      | none => content.regex
    depth := content.depth + 1 }

end Group

/-- What has been read of a pattern: the flags in force, the group being read and those around
it, innermost first, how many groups have numbers, and the names of groups. -/
structure Reader where
  flags : Flags
  group : Group
  around : List Group
  numbered : Nat
  names : List Text
  deriving DecidableEq, Repr

namespace Reader

/-- Nothing read yet. -/
def start : Reader := ⟨{}, ⟨{}, none, [], []⟩, [], 0, []⟩

/-- Adds a part to the branch being read. -/
def push (reader : Reader) (part : Part) : Reader :=
  { reader with group := { reader.group with parts := part :: reader.group.parts } }

/-- Adds an expression that contains no others. -/
def pushRegex (reader : Reader) (regex : Regex) : Reader := reader.push { regex, depth := 0 }

/-- Opens a group. -/
def openGroup (reader : Reader) (number : Option Nat) : Reader :=
  { reader with
    group := ⟨reader.flags, number, [], []⟩
    around := reader.group :: reader.around }

/-- The characters that a dot stands for. -/
def anyChar? (flags : Flags) : Option CharSet :=
  if !flags.unicode then none
  else if flags.dotAll then some .all
  else if flags.carriageReturns then
    some ((CharSet.single '\n').union (.single '\r')).complement
  else some (CharSet.single '\n').complement

/-- The condition that a caret stands for. -/
def lineStart (flags : Flags) : Look :=
  if !flags.multiLine then .textStart
  else if flags.carriageReturns then .lineStartAfterReturn
  else .lineStart

/-- The condition that a dollar sign stands for. -/
def lineEnd (flags : Flags) : Look :=
  if !flags.multiLine then .textEnd
  else if flags.carriageReturns then .lineEndBeforeReturn
  else .lineEnd

/-- Reads one more symbol. -/
def step? (reader : Reader) : Symbol → Option Reader
  | .char c => some (reader.pushRegex (.ofSet (reader.flags.fold (.single c))))
  | .set value => some (reader.push { regex := .ofSet value.set, depth := value.depth })
  | .anyChar => (anyChar? reader.flags).map fun set => reader.pushRegex (.ofSet set)
  | .lineStart => some (reader.pushRegex (.look (lineStart reader.flags)))
  | .lineEnd => some (reader.pushRegex (.look (lineEnd reader.flags)))
  | .look condition => some (reader.pushRegex (.look condition))
  | .opening changes =>
      some { reader.openGroup none with flags := changes.foldl .set reader.flags }
  | .capturing name =>
      if name.any (reader.names.contains ·) then none
      else
        some { reader.openGroup (some reader.numbered) with
          numbered := reader.numbered + 1
          names := name.toList ++ reader.names }
  | .setting changes =>
      some { reader.push { regex := .empty, depth := 0, repeatable := false } with
        flags := changes.foldl .set reader.flags }
  | .closing =>
      match reader.around with
      | [] => none
      | outer :: around =>
          let closed := { reader with flags := reader.group.outer, group := outer, around }
          some (closed.push reader.group.part)
  | .bar =>
      some { reader with
        group := { reader.group with
          branches := reader.group.branch :: reader.group.branches
          parts := [] } }
  | .repetition min max greedy =>
      match reader.group.parts with
      | part :: parts =>
          if part.repeatable then
            let repeated : Part :=
              { regex := .repeated min max (greedy != reader.flags.swapGreed) part.regex
                depth := part.depth + 1 }
            some { reader with group := { reader.group with parts := repeated :: parts } }
          else none
      | [] => none

/-- Reads a text to its end. The fuel is the length of the text. -/
def readOn? (reader : Reader) : Nat → Text → Option Reader
  | 0, text => if (reader.flags.skip text).isEmpty then some reader else none
  | fuel + 1, text =>
      match reader.flags.skip text with
      | [] => some reader
      | text => do
          let (symbol, rest) ← Symbol.next? reader.flags text
          (← reader.step? symbol).readOn? fuel rest

/-- How deep expressions may be nested. -/
def depthLimit : Nat := 250

/-- The expression read, once every group is closed. -/
def finish? (reader : Reader) : Option Regex :=
  let content := reader.group.content
  if reader.around.isEmpty ∧ content.depth ≤ depthLimit then some content.regex else none

end Reader

end Packrat.Pattern

namespace Packrat

/-- The expression that a written pattern stands for, if it is well formed. -/
def Regex.read? (source : Text) : Option Regex := do
  let reader ← Pattern.Reader.start.readOn? source.length source
  reader.finish?

end Packrat
