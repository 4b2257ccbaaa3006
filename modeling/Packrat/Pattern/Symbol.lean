import Packrat.Pattern.Bracket

/-! # The symbols of a written pattern

A written pattern is a row of symbols: characters, classes, conditions, group brackets and marks
of repetition. How many characters make a symbol depends on the flags in force before it.
-/

namespace Packrat.Pattern

/-- A symbol of a written pattern. -/
inductive Symbol where
  | char (c : Char)
  /-- A class, with the depth of its nesting. -/
  | set (value : ClassValue)
  | anyChar
  | lineStart
  | lineEnd
  | look (condition : Look)
  /-- A group opens, with flags set within it. -/
  | opening (changes : List (Flag × Bool))
  /-- A numbered group opens, which may have a name. -/
  | capturing (name : Option Text)
  /-- Flags are set up to the end of the group. -/
  | setting (changes : List (Flag × Bool))
  | closing
  | bar
  | repetition (min : Nat) (max : Option Nat) (greedy : Bool)
  deriving DecidableEq, Repr

namespace Symbol

/-- Reads flag letters up to a colon, which opens a group, or a closing bracket. Letters after
the hyphen, of which there is one at most, switch off. No flag may come twice and the hyphen not
last. -/
def readFlags? (changes : List (Flag × Bool)) (on waiting : Bool) :
    Text → Option (Symbol × Text)
  | [] => none
  | ':' :: rest => if waiting then none else some (.opening changes, rest)
  | ')' :: rest =>
      if waiting || changes.isEmpty then none else some (.setting changes, rest)
  | '-' :: rest => if on then readFlags? changes false true rest else none
  | c :: rest => do
      let flag ← Flag.ofLetter? c
      if changes.any (·.1 = flag) then none
      else readFlags? (changes ++ [(flag, on)]) on false rest

/-- Whether a character can begin the name of a group. -/
def beginsName (c : Char) : Bool := c = '_' || (CharClass.isWord c && !CharClass.isDigit c)

/-- Whether a character can stand in the name of a group. -/
def continuesName (c : Char) : Bool :=
  c = '_' || c = '.' || c = '[' || c = ']' || CharClass.isWord c

/-- Reads the name of a group up to its closing angle bracket. -/
def readName? (text : Text) : Option (Symbol × Text) :=
  match text.takeWhile (· != '>'), text.dropWhile (· != '>') with
  | first :: more, '>' :: rest =>
      if beginsName first && more.all continuesName then
        some (.capturing (some (first :: more)), rest)
      else none
  | _, _ => none

/-- Reads what follows the bracket that opens a group. -/
def readOpening? (flags : Flags) (text : Text) : Option (Symbol × Text) :=
  match flags.skip text with
  | '?' :: '=' :: _ | '?' :: '!' :: _ => none
  | '?' :: '<' :: '=' :: _ | '?' :: '<' :: '!' :: _ => none
  | '?' :: '<' :: rest | '?' :: 'P' :: '<' :: rest => readName? rest
  | '?' :: rest => readFlags? [] true false rest
  | rest => some (.capturing none, rest)

/-- Reads a count, with blanks on either side. -/
def readCount? (flags : Flags) (text : Text) : Option (Nat × Text) :=
  let (digits, rest) :=
    flags.takeRun CharClass.isAsciiDigit ((flags.skip text).dropWhile CharClass.isBlank)
  ((Numeral.read 10 (Nat.pow 2 32) digits).toOption).map (·, rest.dropWhile CharClass.isBlank)

/-- Reads a repetition mark whose bounds are known, with the `?` that makes it lazy. -/
def readGreed (min : Nat) (max : Option Nat) : Text → Symbol × Text
  | '?' :: rest => (.repetition min max false, rest)
  | rest => (.repetition min max true, rest)

/-- Reads the bounds of a repetition after the opening brace. -/
def readBounds? (flags : Flags) (text : Text) : Option (Symbol × Text) := do
  let (min, rest) ← readCount? flags text
  match rest with
  | '\x7d' :: after => some (readGreed min (some min) (flags.skip after))
  | ',' :: more =>
      match flags.skip more with
      | '\x7d' :: after => some (readGreed min none (flags.skip after))
      | more =>
          let (max, rest) ← readCount? flags more
          match rest with
          | '\x7d' :: after =>
              if min ≤ max then some (readGreed min (some max) (flags.skip after)) else none
          | _ => none
  | _ => none

/-- Reads the first symbol of a text. -/
def next? (flags : Flags) : Text → Option (Symbol × Text)
  | [] => none
  | '\\' :: rest =>
      (Escape.read? flags rest).map fun
        | (.char c, after) => (.char c, after)
        | (.set members, after) => (.set ⟨members, 0⟩, after)
        | (.look condition, after) => (.look condition, after)
  | '[' :: rest => (Bracket.read? flags rest).map fun (value, after) => (.set value, after)
  | '(' :: rest => readOpening? flags rest
  | ')' :: rest => some (.closing, rest)
  | '|' :: rest => some (.bar, rest)
  | '.' :: rest => some (.anyChar, rest)
  | '^' :: rest => some (.lineStart, rest)
  | '$' :: rest => some (.lineEnd, rest)
  | '*' :: rest => some (readGreed 0 none rest)
  | '+' :: rest => some (readGreed 1 none rest)
  | '?' :: rest => some (readGreed 0 (some 1) rest)
  | '\x7b' :: rest => readBounds? flags rest
  | c :: rest => some (.char c, rest)

end Symbol

end Packrat.Pattern
