import Packrat.Pattern.CharSet
import Packrat.Text.Basic

/-! # Flags

The flags in force at a place of a written pattern say how what stands there is read: whether
letters match in either case, which line ends count, whether classes are those of Unicode or of
ASCII, and whether blanks and comments are skipped.
-/

namespace Packrat

/-- What `(?` can switch on and off. -/
inductive Flag where
  | caseless
  | multiLine
  | dotAll
  | swapGreed
  | unicode
  | carriageReturns
  | verbose
  deriving DecidableEq, Repr

/-- The flags in force at a place of a pattern. -/
structure Flags where
  caseless : Bool := false
  multiLine : Bool := false
  dotAll : Bool := false
  swapGreed : Bool := false
  unicode : Bool := true
  carriageReturns : Bool := false
  verbose : Bool := false
  deriving DecidableEq, Repr

/-- The flag of a letter. -/
def Flag.ofLetter? : Char → Option Flag
  | 'i' => some .caseless
  | 'm' => some .multiLine
  | 's' => some .dotAll
  | 'U' => some .swapGreed
  | 'u' => some .unicode
  | 'R' => some .carriageReturns
  | 'x' => some .verbose
  | _ => none

namespace Flags

/-- Sets one flag. -/
def set (flags : Flags) : Flag × Bool → Flags
  | (.caseless, on) => { flags with caseless := on }
  | (.multiLine, on) => { flags with multiLine := on }
  | (.dotAll, on) => { flags with dotAll := on }
  | (.swapGreed, on) => { flags with swapGreed := on }
  | (.unicode, on) => { flags with unicode := on }
  | (.carriageReturns, on) => { flags with carriageReturns := on }
  | (.verbose, on) => { flags with verbose := on }

/-- The set that matches under the flags where the given one was written. -/
def fold (flags : Flags) (set : CharSet) : CharSet :=
  if flags.caseless then
    set.folded (if flags.unicode then CharClass.folds else CharClass.asciiFolds)
  else set

/-- The complement of a set, which has to be one of ASCII characters without Unicode. -/
def complement? (flags : Flags) (set : CharSet) : Option CharSet :=
  let rest := set.complement
  if flags.unicode || rest.isAscii then some rest else none

/-- The text after its leading blanks and comments. A comment goes from `#` to the end of the
line. -/
def skipBlanks (inComment : Bool) : Text → Text
  | [] => []
  | c :: rest =>
      if inComment then skipBlanks (c != '\n') rest
      else if CharClass.isBlank c then skipBlanks false rest
      else if c = '#' then skipBlanks true rest
      else c :: rest

/-- The text after what the flags let stand anywhere. -/
def skip (flags : Flags) (text : Text) : Text :=
  if flags.verbose then skipBlanks false text else text

/-- The longest run of accepted characters and the text after it, blanks and comments between
them left out. -/
def verboseRun (accepts : Char → Bool) (inComment : Bool) : Text → Text × Text
  | [] => ([], [])
  | c :: rest =>
      if inComment then verboseRun accepts (c != '\n') rest
      else if accepts c then
        let (run, after) := verboseRun accepts false rest
        (c :: run, after)
      else if CharClass.isBlank c then verboseRun accepts false rest
      else if c = '#' then verboseRun accepts true rest
      else ([], c :: rest)

/-- The longest run of accepted characters and the text after it. -/
def takeRun (flags : Flags) (accepts : Char → Bool) (text : Text) : Text × Text :=
  if flags.verbose then verboseRun accepts false text
  else (text.takeWhile accepts, text.dropWhile accepts)

end Flags

end Packrat
