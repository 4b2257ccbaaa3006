import Packrat.Pattern.CharSet
import Packrat.Pattern.Place

/-! # Regular expressions

A regular expression prefers some of its matches to others: an alternation its left side, a
greedy repetition more rounds to fewer. Expressions are kept in a plain form, which
`Regex.concat`, `Regex.alternation` and `Regex.repeated` restore: characters that stand side by
side are one literal, a choice among single characters is a set, and the parts with which all
branches of an alternation begin stand before it.
-/

namespace Packrat

/-- A regular expression with preferences among its matches. The first part of a sequence is no
sequence, and the first branch of an alternation is no alternation. -/
inductive Regex where
  | empty
  | literal (text : Text)
  | chars (set : CharSet)
  | look (condition : Look)
  /-- The body from `min` to `max` times, or with no upper bound. -/
  | repetition (min : Nat) (max : Option Nat) (greedy : Bool) (body : Regex)
  /-- A numbered group. -/
  | group (index : Nat) (body : Regex)
  | seq (first rest : Regex)
  | alt (preferred other : Regex)
  deriving DecidableEq, Repr

namespace Regex

/-- The expression of one character out of a set. -/
def ofSet (set : CharSet) : Regex :=
  match set.only? with
  | some c => .literal [c]
  | none => .chars set

/-- The parts of a sequence, or the expression itself as the only part. -/
def parts : Regex → List Regex
  | .empty => []
  | .seq first rest => first :: rest.parts
  | regex => [regex]

/-- The branches of an alternation, or the expression itself as the only branch. -/
def branches : Regex → List Regex
  | .alt preferred other => preferred :: other.branches
  | regex => [regex]

/-- The sequence of the given parts. -/
def ofParts : List Regex → Regex
  | [] => .empty
  | [regex] => regex
  | regex :: more => .seq regex (ofParts more)

/-- The alternation of the given branches. -/
def ofBranches : List Regex → Regex
  | [] => .chars .empty
  | [regex] => regex
  | regex :: more => .alt regex (ofBranches more)

/-- Puts a part before others; of two literals it makes one. -/
def joinPart : Regex → List Regex → List Regex
  | .literal text, .literal next :: more => .literal (text ++ next) :: more
  | regex, more => regex :: more

/-- The expressions one after the other. -/
def concat (regexes : List Regex) : Regex :=
  ofParts ((regexes.flatMap parts).foldr joinPart [])

/-- The only character of an expression that is a literal of one character. -/
def character? : Regex → Option CharSet
  | .literal [c] => some (.single c)
  | _ => none

/-- The set of an expression that is a set. -/
def set? : Regex → Option CharSet
  | .chars set => some set
  | _ => none

/-- The choice among branches: a set if all are characters or all are sets. -/
def choice (branches : List Regex) : Regex :=
  match (branches.mapM character?).orElse fun _ => branches.mapM set? with
  | some sets => ofSet (sets.foldr .union .empty)
  | none => ofBranches branches

/-- The parts with which two lists begin alike. -/
def commonParts : List Regex → List Regex → List Regex
  | first :: more, second :: others =>
      if first = second then first :: commonParts more others else []
  | _, _ => []

/-- The parts with which all branches begin, if every branch is a sequence. -/
def sharedParts : List Regex → List Regex
  | .seq first rest :: more =>
      more.foldl (fun shared branch =>
        match branch with
        | .seq _ _ => commonParts shared branch.parts
        | _ => []) (first :: rest.parts)
  | _ => []

/-- The expressions as choices, the first preferred. -/
def alternation (regexes : List Regex) : Regex :=
  match regexes.flatMap branches with
  | [] => .chars .empty
  | [regex] => regex
  | all =>
      match sharedParts all with
      | [] => choice all
      | shared =>
          let rest := all.map fun branch => concat (branch.parts.drop shared.length)
          concat (shared ++ [choice (rest.flatMap branches)])

/-- Whether an expression takes no characters in any match. -/
def takesNone : Regex → Bool
  | .empty => true
  | .literal _ => false
  | .chars _ => false
  | .look _ => true
  | .repetition _ _ _ body => body.takesNone
  | .group _ body => body.takesNone
  | .seq first rest => first.takesNone && rest.takesNone
  | .alt preferred other => preferred.takesNone && other.takesNone

/-- A number of characters that every match has, the largest that the form of the expression
shows. A set without characters has none. -/
def minLength? : Regex → Option Nat
  | .empty => some 0
  | .literal text => some text.length
  | .chars set => if set.ranges.isEmpty then none else some 1
  | .look _ => some 0
  | .repetition min _ _ body => body.minLength?.map (· * min)
  | .group _ body => body.minLength?
  | .seq first rest => do return (← first.minLength?) + (← rest.minLength?)
  | .alt preferred other => do return Nat.min (← preferred.minLength?) (← other.minLength?)

/-- Whether every match is seen to take a character. -/
def advances (regex : Regex) : Bool := regex.minLength?.any (0 < ·)

/-- The body from `min` to `max` times, or with no upper bound. A body that takes no characters
is tried once at the most. -/
def repeated (min : Nat) (max : Option Nat) (greedy : Bool) (body : Regex) : Regex :=
  let least := if body.takesNone then Nat.min min 1 else min
  let most := if body.takesNone then some (Nat.min (max.getD 1) 1) else max
  if most = some 0 then .empty
  else if least = 1 ∧ most = some 1 then body
  else .repetition least most greedy body

/-- Whether a match is seen to begin where the text does. -/
def anchored : Regex → Bool
  | .look .textStart => true
  | .repetition (_ + 1) _ _ body => body.anchored
  | .group _ body => body.anchored
  | .seq first rest => first.anchored || (first.takesNone && rest.anchored)
  | .alt preferred other => preferred.anchored && other.anchored
  | _ => false

/-- Whether a match is seen to end where the text does. -/
def anchoredAtEnd : Regex → Bool
  | .look .textEnd => true
  | .repetition (_ + 1) _ _ body => body.anchoredAtEnd
  | .group _ body => body.anchoredAtEnd
  | .seq first rest => rest.anchoredAtEnd || (rest.takesNone && first.anchoredAtEnd)
  | .alt preferred other => preferred.anchoredAtEnd && other.anchoredAtEnd
  | _ => false

end Regex

end Packrat
