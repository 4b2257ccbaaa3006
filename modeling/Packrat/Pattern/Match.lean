import Packrat.Pattern.Program

/-! # Matching

A program is run on a text from left to right. At every place the runs that are still going are
kept in order of preference; two runs that reach one instruction at one place can only go on
alike, so the later one is dropped. A run that accepts ends all runs after it, and the runs
before it may still replace its match by one that is preferred. Runs that begin further on are
preferred less than those that began before, and none begins once a match was found.
-/

namespace Packrat

/-- The runs that reach a place: which instructions were met, those that wait for a character,
last first, and whether a run accepted. -/
structure Frontier where
  met : Array Bool
  waiting : List Nat
  accepted : Bool
  deriving DecidableEq, Repr

namespace Frontier

/-- No run has reached the place, for a program of so many instructions. -/
def empty (size : Nat) : Frontier := ⟨Array.replicate size false, [], false⟩

/-- Whether a run has met an instruction. -/
def hasMet (frontier : Frontier) (number : Nat) : Bool := frontier.met.getD number false

/-- Notes that a run has met an instruction. -/
def meet (frontier : Frontier) (number : Nat) : Frontier :=
  let ⟨met, waiting, accepted⟩ := frontier
  ⟨met.setIfInBounds number true, waiting, accepted⟩

/-- Adds a run that waits for a character. -/
def wait (frontier : Frontier) (number : Nat) : Frontier :=
  let ⟨met, waiting, accepted⟩ := frontier
  ⟨met, number :: waiting, accepted⟩

end Frontier

namespace Program

/-- Follows instructions from the given numbers up to those that take a character. Every
instruction is followed once, and nothing is followed after a run has accepted. The fuel bounds
the numbers looked at. -/
def explore (program : Program) (place : Place) : Nat → List Nat → Frontier → Frontier
  | 0, _, frontier => frontier
  | _, [], frontier => frontier
  | fuel + 1, number :: more, frontier =>
      if frontier.accepted then frontier
      else if frontier.hasMet number then program.explore place fuel more frontier
      else
        let frontier := frontier.meet number
        match program.code[number]? with
        | some (.take _ _) => program.explore place fuel more (frontier.wait number)
        | some (.check condition next) =>
            program.explore place fuel (if condition.holds place then next :: more else more)
              frontier
        | some (.split preferred other) =>
            program.explore place fuel (preferred :: other :: more) frontier
        | some .accept => { frontier with accepted := true }
        | none => program.explore place fuel more frontier

/-- The runs that reach a place from one instruction, after those that reached it before. Every
instruction leads to two numbers at the most. -/
def reach (program : Program) (place : Place) (frontier : Frontier) (number : Nat) : Frontier :=
  program.explore place (2 * program.code.size + 2) [number] frontier

/-- Lets the waiting runs, in order of preference, take the character before a place. -/
def step (program : Program) (c : Char) (place : Place) (waiting : List Nat) : Frontier :=
  waiting.foldl
    (fun frontier (number : Nat) =>
      match program.code[number]? with
      | some (.take set next) =>
          if set.contains c then program.reach place frontier next else frontier
      | _ => frontier)
    (.empty program.code.size)

/-- Runs a program from a place on. `found` is where the preferred match so far ends, and
`searching` says whether matches may begin further on. -/
def advance (program : Program) (searching : Bool) (found : Option Nat) (index : Nat)
    (frontier : Frontier) : Text → Option Nat
  | [] => if frontier.accepted then some index else found
  | c :: rest =>
      let found := if frontier.accepted then some index else found
      let searching := searching && found.isNone
      if frontier.waiting.isEmpty && !searching then found
      else
        let place : Place := ⟨index + 1, some c, rest⟩
        let next := program.step c place frontier.waiting.reverse
        program.advance searching found (index + 1)
          (if searching then program.reach place next program.entry else next) rest

/-- Where the preferred match in a text ends: the one that begins with the text or, when
`searching`, the leftmost. -/
def matchEnd? (program : Program) (searching : Bool) (text : Text) : Option Nat :=
  program.advance searching none 0
    (program.reach (.start text) (.empty program.code.size) program.entry) text

end Program

end Packrat
