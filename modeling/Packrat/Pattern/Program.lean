import Packrat.Pattern.Regex

/-! # Programs

A program is a list of instructions, each of which names those that come next. `Regex.emit`
builds the instructions of an expression in front of those that follow it: a repetition that is
counted becomes so many copies, and one that is not becomes a loop whose last instruction
decides between another round and going on.
-/

namespace Packrat

/-- One step of matching at a place. -/
inductive Instruction where
  /-- Takes a character of the set. -/
  | take (set : CharSet) (next : Nat)
  | check (condition : Look) (next : Nat)
  /-- Goes on in either of two ways. -/
  | split (preferred other : Nat)
  | accept
  deriving DecidableEq, Repr

/-- Instructions by their numbers, and the one to begin with. -/
structure Program where
  code : Array Instruction
  entry : Nat
  deriving Repr

namespace Program

/-- The program that accepts at once. -/
def accepting : Program := ⟨#[.accept], 0⟩

/-- The program that begins with one more instruction. -/
def push (program : Program) (instruction : Instruction) : Program :=
  let ⟨code, _⟩ := program
  let number := code.size
  ⟨code.push instruction, number⟩

/-- The instruction that goes on in either of two ways, the first preferred if `greedy`. -/
def branch (greedy : Bool) (longer shorter : Nat) : Instruction :=
  if greedy then .split longer shorter else .split shorter longer

/-- Applies a step so many times. -/
def times : Nat → (Program → Program) → Program → Program
  | 0, _, program => program
  | count + 1, step, program => times count step (step program)

/-- A loop of rounds in front of a program: the program that begins with a round, and the number
of the instruction that decides about another. -/
def loop (greedy : Bool) (round : Program → Program) (follow : Program) : Program × Nat :=
  let ⟨code, next⟩ := follow
  let decision := code.size
  let ⟨code, entry⟩ := round ⟨code.push .accept, decision⟩
  (⟨code.setIfInBounds decision (branch greedy entry next), entry⟩, decision)

/-- At most `count` rounds in front of a program, each of them only after the one before. -/
def upTo (count : Nat) (greedy : Bool) (round : Program → Program) (follow : Program) : Program :=
  let next := follow.entry
  times count
    (fun program =>
      let ⟨code, entry⟩ := round program
      push ⟨code, entry⟩ (branch greedy entry next))
    follow

end Program

namespace Regex

/-- The program that matches an expression and goes on with another program. -/
def emit : Regex → Program → Program
  | .empty, follow => follow
  | .literal text, follow =>
      text.foldr (fun c program => program.push (.take (.single c) program.entry)) follow
  | .chars set, follow => follow.push (.take set follow.entry)
  | .look condition, follow => follow.push (.check condition follow.entry)
  | .repetition min (some max) greedy body, follow =>
      .times min body.emit (.upTo (max - min) greedy body.emit follow)
  | .repetition 0 none greedy body, follow =>
      let next := follow.entry
      let (⟨code, entry⟩, decision) := Program.loop greedy body.emit follow
      if body.advances then ⟨code, decision⟩
      else Program.push ⟨code, entry⟩ (Program.branch greedy entry next)
  | .repetition (count + 1) none greedy body, follow =>
      .times count body.emit (Program.loop greedy body.emit follow).1
  | .group _ body, follow => body.emit follow
  | .seq first rest, follow => first.emit (rest.emit follow)
  | .alt preferred other, follow =>
      let next := follow.entry
      let ⟨code, right⟩ := other.emit follow
      let ⟨code, left⟩ := preferred.emit ⟨code, next⟩
      Program.push ⟨code, left⟩ (.split left right)

/-- The program of a whole expression. -/
def program (regex : Regex) : Program := regex.emit .accepting

end Regex

end Packrat
