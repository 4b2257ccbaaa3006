import Packrat.Pattern.ByteForm
import Packrat.Pattern.Regex

/-! # The memory of an expression

Patterns may not grow without bound. What is bounded is the memory of two state machines over
UTF-8 bytes that an expression describes, one that reads forwards and one that reads backwards:
every state takes 32 bytes, every way out of a state that branches 4, and every range of bytes
in a state that reads one of several 8. Neither machine may take more than ten mebibytes.

`Footprint.grow` lays an expression out behind the states there are so far. The machine that
reads backwards shares states through a table in which a new entry replaces an older one at its
place, so its size depends on the numbers of the states.
-/

namespace Packrat

/-- The number of states of a machine, and the bytes for what they hold besides. -/
structure Footprint where
  states : Nat
  extra : Nat
  deriving DecidableEq, Repr

namespace Footprint

/-- The memory of one way out of a state that branches. -/
def way : Nat := 4

/-- The memory of one range of bytes in a state that reads one of several. -/
def span : Nat := 8

/-- The most memory that a machine may take. -/
def limit : Nat := 10 * Nat.pow 2 20

/-- The memory of a machine. -/
def bytes (footprint : Footprint) : Nat := 32 * footprint.states + footprint.extra

/-- Whether a machine is small enough. -/
def fits (footprint : Footprint) : Bool := footprint.bytes ≤ limit

/-- Adds states and bytes. -/
def add (states extra : Nat) (footprint : Footprint) : Footprint :=
  ⟨footprint.states + states, footprint.extra + extra⟩

/-- Applies a step so many times, as long as the machine is small enough. -/
def times : Nat → (Footprint → Footprint) → Footprint → Footprint
  | 0, _, footprint => footprint
  | count + 1, step, footprint =>
      if footprint.fits then times count step (step footprint) else footprint

/-- States that share what they lead to: the number of the next state, and by their places in
the table the states with the state they lead to and the range they read. -/
structure Sharing where
  next : Nat
  table : Array (Option (Nat × (Nat × Nat) × Nat))

namespace Sharing

/-- The number of places in the table. -/
def size : Nat := 1000

/-- Mixes a number into a hash. -/
def mix (hash : UInt64) (value : Nat) : UInt64 := (hash ^^^ value.toUInt64) * 1099511628211

/-- The place in the table of a state that reads a range and leads to a state. -/
def place (target : Nat) (range : Nat × Nat) : Nat :=
  (mix (mix (mix 14695981039346656037 target) range.1) range.2).toNat % size

/-- The number of a state that reads a range and leads to a state, which is a new one unless the
table has it. -/
def state (sharing : Sharing) (target : Nat) (range : Nat × Nat) : Nat × Sharing :=
  let ⟨next, table⟩ := sharing
  let place := place target range
  match table.getD place none with
  | some (found, read, number) =>
      if found = target ∧ read = range then (number, ⟨next, table⟩)
      else (next, ⟨next + 1, table.setIfInBounds place (some (target, range, next))⟩)
  | none => (next, ⟨next + 1, table.setIfInBounds place (some (target, range, next))⟩)

/-- Lays out a form whose bytes, read from the last to the first, lead to a state. -/
def form (sharing : Sharing) (target : Nat) : ByteForm → Sharing
  | [] => sharing
  | range :: rest =>
      let (number, sharing) := sharing.state target range
      sharing.form number rest

end Sharing

/-- Lays out a set of characters. -/
def growSet (backward : Bool) (set : CharSet) (footprint : Footprint) : Footprint :=
  if set.isAscii then footprint.add 2 (span * set.ranges.length)
  else
    let forms := ByteForm.ofSet set
    if backward then
      let fresh : Sharing := ⟨footprint.states + 2, Array.replicate Sharing.size none⟩
      let shared := forms.foldl (fun sharing form => sharing.form (footprint.states + 1) form) fresh
      ⟨shared.next, footprint.extra + way * forms.length⟩
    else
      let nodes := (ByteForm.rests 4 forms).eraseDups
      footprint.add (nodes.length + 1)
        (nodes.foldr (fun rests bytes => span * (ByteForm.groups rests).length + bytes) 0)

/-- The bytes of a literal in the order in which they are read. -/
def literalBytes (backward : Bool) (text : Text) : List UInt8 :=
  let forward := text.flatMap String.utf8EncodeChar
  if backward then forward.reverse else forward

/-- Cuts a list behind each of its empty members, which are left out. -/
def cutAtEmpty : List (List UInt8) → List (List (List UInt8))
  | [] => [[]]
  | [] :: more => [] :: cutAtEmpty more
  | row :: more =>
      match cutAtEmpty more with
      | [] => [[row]]
      | chunk :: chunks => (row :: chunk) :: chunks

/-- Lays out a tree of literals below a node. A node that is no leaf reads one of the bytes that
come next; literals before and after one that ends at the node are kept apart. The fuel is more
than the length of any literal. -/
def growLiterals : Nat → List (List UInt8) → Footprint → Footprint
  | 0, _, footprint => footprint
  | depth + 1, rows, footprint =>
      if rows.all List.isEmpty then footprint
      else
        let chunks := cutAtEmpty rows
        let read := chunks.filter (!·.isEmpty)
        let below := read.foldl
          (fun footprint chunk =>
            let heads := (chunk.filterMap List.head?).eraseDups
            let footprint := heads.foldl
              (fun footprint head =>
                growLiterals depth ((chunk.filter (·.head? = some head)).map List.tail) footprint)
              footprint
            footprint.add 1 (if heads.length = 1 then 0 else span * heads.length))
          footprint
        below.add 1 (way * (read.length + (chunks.length - 1)))

/-- The literals among the branches, if there is nothing else. -/
def literals? (branches : List Regex) : Option (List Text) :=
  branches.mapM fun
    | .literal text => some text
    | _ => none

/-- Which branch of an alternation an expression is. What is no branch counts as the first. -/
inductive Rank where
  | first
  | second
  | later
  deriving DecidableEq, Repr

/-- The rank of the branch after one with the given rank. -/
def Rank.next : Rank → Rank
  | .first => .second
  | .second => .later
  | .later => .later

/-- Joins a branch to those before it. The second brings the states that split and join. -/
def Rank.join : Rank → Footprint → Footprint
  | .first, footprint => footprint
  | .second, footprint => footprint.add 2 (2 * way)
  | .later, footprint => footprint.add 0 way

/-- Lays out an expression. -/
def grow (backward : Bool) : Regex → Rank → Footprint → Footprint
  | .empty, rank, footprint => rank.join (footprint.add 1 0)
  | .literal text, rank, footprint => rank.join (footprint.add text.byteLength 0)
  | .chars set, rank, footprint => rank.join (growSet backward set footprint)
  | .look _, rank, footprint => rank.join (footprint.add 1 0)
  | .repetition min (some max) _ body, rank, footprint =>
      let round := grow backward body .first
      rank.join
        (if min = max then times min round footprint
        else if min = 0 ∧ max = 1 then (round (footprint.add 1 0)).add 1 (2 * way)
        else
          let needed := if min = 0 then footprint.add 1 0 else times min round footprint
          times (max - min) (fun footprint => (round (footprint.add 1 0)).add 0 (2 * way))
            (needed.add 1 0))
  | .repetition 0 none _ body, rank, footprint =>
      rank.join
        (if body.advances then (grow backward body .first (footprint.add 1 0)).add 0 (2 * way)
        else (grow backward body .first footprint).add 3 (4 * way))
  | .repetition (count + 1) none _ body, rank, footprint =>
      rank.join ((times (count + 1) (grow backward body .first) footprint).add 1 (2 * way))
  | .group _ body, rank, footprint =>
      let inner := grow backward body .first footprint
      rank.join (if backward then inner else inner.add 2 0)
  | .seq first rest, rank, footprint =>
      rank.join (grow backward first .first (grow backward rest .first footprint))
  | .alt preferred other, rank, footprint =>
      match if rank = .first then literals? (preferred :: other.branches) else none with
      | some literals =>
          let rows := literals.map (literalBytes backward)
          growLiterals ((rows.map List.length).sum + 1) rows (footprint.add 1 0)
      | none =>
          grow backward other rank.next
            (rank.join (grow backward preferred .first footprint))

end Footprint

namespace Regex

/-- The states before an expression: one, or those that pass over the text before a match. -/
def lead (anchored : Bool) : Footprint :=
  if anchored then ⟨1, 0⟩ else ⟨3, Footprint.span + 2 * Footprint.way⟩

/-- The machine of an expression that reads forwards. -/
def forward (regex : Regex) : Footprint :=
  (Footprint.grow false regex .first (lead regex.anchored)).add 3 0

/-- The machine of an expression that reads backwards. -/
def backward (regex : Regex) : Footprint :=
  (Footprint.grow true regex .first (lead regex.anchoredAtEnd)).add 1 0

/-- The characters, ranges and operators that an expression lists when its repetitions are
written out. None of them takes more than four kibibytes of either machine. -/
def weight : Regex → Nat
  | .empty => 1
  | .literal text => text.length
  | .chars set => set.ranges.length + 1
  | .look _ => 1
  | .repetition min max _ body => (max.getD min + 2) * (body.weight + 1)
  | .group _ body => body.weight + 1
  | .seq first rest => first.weight + rest.weight
  | .alt preferred other => preferred.weight + other.weight + 1

/-- Whether an expression is small enough for a pattern. A light one need not be laid out. -/
def fits (regex : Regex) : Bool :=
  regex.weight * Nat.pow 2 12 ≤ Footprint.limit || (regex.forward.fits && regex.backward.fits)

end Regex

end Packrat
