import Packrat.Lexicon.Token

/-! # Parse trees

The leaves of a tree are tokens. A reference to a production names the tree of its body, and a
sequence or a repetition collects the trees of its parts.
-/

namespace Packrat

/-- What a rule builds from the text it matches. -/
inductive Tree where
  | token (token : Token)
  | named (name : String) (node : Tree)
  | array (nodes : List Tree)
  deriving Repr

namespace Tree

mutual

/-- Whether two trees are equal. -/
def decEq : (first second : Tree) → Decidable (first = second)
  | .token a, .token b => if same : a = b then isTrue (same ▸ rfl) else isFalse (by simp [same])
  | .named a node, .named b node' =>
      if same : a = b then
        match decEq node node' with
        | isTrue nodes => isTrue (same ▸ nodes ▸ rfl)
        | isFalse apart => isFalse (by simp [apart])
      else isFalse (by simp [same])
  | .array nodes, .array nodes' =>
      match decEqAll nodes nodes' with
      | isTrue same => isTrue (same ▸ rfl)
      | isFalse apart => isFalse (by simp [apart])
  | .token _, .named .. | .token _, .array _ | .named .., .token _
  | .named .., .array _ | .array _, .token _ | .array _, .named .. => isFalse nofun

/-- Whether two lists of trees are equal. -/
def decEqAll : (first second : List Tree) → Decidable (first = second)
  | [], [] => isTrue rfl
  | node :: more, node' :: more' =>
      match decEq node node' with
      | isTrue heads =>
          match decEqAll more more' with
          | isTrue tails => isTrue (heads ▸ tails ▸ rfl)
          | isFalse apart => isFalse (by simp [apart])
      | isFalse apart => isFalse (by simp [apart])
  | [], _ :: _ | _ :: _, [] => isFalse nofun

end

instance : DecidableEq Tree := decEq

mutual

/-- The texts of the tokens below a tree in order, without those of sentinels. -/
def terminals : Tree → List Text
  | .token leaf => if leaf.isSentinel then [] else [leaf.text]
  | .named _ node => node.terminals
  | .array nodes => terminalsAll nodes

/-- The texts of the tokens below several trees in order. -/
def terminalsAll : List Tree → List Text
  | [] => []
  | node :: more => node.terminals ++ terminalsAll more

end

/-- The offsets between which the first and the last of the given spans lie. -/
def hull : List (Nat × Nat) → Option (Nat × Nat)
  | [] => none
  | first :: more => some (first.1, ((first :: more).getLast (by simp)).2)

mutual

/-- The offsets where the first token below a tree starts and the last one stops, sentinels
left out. -/
def span : Tree → Option (Nat × Nat)
  | .token leaf => if leaf.isSentinel then none else some (leaf.start, leaf.stop)
  | .named _ node => node.span
  | .array nodes => hull (spans nodes)

/-- The spans of those trees that have one. -/
def spans : List Tree → List (Nat × Nat)
  | [] => []
  | node :: more =>
      match node.span with
      | some range => range :: spans more
      | none => spans more

end

/-- A short account of the root of a tree. -/
def shape : Tree → String
  | .token leaf => s!"token {leaf.shape}"
  | .named name _ => s!"production `{name}`"
  | .array nodes => s!"array of {nodes.length}"

mutual

/-- The written form of a tree. -/
def display : Tree → String
  | .token leaf => leaf.display
  | .named name node => s!"{name}({node.display})"
  | .array nodes => "[" ++ ", ".intercalate (displayAll nodes) ++ "]"

/-- The written forms of several trees. -/
def displayAll : List Tree → List String
  | [] => []
  | node :: more => node.display :: displayAll more

end

/-- The token that the tree is. -/
def asToken? : Tree → Option Token
  | .token leaf => some leaf
  | _ => none

/-- The name and the body of a tree that a reference made. -/
def asNamed? : Tree → Option (String × Tree)
  | .named name node => some (name, node)
  | _ => none

/-- The parts of a tree that a sequence or a repetition made. -/
def asArray? : Tree → Option (List Tree)
  | .array nodes => some nodes
  | _ => none

/-- The body of a tree that a reference to the given production made. -/
def body? (tree : Tree) (name : String) : Option Tree :=
  (tree.asNamed?.filter (·.1 = name)).map (·.2)

end Tree

end Packrat
