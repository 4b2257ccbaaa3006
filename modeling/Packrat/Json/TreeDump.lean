import Packrat.Json.Value
import Packrat.Tree

/-! # Trees as JSON

A parse tree is written as a JSON value: a token as an object with its type, text and offsets, a
named tree as one with its name and body, and a list of trees as an array.
-/

namespace Packrat.Tree

mutual

/-- The JSON form of a tree. -/
def dump : Tree → Json.Value
  | .token leaf =>
      .object
        [("type", .string leaf.kind.name), ("value", .string (String.ofList leaf.text)),
         ("start", .integer leaf.start), ("end", .integer leaf.stop)]
  | .named name node => .object [("name", .string name), ("node", node.dump)]
  | .array nodes => .array (dumpAll nodes)

/-- The JSON forms of several trees. -/
def dumpAll : List Tree → List Json.Value
  | [] => []
  | node :: more => node.dump :: dumpAll more

end

end Packrat.Tree
