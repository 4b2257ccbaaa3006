import Packrat.Json.Grammar
import Packrat.Json.NumberText
import Packrat.Json.StringText

/-! # From trees to values

The tree of a JSON text is folded into a value. The right-recursive lists become lists, and of
members of the same name in an object the last holds.
-/

namespace Packrat.Json

/-- The name used in reports. -/
def language : String := "JSON"

/-- The report of a tree where the given production is expected. -/
def defect {α : Type} (production : String) (found : Tree) : Except Error α :=
  .error (.structural language production found.shape)

/-- The string of a token. -/
def stringOf (raw : Text) : Except Error String :=
  match readString? raw with
  | some text => .ok text
  | none => .error (.illegible language "jsonString")

/-- The number of a token. -/
def numberOf (raw : Text) : Except Error Value :=
  match readNumber? raw with
  | some value => .ok value
  | none =>
      .error (.unsupported language
        ("number " ++ String.ofList raw ++ " outside the range of f64"))

/-- The value of a token. -/
def tokenValue (leaf : Token) : Except Error Value :=
  match leaf.kind.name with
  | "null" => .ok .null
  | "true" => .ok (.bool true)
  | "false" => .ok (.bool false)
  | "jsonString" => (stringOf leaf.text).map .string
  | "jsonNumber" => numberOf leaf.text
  | _ => defect "value" (.token leaf)

/-- The object of members in order, the last of a name holding. -/
def Value.ofMembers (members : List (String × Value)) : Value :=
  .object (members.foldl (fun entries member => Table.insertEntry member.1 member.2 entries) [])

mutual

/-- The value of a tree. -/
def toValue : Tree → Except Error Value
  | .token leaf => tokenValue leaf
  | .named name node =>
      if name = "object" then toObject node
      else if name = "array" then toArray node
      else if name = "value" then toValue node
      else defect "value" (.named name node)
  | .array nodes => defect "value" (.array nodes)

/-- The value of the body of an object. -/
def toObject : Tree → Except Error Value
  | .array [_, _] => .ok (.ofMembers [])
  | .array [_, members, _] => do return .ofMembers (← toMembers members)
  | body => defect "object" body

/-- The members of a list of members. -/
def toMembers : Tree → Except Error (List (String × Value))
  | .named name body =>
      if name = "members" then toMemberList body else defect "members" (.named name body)
  | node => defect "members" node

/-- The members of the body of a list of members: one and more, or the last. -/
def toMemberList : Tree → Except Error (List (String × Value))
  | .array [first, _, rest] => do
      let member ← toMember first
      return member :: (← toMembers rest)
  | .named name body => do return [← toNamedMember name body]
  | body => defect "members" body

/-- The member of a tree. -/
def toMember : Tree → Except Error (String × Value)
  | .named name body => toNamedMember name body
  | node => defect "member" node

/-- The member of the body of a production, which must be that of a member. -/
def toNamedMember (name : String) : Tree → Except Error (String × Value)
  | .array [.token key, separator, value] =>
      if name = "member" then do
        let key ← stringOf key.text
        return (key, ← toNamedValue value)
      else defect "member" (.named name (.array [.token key, separator, value]))
  | body =>
      if name = "member" then defect "member" body else defect "member" (.named name body)

/-- The value of a tree that must be that of a value. -/
def toNamedValue : Tree → Except Error Value
  | .named name node =>
      if name = "value" then toValue node else defect "value" (.named name node)
  | node => defect "value" node

/-- The value of the body of an array. -/
def toArray : Tree → Except Error Value
  | .array [_, _] => .ok (.array [])
  | .array [_, elements, _] => do return .array (← toElements elements)
  | body => defect "array" body

/-- The items of a list of elements. -/
def toElements : Tree → Except Error (List Value)
  | .named name body =>
      if name = "elements" then toElementList body else defect "elements" (.named name body)
  | node => defect "elements" node

/-- The items of the body of a list of elements: one and more, or the last. -/
def toElementList : Tree → Except Error (List Value)
  | .array [first, _, rest] => do
      let item ← toNamedValue first
      return item :: (← toElements rest)
  | .named name node => do
      if name = "value" then return [← toValue node] else defect "value" (.named name node)
  | body => defect "elements" body

end

/-- The value of a JSON text. -/
def decode (text : Text) : Except Error Value := do
  toValue (← parser.parseAll "value" text)

end Packrat.Json
