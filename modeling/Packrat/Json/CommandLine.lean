import Packrat.Json.Decode
import Packrat.Json.Printer
import Packrat.Json.TreeDump

/-! # The command line

The command reads one JSON text and prints its value in normal form, or with `--tree` the tree
that it was parsed into. What it prints is a function of its arguments and its input.
-/

namespace Packrat.Json

/-- What a run of the command leaves behind. -/
structure Report where
  exitCode : UInt32
  output : String
  errors : String
  deriving DecidableEq, Repr

namespace Report

/-- A run that ends well. -/
def success (output : Text) : Report := ⟨0, String.ofList (output ++ ['\n']), ""⟩

/-- A run that ends with a message. -/
def failure (message : String) : Report := ⟨1, "", message ++ "\n"⟩

end Report

/-- The normal form of a JSON text, or the form of its tree. -/
def normalize (showTree : Bool) (text : Text) : Except Error Text := do
  let tree ← parser.parseAll "value" text
  if showTree then return tree.dump.pretty else return (← toValue tree).pretty

/-- Runs the command on the bytes of its input. -/
def command (arguments : List String) (input : ByteArray) : Report :=
  match String.fromUTF8? input with
  | none => .failure "failed to read stdin: stream did not contain valid UTF-8"
  | some text =>
      match normalize (arguments.contains "--tree") text.toList with
      | .ok output => .success output
      | .error error => .failure error.message

end Packrat.Json
