import Packrat.Json.CommandLine

/-! # The program

Connects the JSON command with the standard streams.
-/

/-- Reads a JSON text from the standard input and prints its normal form. -/
def main (arguments : List String) : IO UInt32 := do
  let input ← (← IO.getStdin).readBinToEnd
  let report := Packrat.Json.command arguments input
  (← IO.getStdout).putStr report.output
  (← IO.getStderr).putStr report.errors
  return report.exitCode
