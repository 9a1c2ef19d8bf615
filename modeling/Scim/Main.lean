import Scim.Cli.Report

/-!
# `Scim.Main`: the command line program
-/

set_option autoImplicit false

/-- Runs the program: reads the standard input if it is needed, and prints the report. -/
def main (arguments : List String) : IO UInt32 := do
  let invocation := Scim.Cli.Invocation.read arguments
  let input ←
    if invocation.readsInput then (← IO.getStdin).readBinToEnd else pure ByteArray.empty
  let report := invocation.perform input
  IO.eprint report.errors
  IO.print report.output
  return report.exitCode.toUInt32
