import Facet.CommandLine.Command

/-!
# The program

Reads the sources that a command names and prints what it prints.
-/

set_option autoImplicit false

open Facet.CommandLine

/-- The text of a source, if it can be read. -/
def readSource (source : Source) : IO (Option String) := do
  try
    let bytes ← match source with
      | .standardInput => do (← IO.getStdin).readBinToEnd
      | .file path => IO.FS.readBinFile path
    return String.fromUTF8? bytes
  catch _ => return none

/-- Runs the command of the arguments. -/
def main (args : List String) : IO UInt32 := do
  let sources := ((Command.ofArgs? args).map Command.sources).getD []
  let texts ← sources.mapM fun s => return (s, ← readSource s)
  let result := outcome Facet.Json.ofBytes? (fun s => (texts.lookup s).join) args
  IO.print result.output
  return result.exitCode
