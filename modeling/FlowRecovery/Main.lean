import FlowRecovery.Wording

/-!
# The command line tool

Reads the files that the arguments name, runs a session on them, and writes the reports of the
session.
-/

namespace FlowRecovery.CommandLine

def paths (line : CommandLine) : List String :=
  line.main.toList ++ line.modules ++ line.options.instructionSet.toList ++ Session.parts line.options.traceFiles

def readFile? (path : String) : IO (Option ByteArray) := do
  try return some (← IO.FS.readBinFile path) catch _ => return none

def run (arguments : List String) : IO UInt32 := do
  let (line, problem) := CommandLine.parse arguments
  if let some (.usage message) := problem then
    (message :: "" :: help).forM (fun s => IO.println s)
  let contents ← (paths line).mapM (fun path => do return (path, ← readFile? path))
  let outcome := Session.run .plain { arguments, files := fun path => (contents.lookup path).join }
  outcome.traces.forM (fun f => IO.eprintln f.text)
  outcome.files.forM (fun (path, text) => IO.FS.writeFile path text)
  match outcome.ending with
  | .exited code => return UInt32.ofNat code.toNat
  | .returned => return 0
  | .failed f => do
    IO.eprintln f.text
    return 1

end FlowRecovery.CommandLine

def main (arguments : List String) : IO UInt32 := FlowRecovery.CommandLine.run arguments
