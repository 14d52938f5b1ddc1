import MethodTrace.CommandLine.Run

/-!
# The program

The command line on the files of the machine.
-/

open MethodTrace

/-- The files of the machine. -/
def machineFiles : Files IO where
  read path := do
    try return .contents (← IO.FS.readBinFile path)
    catch
      | .inappropriateType .. => return .unreadable
      | _ => return .missing
  create path := do
    try
      IO.FS.writeBinFile path .empty
      return true
    catch _ => return false
  fill path bytes := IO.FS.writeBinFile path bytes
  standardInput := do
    (← IO.getStdin).readBinToEnd

def main (arguments : List String) : IO UInt32 := do
  let report ← CommandLine.run machineFiles arguments
  (← IO.getStdout).write report.output
  (← IO.getStdout).flush
  IO.eprint report.errors
  return report.exitCode
