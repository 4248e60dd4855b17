import EqualityLogic.CommandLine

/-!
# The program

Runs the command line on the files and the streams of the process.
-/

set_option autoImplicit false

namespace EqualityLogic.CommandLine

/-- The text that an action reads, or the reason why it cannot be had. -/
def attempt (read : IO String) : IO (Except String String) := do
  try
    return .ok (← read)
  catch e =>
    return .error (toString e)

/-- Files and streams of the process. -/
def process : Environment IO where
  fileText path := attempt (IO.FS.readFile path)
  inputText := attempt do (← IO.getStdin).readToEnd

end EqualityLogic.CommandLine

def main (args : List String) : IO UInt32 := do
  let report ← EqualityLogic.CommandLine.run EqualityLogic.CommandLine.process args
  (← IO.getStdout).putStr report.output
  (← IO.getStderr).putStr report.errors
  return UInt32.ofNat report.exitCode
