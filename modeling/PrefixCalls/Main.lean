import PrefixCalls.CommandLine.Outcome

/-!
The program: print the outcome of the command line and exit with its status.
-/

def main (args : List String) : IO UInt32 := do
  let outcome := PrefixCalls.CommandLine.answer args
  (← IO.getStdout).putStr outcome.stdout
  (← IO.getStderr).putStr outcome.stderr
  return outcome.status.code.toUInt32
