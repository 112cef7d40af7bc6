import WorkBundle.Demo

/-!
# The command line

Runs the demonstration, with the configuration in the file that the command line names, if it
names one.
-/

set_option autoImplicit false

namespace WorkBundle.CommandLine

def stored (path : String) : IO Stored := do
  try
    return .file (← IO.FS.readBinFile path)
  catch e =>
    match e with
    | .noFileOrDirectory .. => return .missing
    | .inappropriateType .. => return .directory
    | e => return .refused (toString e)

end WorkBundle.CommandLine

def main (args : List String) : IO UInt32 := do
  let source ← args.head?.mapM fun path => do
    return (path, ← WorkBundle.CommandLine.stored path)
  match WorkBundle.Demo.outcome source with
  | .ok shown =>
    for line in shown.lines do
      IO.println line
    return 0
  | .error report =>
    IO.eprint report
    return 1
