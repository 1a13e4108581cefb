import CardText.CommandLine.Run

/-!
# The program

Reads the files that a call names, runs the call and writes what it says.
-/

namespace CardText.CommandLine

def readText? (path : String) : IO (Option String) :=
  try
    return some (← IO.FS.readFile path)
  catch _ => return none

def readFiles (paths : List String) : IO Files := do
  let texts ← paths.mapM fun path => do return (path, ← readText? path)
  return texts.filterMap fun (path, text) => text.map (path, ·)

end CardText.CommandLine

open CardText in
def main (args : List String) : IO UInt32 := do
  let files ← CommandLine.readFiles (CommandLine.pathsOf args)
  let outcome := CommandLine.outcome files args
  (← IO.getStdout).putStr outcome.stdout
  (← IO.getStderr).putStr outcome.stderr
  return outcome.exit.toUInt32
