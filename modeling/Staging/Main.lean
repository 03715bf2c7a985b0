import Staging.CommandLine.Run

/-!
The program: `Staging.CommandLine.run` on the real command line and file system.
-/

namespace Staging.CommandLine

/-- The content of a file, if it can be read as text. -/
def readTextFile (path : String) : IO (Option String) := do
  try
    return some (← IO.FS.readFile path)
  catch _ => return none

/-- The files that a command reads. -/
def inputFiles : Command → List String
  | .build t c _ | .eval t c => t.input :: c.file.toList
  | .listing t => [t.input]

end Staging.CommandLine

open Staging.CommandLine in
/-- Runs the command line. -/
def main (args : List String) : IO UInt32 := do
  let paths := match parseArguments args with
    | .ok command => inputFiles command
    | .error _ => []
  let files ← paths.mapM fun path => return (path, ← readTextFile path)
  let outcome := run (fun path => (files.lookup path).getD none) args
  let outcome ← match outcome.output with
    | none => pure outcome
    | some (path, content) =>
      try
        IO.FS.writeFile path content
        pure outcome
      catch _ => pure (outcome.writeFailed path)
  (← IO.getStderr).putStr outcome.stderr
  (← IO.getStdout).putStr outcome.stdout
  return outcome.exit.toUInt32
