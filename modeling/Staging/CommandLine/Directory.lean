import Staging.CommandLine.Run

/-!
The command line in a directory: which files there are before and after a run.
-/

namespace Staging.CommandLine

/-- The files of a directory, by their relative paths. -/
abbrev Directory := Record String

namespace Directory

/-- The steps of a relative path that names a file below the directory. -/
def steps? (path : String) : Option (List String) :=
  if path.startsWith "/" || path.endsWith "/" then none
  else
    match (path.splitOn "/").filter fun step => step ≠ "" ∧ step ≠ "." with
    | [] => none
    | steps => some steps

/-- The content of the file that a path names. -/
def read? (d : Directory) (path : String) : Option String := do
  let steps ← steps? path
  (d.find? fun (name, _) => steps? name = some steps).map (·.2)

/-- Whether a file below the directory lies under the given steps. -/
def hasFolder (d : Directory) (folder : List String) : Bool :=
  folder.isEmpty || d.any fun (name, _) =>
    match steps? name with
    | some steps => folder.isPrefixOf steps && folder.length < steps.length
    | none => false

/-- Writes a file, if the folder it lies in is there and its own name is not that of a folder. -/
def write? (d : Directory) (path content : String) : Option Directory := do
  let steps ← steps? path
  if d.hasFolder steps.dropLast && !d.hasFolder steps then
    let name := ((d.find? fun (name, _) => steps? name = some steps).map (·.1)).getD
      ("/".intercalate steps)
    some (d.put name content)
  else none

end Directory

/-- Runs the command line in a directory. -/
def runIn (d : Directory) (args : List String) : Outcome × Directory :=
  let outcome := run d.read? args
  match outcome.output with
  | none => (outcome, d)
  | some (path, content) =>
    match d.write? path content with
    | some d' => (outcome, d')
    | none => (outcome.writeFailed path, d)

end Staging.CommandLine
