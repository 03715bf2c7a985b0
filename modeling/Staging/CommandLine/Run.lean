import Staging.CommandLine.Arguments
import Staging.Diagnostic.Snippet
import Staging.Template.Context
import Staging.Template.Generator

/-!
What the command line does: a function from its arguments and the files it reads to what it prints,
what it writes and how it ends.
-/

namespace Staging.CommandLine

open Script Template

/-- What a run leaves behind. -/
structure Outcome where
  exit : Nat := 0
  stdout : String := ""
  stderr : String := ""
  /-- A file to write, with its content. -/
  output : Option (String × String) := none

/-- A failure that is not about the template. -/
def failure (message : String) : Outcome := { exit := 1, stderr := "Error: " ++ message ++ "\n" }

/-- A fault of the template, shown in its source. -/
def reject (source : String) (h : Heap) (e : StagingError) : Outcome :=
  { exit := 1, stderr := (e.toDiagnostic h).report source }

/-- An outcome after something was told to the user. -/
def Outcome.after (o : Outcome) (told : String) : Outcome := { o with stderr := told ++ o.stderr }

/-- What is left when the output file cannot be written. -/
def Outcome.writeFailed (o : Outcome) (path : String) : Outcome :=
  { o with exit := 1, stderr := o.stderr ++ (failure ("failed to write " ++ path)).stderr }

/-- A text on a line of its own. -/
def printed (text : String) : Outcome := { stdout := text ++ "\n" }

variable (read : String → Option String)

/-- Reads a template and goes on with its source and generator. -/
def withTemplate (t : TemplateArgs) (go : String → Generator → Outcome) : Outcome :=
  match read t.input with
  | none => failure ("failed to read " ++ t.input)
  | some source =>
    match Generator.ofSource source t.options with
    | .error e => reject source {} e
    | .ok g => go source g

/-- Loads a context and goes on with it, telling first which entries are not used. -/
def withContext (c : ContextArgs) (registry : Registry) (go : Context → Heap → Outcome) : Outcome :=
  match (loadContext (c.file.map fun f => (f, read f)) c.assignments).run {} with
  | .error e => failure e.message
  | .ok (context, h) =>
    (go context h).after
      (String.join ((unusedEntries context registry).map fun name => (unusedWarning name).plain))

/-- Lets an interpreter work on a heap and goes on with what it gives. -/
def generated {α : Type} (source : String) (h : Heap) (act : Eval (Except StagingError α))
    (go : α → Heap → Outcome) : Outcome :=
  match act { h with depth := 0 } with
  | .ok (.ok a) s => go a s.toHeap
  | .ok (.error e) s => reject source s.toHeap e
  | .error (.error e) s => failure (e.message s.toHeap)
  | .error .outOfFuel _ => failure "evaluation did not end"

/-- Carries out a command. -/
def Command.run : Command → Outcome
  | .build t c output =>
    withTemplate read t fun source g => withContext read c g.registry fun context h =>
      generated source h (g.build Host.none ample context) fun code _ =>
        match output with
        | some path => { output := some (path, code) }
        | none => printed code
  | .eval t c =>
    withTemplate read t fun source g => withContext read c g.registry fun context h =>
      generated source h (g.evaluate Host.none ample context) fun v h => printed (h.display v)
  | .listing t =>
    withTemplate read t fun source g =>
      match g.program with
      | .ok p => printed p.listing
      | .error e => reject source {} e

/-- How to call the program. -/
def usage : String :=
  "\n".intercalate [
    "Commands:",
    "  build FILE    write the generated code",
    "  eval FILE     write the value of the generated code",
    "  listing FILE  write the compiled program",
    "",
    "Options:",
    "  --inline-all, --inline NAME, --replace NAME",
    "  -c, --context FILE, --set NAME=JSON (build, eval)",
    "  -o, --output FILE (build)",
    ""]

/-- Carries out what the arguments ask for. -/
def run (args : List String) : Outcome :=
  match parseArguments args with
  | .ok command => command.run read
  | .error .help | .error .version => { stdout := usage }
  | .error (.misuse m) => { exit := 2, stderr := "error: " ++ m.message ++ "\n\n" ++ usage }

end Staging.CommandLine
