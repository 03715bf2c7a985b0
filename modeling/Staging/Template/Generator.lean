import Staging.Template.Compile
import Staging.Template.Execute

/-!
Generators: templates together with what was compiled from them.

A generator is compiled when it is made, or when its program is first needed. Two generators are joined
by putting their bodies one after the other and taking the names of both.
-/

namespace Staging.Template

open Script

/-- A template, and its program once it is compiled. -/
structure Generator where
  body : List Stmt
  registry : Registry
  program? : Option Program := none

namespace Generator

/-- The program of a generator. -/
def program (g : Generator) : Except StagingError Program :=
  match g.program? with
  | some p => .ok p
  | none => compile g.registry g.body

/-- The generator with its program at hand. -/
def compiled (g : Generator) : Except StagingError Generator :=
  g.program.map fun p => { g with program? := some p }

def isCompiled (g : Generator) : Bool := g.program?.isSome

/-- Makes a generator from a function. -/
def ofFunction (f : FuncSource) (options : Options) : Except StagingError Generator := do
  let registry ← Registry.ofParams f.params options
  let g : Generator := { body := f.body, registry }
  if options.deferred then return g else g.compiled

/-- Makes a generator from the source of a function. -/
def ofSource (source : String) (options : Options) : Except StagingError Generator :=
  match parseFunction source with
  | .ok f => ofFunction f options
  | .error e => .error (.syntaxError e)

/-- Joins two generators; the result is compiled when it is needed. -/
def joinDeferred (a b : Generator) : Generator :=
  { body := a.body ++ b.body, registry := a.registry.union b.registry }

/-- Joins two generators and compiles the result. -/
def join (a b : Generator) : Except StagingError Generator := (a.joinDeferred b).compiled

/-- The code a generator produces for given values. -/
def build (host : Host) (fuel : Nat) (g : Generator) (context : Context) :
    Eval (Except StagingError String) :=
  match g.program with
  | .ok p => execute host fuel p context
  | .error e => return .error e

/-- The value of generated code. -/
def evaluateCode (host : Host) (fuel : Nat) (code : String) : Eval (Except StagingError Value) := do
  match parseProgram code with
  | .error e => return .error (.syntaxError e)
  | .ok body =>
    match ← attempt (runFresh host fuel body) with
    | .ok v => return .ok v
    | .error e => return .error (.runtime e)

/-- The value of the code a generator produces for given values. -/
def evaluate (host : Host) (fuel : Nat) (g : Generator) (context : Context) :
    Eval (Except StagingError Value) := do
  match ← g.build host fuel context with
  | .ok code => evaluateCode host fuel code
  | .error e => return .error e

end Generator

end Staging.Template
