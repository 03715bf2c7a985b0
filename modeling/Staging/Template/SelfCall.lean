import Staging.Template.Generator

/-!
Templates that generate themselves.

A template may call a staged function during generation, and that function may run the same template
again, with another argument. Here the function counts: it takes a number, and at zero or below it gives a
fixed text. The code it gives elsewhere stands inside an expression, so the semicolons at its end go.
-/

namespace Staging.Template

open Script

/-- How a template refers to its argument and to itself, and where it ends. -/
structure SelfCall where
  generator : Generator
  param : String
  callee : String
  base : String

/-- A text without the semicolons at its end. -/
def trimSemicolons (s : String) : String :=
  String.ofList (s.toList.reverse.dropWhile (· = ';')).reverse

namespace SelfCall

/-- The values for a number: the number, and the function that generates the template again. -/
def context (c : SelfCall) (x : Float) : Eval Context := do
  let f ← onHeap (·.newFunction (.host c.callee 0))
  return Record.ofEntries [(c.param, .number x), (c.callee, f)]

/-- Generates the template again; the first argument bounds how often. -/
def host (c : SelfCall) (fuel : Nat) : Nat → Host
  | 0 => { call := fun _ _ => throw .outOfFuel }
  | levels + 1 => { call := fun _ args => do
      let x ← numberOf (args.head?.getD .undefined)
      if 0.0 < x then
        match ← c.generator.build (c.host fuel levels) fuel (← c.context x) with
        | .ok code => return .string (trimSemicolons code)
        | .error e => raise (.native (.failed (e.message (← getHeap))))
      else return .string c.base }

/-- The code of the template for a number. -/
def build (c : SelfCall) (fuel : Nat) (x : Float) : Eval (Except StagingError String) := do
  c.generator.build (c.host fuel fuel) fuel (← c.context x)

end SelfCall

end Staging.Template
