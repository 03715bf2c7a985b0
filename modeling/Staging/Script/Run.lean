import Staging.Script.Statement

/-!
Running scripts.

The rules for expressions, statements and calls are tied together with fuel, which bounds the nesting
of evaluation and the number of rounds of each loop. A computation that ends does not depend on how
much fuel it was given beyond what it needs.
-/

namespace Staging.Script

mutual

/-- Evaluates an expression. -/
def evalExpr (host : Host) : Nat → Env → Expr → Eval Value
  | 0, _, _, s => .error .outOfFuel s
  | fuel + 1, env, e, s =>
    evalRule ⟨evalExpr host fuel, execStmt host fuel, callValue host fuel, fuel⟩ env e s

/-- Executes a statement. -/
def execStmt (host : Host) : Nat → Env → Stmt → Eval Completion
  | 0, _, _, s => .error .outOfFuel s
  | fuel + 1, env, stmt, s =>
    execRule ⟨evalExpr host fuel, execStmt host fuel, callValue host fuel, fuel⟩ env stmt s

/-- Calls a function value. -/
def callValue (host : Host) : Nat → Value → List Value → Eval Value
  | 0, _, _, s => .error .outOfFuel s
  | fuel + 1, callee, args, s =>
    callRule ⟨evalExpr host fuel, execStmt host fuel, callValue host fuel, fuel⟩ host callee args s

end

/-- Everything a script can do with the given fuel. -/
def evaluator (host : Host) (fuel : Nat) : Evaluator :=
  ⟨evalExpr host fuel, execStmt host fuel, callValue host fuel, fuel⟩

/-- More fuel than any run within the limits of this machine can use. -/
def ample : Nat := Nat.pow 2 50

/-- A program's result: the value of its last expression, or what it returned. -/
def programValue : Completion → Eval Value
  | .normal v => return v.getD .undefined
  | .return_ v => return v
  | .break_ _ | .continue_ _ => raise (.type .strayJump)

/-- Runs a program in a scope inside the given ones. -/
def runProgram (host : Host) (fuel : Nat) (globals : Env) (body : List Stmt) : Eval Value := do
  let scope ← newScope globals
  programValue (← execBlock (evaluator host fuel) scope body)

/-- A scope with everything that comes with the language. -/
def freshGlobals : Eval Env := onHeap Heap.globals

/-- Runs a program in an interpreter of its own: with globals of its own and no call open. -/
def runFresh (host : Host) (fuel : Nat) (body : List Stmt) : Eval Value := fun s =>
  let depth := s.depth
  match (do runProgram host fuel (← freshGlobals) body : Eval Value) { s with depth := 0 } with
  | .ok v s' => .ok v { s' with depth }
  | .error e s' => .error e { s' with depth }

end Staging.Script
