import Staging.Script.Run
import Staging.Template.Program
import Staging.Template.Written

/-!
Running a program: the text it appends for given values of its parameters.

Expressions are evaluated by a script interpreter of the program's own. A round of an unrolled loop is
written between braces, so that each round has its own declarations, and the braces stay balanced when
a jump cuts the round short.
-/

namespace Staging.Template

open Script

/-- Values for the parameters of a program. -/
abbrev Context := Record Value

/-- Why a program stops. -/
inductive Halt where
  | refused (e : StagingError)
  | outOfFuel

/-- A running program: the state of its interpreter and the text so far. -/
structure GenerateState extends State where
  out : String := ""

abbrev Generate := EStateM Halt GenerateState

/-- How an instruction ends. -/
inductive Flow where
  | normal
  | jump (jump : Jump) (label : String)
deriving DecidableEq, Repr

/-- Appends text. -/
def append (text : String) : Generate Unit := modify fun s => { s with out := s.out ++ text }

/-- Lets the interpreter work. -/
def interpret {α : Type} (act : Eval α) : Generate α := fun s =>
  let out := s.out
  match act s.toState with
  | .ok a st => .ok a { st with out }
  | .error (.error e) st => .error (.refused (.runtime e)) { st with out }
  | .error .outOfFuel st => .error .outOfFuel { st with out }

/--
Whether the code for a value has to be put in parentheses. Raw code never is. The point after a number
would be read as a decimal point; a minus sign binds less tightly than an access or a power; a brace at
the start would begin a block.
-/
def needsParens (v : Value) (code : String) (min : Precedence) (atStart : Bool) : Bool :=
  match v with
  | .raw _ => false
  | .number _ => Precedence.call ≤ min || looksOdd
  | _ => looksOdd
where
  looksOdd : Bool :=
    (Precedence.unary ≤ min && code.startsWith "-") || (atStart && code.startsWith "\x7b")

def parenthesize (parens : Bool) (code : String) : String :=
  if parens then "(" ++ code ++ ")" else code

/-- A call that runs during generation has to go to a function. -/
def checkCallable (env : Env) : Expr → Generate Unit
  | .call span (.ident _ name) _ _ => do
    match ← interpret (getVar env name) with
    | .function _ => return ()
    | v => throw (.refused (.notCallable name v.typeName span))
  | _ => return ()

/-- Declares a name in the generated code. -/
def writeDeclaration (scope : Env) (name : String) : Generate Unit := do
  let v ← interpret (getVar scope name)
  append ("let " ++ name ++ " = " ++ (← interpret (writtenOf v)) ++ ";")

/-- One round of an unrolled loop. -/
def runRound (env : Env) (pattern : Pattern) (declare : List String) (body : Env → Generate Flow)
    (item : Value) : Generate Flow := do
  let scope ← interpret (newScope env)
  interpret (bindPattern scope (.declare false) pattern item)
  append "\x7b"
  declare.forM (writeDeclaration scope)
  let flow ← body scope
  append "\x7d"
  return flow

/-- Rounds for items in order. Jumps to the loop's own label end here. -/
def runRounds (label : Option String) (round : Value → Generate Flow) :
    List Value → Generate Flow
  | [] => return .normal
  | item :: rest => do
    match ← round item with
    | .normal => runRounds label round rest
    | .jump j target =>
      if label = some target then
        match j with
        | .continue_ => runRounds label round rest
        | .break_ => return .normal
      else return .jump j target

mutual

/-- Runs an instruction. -/
def runStep (ev : Evaluator) : Instruction → Env → Generate Flow
  | .literal text, _ => do
    append text
    return .normal
  | .inline e min atStart, env => do
    let v ← interpret (ev.expr env e)
    let code ← interpret (writtenOf v)
    append (parenthesize (needsParens v code min atStart) code)
    return .normal
  | .call e, env => do
    checkCallable env e
    let v ← interpret (ev.expr env e)
    append (← interpret (displayOf v))
    return .normal
  | .if_ test yes no, env => do
    if (← interpret (ev.expr env test)).truthy then
      runAll ev yes (← interpret (newScope env))
    else runElse ev no env
  | .each label kind pattern source declare body, env => do
    let collection ← interpret (ev.expr env source)
    let items ← interpret (iterate kind collection)
    runRounds label (runRound env pattern declare fun scope => runAll ev body scope) items
  | .block body, env => do
    append "\x7b"
    let flow ← runAll ev body env
    append "\x7d"
    return flow
  | .jump j label, _ => return .jump j label

/-- Runs instructions in order, up to a jump. -/
def runAll (ev : Evaluator) : List Instruction → Env → Generate Flow
  | [], _ => return .normal
  | i :: rest, env => do
    match ← runStep ev i env with
    | .normal => runAll ev rest env
    | flow => return flow

def runElse (ev : Evaluator) : Option (List Instruction) → Env → Generate Flow
  | none, _ => return .normal
  | some no, env => do runAll ev no (← interpret (newScope env))

end

/-- Declares the parameters, each of which needs a value. -/
def declareParams (context : Context) (env : Env) (params : List String) : Generate Unit :=
  params.forM fun name =>
    match context.get? name with
    | some v => interpret (declareVar env name v false)
    | none => throw (.refused (.missingContext name))

/-- Runs a program in a scope of its own. -/
def runMain (ev : Evaluator) (program : Program) (context : Context) : Generate Unit := do
  let globals ← interpret freshGlobals
  let env ← interpret (newScope globals)
  declareParams context env program.params
  let _ ← runAll ev program.instructions env

/-- Runs a program and gives the text, or says why there is none. -/
def execute (host : Host) (fuel : Nat) (program : Program) (context : Context) :
    Eval (Except StagingError String) := fun s =>
  let depth := s.depth
  match runMain (evaluator host fuel) program context { toState := { s with depth := 0 }, out := "" } with
  | .ok _ s => .ok (.ok s.out) { s.toState with depth }
  | .error (.refused e) s => .ok (.error e) { s.toState with depth }
  | .error .outOfFuel s => .error .outOfFuel { s.toState with depth }

end Staging.Template
