import Staging.Script.Expression

/-!
Execution of statements and calls, one level deep.

A list of statements first declares its functions. A loop round starts in the scope of its loop, for
`for ... of` and `for ... in` in one of its own.
-/

namespace Staging.Script

/-- How deep calls may be nested. -/
def maxCallDepth : Nat := 256

variable (ev : Evaluator) (env : Env)

/-- Declares the functions of a statement list. -/
def hoist : List Stmt → Eval Unit
  | [] => return ()
  | .function _ func :: rest => do
    match func.name with
    | some name =>
      let f ← onHeap (·.newFunction (.closure func env))
      declareVar env name f true
    | none => pure ()
    hoist rest
  | _ :: rest => hoist rest

/-- Executes statements in order; the value is that of the last one that has any. -/
def execList (last : Option Value) : List Stmt → Eval Completion
  | [] => return .normal last
  | s :: rest => do
    match ← ev.stmt env s with
    | .normal (some v) => execList (some v) rest
    | .normal none => execList last rest
    | abrupt => return abrupt

/-- Executes statements in the given scope. -/
def execBlock (body : List Stmt) : Eval Completion := do
  hoist env body
  execList ev env none body

def declMode (kind : DeclKind) : BindMode := .declare (kind != .const)

def execDeclarators (kind : DeclKind) : List Declarator → Eval Unit
  | [] => return ()
  | d :: rest => do
    let value ← match d.init with
      | some e => ev.expr env e
      | none => pure .undefined
    bindPattern env (declMode kind) d.pattern value
    execDeclarators kind rest

/-! ### Loops -/

/-- Whether a jump with the given label concerns a loop that carries the given labels. -/
def isOwn (labels : List String) : Option String → Bool
  | none => true
  | some label => labels.contains label

/-- What a loop does after a round: go on, or end in the given way. -/
def loopControl (labels : List String) : Completion → Option Completion
  | .normal _ => none
  | .continue_ label => if isOwn labels label then none else some (.continue_ label)
  | .break_ label => if isOwn labels label then some (.normal none) else some (.break_ label)
  | .return_ v => some (.return_ v)

/-- A test that may be missing, which counts as true. -/
def evalTest : Option Expr → Eval Bool
  | none => return true
  | some e => do return (← ev.expr env e).truthy

/-- Evaluates an expression that may be missing, for its effects. -/
def evalOptional : Option Expr → Eval Unit
  | none => return ()
  | some e => do let _ ← ev.expr env e

/-- Rounds of test, body and update, as many as the bound allows. -/
def execRounds (labels : List String) (test update : Option Expr) (body : Stmt) :
    Nat → Eval Completion
  | 0 => throw .outOfFuel
  | rounds + 1 => do
    if ← evalTest ev env test then
      match loopControl labels (← ev.stmt env body) with
      | some done => return done
      | none => do
        evalOptional ev env update
        execRounds labels test update body rounds
    else return .normal none

/-- One round for each item. -/
def execItems (labels : List String) (mode : BindMode) (pattern : Pattern) (body : Stmt) :
    List Value → Eval Completion
  | [] => return .normal none
  | item :: rest => do
    let scope ← newScope env
    bindPattern scope mode pattern item
    match loopControl labels (← ev.stmt scope body) with
    | some done => return done
    | none => execItems labels mode pattern body rest

def execForInit : Option ForInit → Eval Unit
  | none => return ()
  | some (.decl d) => execDeclarators ev env d.kind d.declarators
  | some (.expr e) => do let _ ← ev.expr env e

/-- Executes a statement that carries labels. -/
def execLabeled (labels : List String) : Stmt → Eval Completion
  | .labeled _ label body => execLabeled (labels ++ [label]) body
  | .while_ _ test body => execRounds ev env labels (some test) none body ev.rounds
  | .for_ _ init test update body => do
    let scope ← newScope env
    execForInit ev scope init
    execRounds ev scope labels test update body ev.rounds
  | .forEach _ kind decl pattern source body => do
    let collection ← ev.expr env source
    let items ← iterate kind collection
    let mode := match decl with
      | some d => declMode d
      | none => .assign
    execItems ev env labels mode pattern body items
  | s => do
    match ← ev.stmt env s with
    | .break_ (some label) =>
      if labels.contains label then return .normal none else return .break_ (some label)
    | c => return c

/-! ### Failures -/

/-- Runs a computation to its end and gives what came of it. Lack of fuel is passed on. -/
def attempt {α : Type} (act : Eval α) : Eval (Except RuntimeError α) := fun s =>
  match act s with
  | .ok a s' => .ok (.ok a) s'
  | .error (.error e) s' => .ok (.error e) s'
  | .error .outOfFuel s' => .error .outOfFuel s'

/-- Goes on with what came of a computation. -/
def resume {α : Type} : Except RuntimeError α → Eval α
  | .ok a => return a
  | .error e => raise e

/-- Runs a handler on a failure. -/
def execHandler (handler : CatchClause) (e : RuntimeError) :
    Eval (Except RuntimeError Completion) := do
  let scope ← newScope env
  match handler.param with
  | some p => bindPattern scope (.declare true) p (e.caught (← getHeap))
  | none => pure ()
  attempt (execBlock ev scope handler.body)

/--
Executes a block with its handler and its finalizer. The finalizer runs after both, and a jump or a
failure in it replaces their result. A failure to bind the caught value ends the statement at once.
-/
def execTry (block : List Stmt) (handler : Option CatchClause) (finalizer : Option (List Stmt)) :
    Eval Completion := do
  let tried ← attempt (execBlock ev (← newScope env) block)
  let result ← match tried, handler with
    | .error e, some h => execHandler ev env h e
    | r, _ => pure r
  match finalizer with
  | none => resume result
  | some body =>
    match ← execBlock ev (← newScope env) body with
    | .normal _ => resume result
    | abrupt => return abrupt

/-! ### Statements -/

/-- One level of execution. -/
def execRule (s : Stmt) : Eval Completion := do
  match s with
  | .expr _ e => return .normal (some (← ev.expr env e))
  | .decl d => do
    execDeclarators ev env d.kind d.declarators
    return .normal none
  | .function _ _ | .empty _ => return .normal none
  | .return_ _ none => return .return_ .undefined
  | .return_ _ (some e) => return .return_ (← ev.expr env e)
  | .if_ _ test yes no =>
    if (← ev.expr env test).truthy then ev.stmt env yes
    else
      match no with
      | some s => ev.stmt env s
      | none => return .normal none
  | .while_ _ _ _ | .for_ _ _ _ _ _ | .forEach _ _ _ _ _ _ | .labeled _ _ _ => execLabeled ev env [] s
  | .break_ _ label => return .break_ label
  | .continue_ _ label => return .continue_ label
  | .throw_ _ e => raise (.thrown (← ev.expr env e))
  | .try_ _ block handler finalizer => execTry ev env block handler finalizer
  | .block _ body => execBlock ev (← newScope env) body

/-! ### Calls -/

/-- Binds parameters to arguments. A missing argument takes the default, which sees those before. -/
def bindParams : List Param → List Value → Eval Unit
  | [], _ => return ()
  | p :: rest, args => do
    let value ←
      if p.rest then newArray args
      else
        match args.head?, p.default with
        | some .undefined, some e | none, some e => ev.expr env e
        | a, _ => pure (a.getD .undefined)
    bindPattern env (.declare true) p.pattern value
    bindParams rest args.tail

/-- Runs a function. -/
def invoke (host : Host) (c : Callable) (args : List Value) : Eval Value := do
  match c with
  | .builtin b => b.run host.now args
  | .host _ id => host id args
  | .closure func captured =>
    let scope ← newScope captured
    bindParams ev scope func.params args
    match func.body with
    | .expr e => ev.expr scope e
    | .block body =>
      match ← execBlock ev scope body with
      | .return_ v => return v
      | _ => return .undefined

/-- Runs a computation as a call: one more is open while it runs, however it ends. -/
def nested {α : Type} (act : Eval α) : Eval α := fun s =>
  match act { s with depth := s.depth + 1 } with
  | .ok a s' => .ok a { s' with depth := s'.depth - 1 }
  | .error e s' => .error e { s' with depth := s'.depth - 1 }

/-- One level of a call. -/
def callRule (host : Host) (callee : Value) (args : List Value) : Eval Value := do
  let s ← get
  match callee with
  | .function ref =>
    if maxCallDepth ≤ s.depth then raise (.callDepth maxCallDepth)
    else
      match s.function? ref with
      | some c => nested (invoke ev host c args)
      | none => return .undefined
  | _ => raise (.type (.notAFunction callee.typeName))

end Staging.Script
