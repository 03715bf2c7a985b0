import Staging.Proofs.Source.Bare
import Staging.Proofs.Source.Printable
import Staging.Proofs.Template.Walk
import Staging.Template.Execute

/-!
Templates specialised as trees.

`Stmt.residual` does to a tree what running the program of a template does to its text. A staged conditional
is replaced by the branch that is taken, a loop over a staged collection by one block for each round, and an
expression whose value is written by the tree of the value (`valueTree`). All that is kept stays what it is,
with what stands in it specialised in turn. A staged statement that is the single body of a kept one becomes
a block.

A template can have no residual tree: `Obstacle` says why. Evaluating may fail, and a parameter may have no
value; then the program halts as well (`Obstacle.halt?`). Otherwise the program writes a text that is no text of
a residual tree: code is put in as it stands, or a value comes to stand where the language has no place for it,
on the left of an assignment or where `new` is applied to it.
-/

namespace Staging.Template

open Script

/-- Why there is no residual tree. -/
inductive Obstacle where
  /-- Evaluating fails or takes too long. -/
  | fault (f : Fault)
  /-- A parameter has no value. -/
  | missing (name : String)
  /-- Code is put in as it stands. -/
  | raw
  /-- This is assigned to. -/
  | target (e : Expr)
  /-- `new` is applied to this. -/
  | callee (e : Expr)

/-- How a program halts where there is no residual tree, if it halts. -/
def Obstacle.halt? : Obstacle → Option Halt
  | fault (.error e) => some (.refused (.runtime e))
  | fault .outOfFuel => some .outOfFuel
  | missing name => some (.refused (.missingContext name))
  | raw | target _ | callee _ => none

/-- Specialising evaluates staged expressions. -/
abbrev Specialize := EStateM Obstacle State

/-- Lets the interpreter work. -/
def evaluating {α : Type} (act : Eval α) : Specialize α := fun s =>
  match act s with
  | .ok a s => .ok a s
  | .error f s => .error (.fault f) s

/-! ### Values as trees -/

/-- A number; a minus sign is an operator of its own. -/
def numberTree (x : Float) : Expr :=
  if (Literal.number x).isSigned then .unary nowhere .neg (.literal nowhere (.number (-x)))
  else .literal nowhere (.number x)

def dateTree (t : Instant) : Expr :=
  .new nowhere (.ident nowhere "Date") [.literal nowhere (.string t.text)]

def arrayTree (items : List (Option Expr)) : Expr :=
  .array nowhere (items.map (·.getD (.literal nowhere .null)))

def objectTree (fields : List (String × Option Expr)) : Expr :=
  .object nowhere (fields.filterMap fun (key, e) => e.map fun e => ⟨.named key, e⟩)

/-- Enters a container, which must not be open already. -/
def entering (path : List Container) (c : Container) : Except Obstacle (List Container) :=
  if c ∈ path then .error (.fault (.error (.type .circular))) else .ok (c :: path)

/-- The tree of a value inside the containers of `path`, if it has any. -/
def treeOf (h : Heap) : Nat → List Container → Value → Except Obstacle (Option Expr)
  | _, _, .undefined => .ok none
  | _, _, .function _ => .ok none
  | _, _, .null => .ok (some (.literal nowhere .null))
  | _, _, .bool b => .ok (some (.literal nowhere (.bool b)))
  | _, _, .number x => .ok (some (if x.isFinite then numberTree x else .literal nowhere .null))
  | _, _, .string s => .ok (some (.literal nowhere (.string s)))
  | _, _, .raw _ => .error .raw
  | _, _, .date t => .ok (some (dateTree t))
  | 0, _, .array _ => .error (.fault (.error (.type .circular)))
  | 0, _, .object _ => .error (.fault (.error (.type .circular)))
  | fuel + 1, path, .array ref => do
    let path ← entering path (.array ref)
    let items ← (h.array ref).toList.mapM (treeOf h fuel path)
    return some (arrayTree items)
  | fuel + 1, path, .object ref => do
    let path ← entering path (.object ref)
    let fields ← (h.object ref).mapM fun (key, value) =>
      return (key, ← treeOf h fuel path value)
    return some (objectTree fields)

/-- The tree of a value. -/
def valueTree (v : Value) : Specialize Expr := fun s =>
  match treeOf s.toHeap (s.arrays.size + s.objects.size + 2) [] v with
  | .ok e => .ok (e.getD (.literal nowhere .undefined)) s
  | .error o => .error o s

/-- The declaration of a name with a value. -/
def declarationTree (kind : DeclKind) (name : String) (value : Expr) : Stmt :=
  .decl ⟨nowhere, kind, [⟨.name name, some value⟩]⟩

/-! ### Decisions -/

/-- What becomes of an expression, whatever place it stands in. -/
inductive Fate where
  | keep
  | inline
  | call

def ExprPlan.fate : ExprPlan → Fate
  | .inline => .inline
  | .call => .call
  | .keep _ | .refuse _ => .keep

def fate (r : Registry) (e : Expr) : Fate := (planExpr r e .lowest).fate

/-- Statements that are executed during generation. -/
def isStaged (r : Registry) : Stmt → Bool
  | .if_ _ test _ _ => isDecidable r test
  | .labeled _ label _ => isStageName label
  | .forEach _ _ _ _ source _ => isDecidable r source
  | .break_ _ label | .continue_ _ label => label.any isStageName
  | _ => false

/-- What may stand after `new` without parentheses. -/
def isBareCallee (e : Expr) : Bool := !e.containsCall && e.isPlainCallee

/-- What is left of statements, and how executing the staged ones among them ends. -/
abbrev Residual := List Stmt × Flow

/-- A kept statement. -/
def keeping (s : Stmt) : Residual := ([s], .normal)

/-- What is left of the single body of a kept statement: what was staged gets braces. -/
def single (staged : Bool) : Residual → Stmt
  | ([s], _) => if staged then .block nowhere [s] else s
  | (ss, _) => .block nowhere ss

/-- What is left of a block that is executed during generation. -/
def braced (span : Span) (rest : Residual) : Residual := ([.block span rest.1], rest.2)

/-- The declarations of names with their values. -/
def residualDeclarations (kind : DeclKind) (value : String → Eval Value) : List String → Specialize (List Stmt)
  | [] => return []
  | name :: rest => do
    let v ← evaluating (value name)
    let tree ← valueTree v
    return declarationTree kind name tree :: (← residualDeclarations kind value rest)

/-- What is left of one round of a loop. -/
def residualRound (env : Env) (pattern : Pattern) (declare : List String) (body : Env → Specialize Residual)
    (item : Value) : Specialize Residual := do
  let scope ← evaluating (newScope env)
  evaluating (bindPattern scope (.declare false) pattern item)
  let declarations ← residualDeclarations .let_ (getVar scope) declare
  let (rest, flow) ← body scope
  return ([.block nowhere (declarations ++ rest)], flow)

/-- What is left of the rounds for items in order. Jumps to the loop's own label end here. -/
def residualRounds (label : Option String) (round : Value → Specialize Residual) :
    List Value → Specialize Residual
  | [] => return ([], .normal)
  | item :: rest => do
    let (done, flow) ← round item
    match flow with
    | .normal => do
      let (more, flow) ← residualRounds label round rest
      return (done ++ more, flow)
    | .jump j target =>
      if label = some target then
        match j with
        | .continue_ => do
          let (more, flow) ← residualRounds label round rest
          return (done ++ more, flow)
        | .break_ => return (done, .normal)
      else return (done, .jump j target)

/-! ### Trees -/

mutual

/-- What is left of an expression. -/
def residualExpr (ev : Evaluator) (r : Registry) (env : Env) (e : Expr) : Specialize Expr :=
  match fate r e with
  | .inline => do valueTree (← evaluating (ev.expr env e))
  | .call => throw .raw
  | .keep =>
    match e with
    | .literal s v => return .literal s v
    | .ident s n => return .ident s n
    | .array s items => return .array s (← residualExprs ev r env items)
    | .object s props => return .object s (← residualProps ev r env props)
    | .function s f => return .function s (← residualFunc ev r env f)
    | .unary s op e => return .unary s op (← residualExpr ev r env e)
    | .update s op before e => return .update s op before (← residualExpr ev r env e)
    | .binary s op a b => return .binary s op (← residualExpr ev r env a) (← residualExpr ev r env b)
    | .assign s op a b => do
      let target ← residualExpr ev r env a
      let value ← residualExpr ev r env b
      if target.isAssignable then return .assign s op target value else throw (.target target)
    | .cond s a b c =>
      return .cond s (← residualExpr ev r env a) (← residualExpr ev r env b) (← residualExpr ev r env c)
    | .member s o k optional => return .member s (← residualExpr ev r env o) (← residualKey ev r env k) optional
    | .call s (.member t o k keyOptional) args optional => do
      let object ← residualExpr ev r env o
      let key ← residualKey ev r env k
      return .call s (.member t object key keyOptional) (← residualExprs ev r env args) optional
    | .call s c args optional => return .call s (← residualExpr ev r env c) (← residualExprs ev r env args) optional
    | .new s c args => do
      let callee ← residualExpr ev r env c
      let values ← residualExprs ev r env args
      if c.containsCall || isBareCallee callee then return .new s callee values else throw (.callee callee)

def residualKey (ev : Evaluator) (r : Registry) (env : Env) : Key → Specialize Key
  | .named n => return .named n
  | .computed e => return .computed (← residualExpr ev r env e)

def residualExprs (ev : Evaluator) (r : Registry) (env : Env) : List Expr → Specialize (List Expr)
  | [] => return []
  | e :: es => return (← residualExpr ev r env e) :: (← residualExprs ev r env es)

def residualProps (ev : Evaluator) (r : Registry) (env : Env) : List Property → Specialize (List Property)
  | [] => return []
  | ⟨k, v⟩ :: ps =>
    return ⟨← residualKey ev r env k, ← residualExpr ev r env v⟩ :: (← residualProps ev r env ps)

def residualOption (ev : Evaluator) (r : Registry) (env : Env) : Option Expr → Specialize (Option Expr)
  | none => return none
  | some e => return some (← residualExpr ev r env e)

def residualParams (ev : Evaluator) (r : Registry) (env : Env) : List Param → Specialize (List Param)
  | [] => return []
  | ⟨s, pattern, default, rest⟩ :: ps =>
    return ⟨s, pattern, ← residualOption ev r env default, rest⟩ :: (← residualParams ev r env ps)

def residualBody (ev : Evaluator) (r : Registry) (env : Env) : FuncBody → Specialize FuncBody
  | .block body => return .block (← residualStmts ev r env body).1
  | .expr e => return .expr (← residualExpr ev r env e)

def residualFunc (ev : Evaluator) (r : Registry) (env : Env) : Func → Specialize Func
  | ⟨name, params, body, isArrow⟩ =>
    return ⟨name, ← residualParams ev r env params, ← residualBody ev r env body, isArrow⟩

def residualDeclarators (ev : Evaluator) (r : Registry) (env : Env) : List Declarator → Specialize (List Declarator)
  | [] => return []
  | ⟨pattern, init⟩ :: ds =>
    return ⟨pattern, ← residualOption ev r env init⟩ :: (← residualDeclarators ev r env ds)

def residualDecl (ev : Evaluator) (r : Registry) (env : Env) : VarDecl → Specialize VarDecl
  | ⟨s, kind, ds⟩ => return ⟨s, kind, ← residualDeclarators ev r env ds⟩

def residualInit (ev : Evaluator) (r : Registry) (env : Env) : Option ForInit → Specialize (Option ForInit)
  | none => return none
  | some (.decl d) => return some (.decl (← residualDecl ev r env d))
  | some (.expr e) => return some (.expr (← residualExpr ev r env e))

def residualHandler (ev : Evaluator) (r : Registry) (env : Env) :
    Option CatchClause → Specialize (Option CatchClause)
  | none => return none
  | some ⟨param, body⟩ => return some ⟨param, (← residualStmts ev r env body).1⟩

def residualFinal (ev : Evaluator) (r : Registry) (env : Env) :
    Option (List Stmt) → Specialize (Option (List Stmt))
  | none => return none
  | some body => return some (← residualStmts ev r env body).1

/-- What is left of a statement. -/
def residualStmt (ev : Evaluator) (r : Registry) (env : Env) : Stmt → Specialize Residual
  | .expr s e => return keeping (.expr s (← residualExpr ev r env e))
  | .decl d => return keeping (.decl (← residualDecl ev r env d))
  | .function s f => return keeping (.function s (← residualFunc ev r env f))
  | .return_ s e => return keeping (.return_ s (← residualOption ev r env e))
  | .if_ s test yes no =>
    if isDecidable r test then do
      if (← evaluating (ev.expr env test)).truthy then
        let scope ← evaluating (newScope env)
        match yes with
        | .block span body => return braced span (← residualStmts ev r scope body)
        | yes => residualStmt ev r scope yes
      else residualElse ev r env no
    else do
      let test ← residualExpr ev r env test
      let yes' ← residualStmt ev r env yes
      let no' ← residualSingle ev r env no
      return keeping (.if_ s test (single (isStaged r yes) yes') no')
  | .for_ s init test update body => do
    let init ← residualInit ev r env init
    let test ← residualOption ev r env test
    let update ← residualOption ev r env update
    let body' ← residualStmt ev r env body
    return keeping (.for_ s init test update (single (isStaged r body) body'))
  | .forEach s kind decl pattern source body =>
    if isDecidable r source then do
      let collection ← evaluating (ev.expr env source)
      let items ← evaluating (iterate kind collection)
      residualRounds none (residualRound env pattern (declaredIn r pattern.names)
        fun scope =>
          match body with
          | .block _ body => residualStmts ev (r.bindNames pattern.names) scope body
          | body => residualStmt ev (r.bindNames pattern.names) scope body) items
    else do
      let source ← residualExpr ev r env source
      let body' ← residualStmt ev r env body
      return keeping (.forEach s kind decl pattern source (single (isStaged r body) body'))
  | .while_ s test body => do
    let test ← residualExpr ev r env test
    let body' ← residualStmt ev r env body
    return keeping (.while_ s test (single (isStaged r body) body'))
  | .break_ s label =>
    match label.filter isStageName with
    | some target => return ([], .jump .break_ target)
    | none => return keeping (.break_ s label)
  | .continue_ s label =>
    match label.filter isStageName with
    | some target => return ([], .jump .continue_ target)
    | none => return keeping (.continue_ s label)
  | .labeled s label body =>
    if isStageName label then
      match body with
      | .forEach _ kind _ pattern source inner => do
        let collection ← evaluating (ev.expr env source)
        let items ← evaluating (iterate kind collection)
        residualRounds (some label) (residualRound env pattern (declaredIn r pattern.names)
          fun scope =>
            match inner with
            | .block _ body => residualStmts ev (r.bindNames pattern.names) scope body
            | inner => residualStmt ev (r.bindNames pattern.names) scope inner) items
      | _ => return ([], .normal)
    else do
      let body' ← residualStmt ev r env body
      return keeping (.labeled s label (single (isStaged r body) body'))
  | .throw_ s e => return keeping (.throw_ s (← residualExpr ev r env e))
  | .try_ s body handler finalizer => do
    let body ← residualStmts ev r env body
    let handler ← residualHandler ev r env handler
    let finalizer ← residualFinal ev r env finalizer
    return keeping (.try_ s body.1 handler finalizer)
  | .block s body => return keeping (.block s (← residualStmts ev r env body).1)
  | .empty s => return keeping (.empty s)

/-- What is left of the statement after `else`, as the single body that it is. -/
def residualSingle (ev : Evaluator) (r : Registry) (env : Env) : Option Stmt → Specialize (Option Stmt)
  | none => return none
  | some s => return some (single (isStaged r s) (← residualStmt ev r env s))

/-- What is left of a conditional that does not hold. -/
def residualElse (ev : Evaluator) (r : Registry) (env : Env) : Option Stmt → Specialize Residual
  | none => return ([], .normal)
  | some s => do
    let scope ← evaluating (newScope env)
    match s with
    | .block span body => return braced span (← residualStmts ev r scope body)
    | s => residualStmt ev r scope s

/-- What is left of statements in order, up to a jump. -/
def residualStmts (ev : Evaluator) (r : Registry) (env : Env) : List Stmt → Specialize Residual
  | [] => return ([], .normal)
  | s :: ss => do
    let (first, flow) ← residualStmt ev r env s
    match flow with
    | .normal => do
      let (rest, flow) ← residualStmts ev r env ss
      return (first ++ rest, flow)
    | flow => return (first, flow)

end

/-! ### What is left, form by form

These hold by definition. They are used in place of the equations derived for the recursion, which take long to derive.
-/

section

variable {ev : Evaluator} {r : Registry} {env : Env} {s : Span}

theorem residualExpr_inline {e : Expr} (h : fate r e = .inline) :
    residualExpr ev r env e = evaluating (ev.expr env e) >>= valueTree := by
  unfold residualExpr
  simp only [h]

theorem residualExpr_call {e : Expr} (h : fate r e = .call) : residualExpr ev r env e = throw .raw := by
  unfold residualExpr
  simp only [h]

theorem residualStmt_expr {e : Expr} :
    residualStmt ev r env (.expr s e) = do return keeping (.expr s (← residualExpr ev r env e)) := rfl

theorem residualStmt_decl {d : VarDecl} :
    residualStmt ev r env (.decl d) = do return keeping (.decl (← residualDecl ev r env d)) := rfl

theorem residualStmt_function {f : Func} :
    residualStmt ev r env (.function s f) = do return keeping (.function s (← residualFunc ev r env f)) := rfl

theorem residualStmt_return {e : Option Expr} :
    residualStmt ev r env (.return_ s e) = do return keeping (.return_ s (← residualOption ev r env e)) := rfl

theorem residualStmt_throw {e : Expr} :
    residualStmt ev r env (.throw_ s e) = do return keeping (.throw_ s (← residualExpr ev r env e)) := rfl

theorem residualStmt_block {body : List Stmt} :
    residualStmt ev r env (.block s body) = do return keeping (.block s (← residualStmts ev r env body).1) := rfl

theorem residualStmt_while {test : Expr} {body : Stmt} :
    residualStmt ev r env (.while_ s test body) = do
      let test ← residualExpr ev r env test
      let body' ← residualStmt ev r env body
      return keeping (.while_ s test (single (isStaged r body) body')) := rfl

theorem residualStmt_for {init : Option ForInit} {test update : Option Expr} {body : Stmt} :
    residualStmt ev r env (.for_ s init test update body) = do
      let init ← residualInit ev r env init
      let test ← residualOption ev r env test
      let update ← residualOption ev r env update
      let body' ← residualStmt ev r env body
      return keeping (.for_ s init test update (single (isStaged r body) body')) := rfl

theorem residualStmt_try {body : List Stmt} {handler : Option CatchClause} {finalizer : Option (List Stmt)} :
    residualStmt ev r env (.try_ s body handler finalizer) = do
      let body ← residualStmts ev r env body
      let handler ← residualHandler ev r env handler
      let finalizer ← residualFinal ev r env finalizer
      return keeping (.try_ s body.1 handler finalizer) := rfl

/-- What is left of a branch: a block keeps its braces. -/
def residualBranch (ev : Evaluator) (r : Registry) (scope : Env) : Stmt → Specialize Residual
  | .block span body => return braced span (← residualStmts ev r scope body)
  | s => residualStmt ev r scope s

theorem residualElse_some {b : Stmt} :
    residualElse ev r env (some b) = evaluating (newScope env) >>= fun scope => residualBranch ev r scope b := by
  cases b <;> rfl

/-- What is left of a conditional. -/
theorem residualStmt_if {test : Expr} {yes : Stmt} {no : Option Stmt} :
    residualStmt ev r env (.if_ s test yes no) =
      if isDecidable r test then evaluating (ev.expr env test) >>= fun v =>
        if v.truthy then evaluating (newScope env) >>= fun scope => residualBranch ev r scope yes
        else residualElse ev r env no
      else do
        let test ← residualExpr ev r env test
        let yes' ← residualStmt ev r env yes
        let no' ← residualSingle ev r env no
        return keeping (.if_ s test (single (isStaged r yes) yes') no') := by
  cases yes <;> rfl

/-- What is left of a body without the braces around it. -/
def residualInner (ev : Evaluator) (r : Registry) (env : Env) : Stmt → Specialize Residual
  | .block _ body => residualStmts ev r env body
  | s => residualStmt ev r env s

/-- What is left of an unrolled loop. -/
def residualLoop (ev : Evaluator) (r : Registry) (env : Env) (label : Option String) (kind : IterKind)
    (pattern : Pattern) (source : Expr) (body : Stmt) : Specialize Residual := do
  let collection ← evaluating (ev.expr env source)
  let items ← evaluating (iterate kind collection)
  residualRounds label (residualRound env pattern (declaredIn r pattern.names)
    fun scope => residualInner ev (r.bindNames pattern.names) scope body) items

theorem residualStmt_forEach {kind : IterKind} {decl : Option DeclKind} {pattern : Pattern} {source : Expr}
    {body : Stmt} :
    residualStmt ev r env (.forEach s kind decl pattern source body) =
      if isDecidable r source then residualLoop ev r env none kind pattern source body
      else do
        let source ← residualExpr ev r env source
        let body' ← residualStmt ev r env body
        return keeping (.forEach s kind decl pattern source (single (isStaged r body) body')) := by
  cases body <;> rfl

theorem residualStmt_labeled_forEach {label : String} {span : Span} {kind : IterKind} {decl : Option DeclKind}
    {pattern : Pattern} {source : Expr} {body : Stmt} (staged : isStageName label = true) :
    residualStmt ev r env (.labeled s label (.forEach span kind decl pattern source body))
      = residualLoop ev r env (some label) kind pattern source body := by
  cases body <;> exact if_pos staged

theorem residualStmt_labeled {label : String} {body : Stmt} (plain : isStageName label = false) :
    residualStmt ev r env (.labeled s label body) = do
      let body' ← residualStmt ev r env body
      return keeping (.labeled s label (single (isStaged r body) body')) := by
  have run : ¬ isStageName label = true := by simp [plain]
  cases body with
  | forEach _ _ _ _ _ inner => cases inner <;> exact if_neg run
  | _ => exact if_neg run

theorem residualStmt_break {label : Option String} :
    residualStmt ev r env (.break_ s label) = match label.filter isStageName with
      | some target => return ([], .jump .break_ target)
      | none => return keeping (.break_ s label) := rfl

theorem residualStmt_continue {label : Option String} :
    residualStmt ev r env (.continue_ s label) = match label.filter isStageName with
      | some target => return ([], .jump .continue_ target)
      | none => return keeping (.continue_ s label) := rfl

end

/-! ### Programs -/

/-- Declares the parameters of a template. -/
def bindParams (context : Context) (env : Env) : List String → Specialize Unit
  | [] => return ()
  | name :: rest =>
    match context.get? name with
    | some v => do
      evaluating (declareVar env name v false)
      bindParams context env rest
    | none => throw (.missing name)

/-- What is left of a template: the declarations of what is not inlined, and what is left of the body. -/
def residualProgram (ev : Evaluator) (r : Registry) (body : List Stmt) (context : Context) :
    Specialize (List Stmt) := do
  let globals ← evaluating freshGlobals
  let env ← evaluating (newScope globals)
  bindParams context env r.staged
  let declarations ← residualDeclarations .const (fun name => ev.expr env (.ident nowhere name)) r.declared
  let (rest, _) ← residualStmts ev r env body
  return declarations ++ rest

/-- What is left of a template for given values. As in a run, no call is open at first. -/
def residual (host : Host) (fuel : Nat) (r : Registry) (body : List Stmt) (context : Context) :
    Specialize (List Stmt) := fun s =>
  let depth := s.depth
  match residualProgram (evaluator host fuel) r body context { s with depth := 0 } with
  | .ok tree s => .ok tree { s with depth }
  | .error o s => .error o { s with depth }

end Staging.Template
