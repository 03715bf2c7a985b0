import Staging.Script.Builtin

/-!
Evaluation of expressions, one level deep.

The rules take the evaluation of everything inside as a parameter (`Evaluator`), so each rule is a
plain definition; `Staging.Script.Run` ties the knot with fuel.
-/

namespace Staging.Script

/-- How a statement ends. -/
inductive Completion where
  /-- The statement was done; it may have a value. -/
  | normal (value : Option Value)
  | return_ (value : Value)
  | break_ (label : Option String)
  | continue_ (label : Option String)

/-- Evaluation of what stands inside, and a bound on the number of rounds of a loop. -/
structure Evaluator where
  expr : Env → Expr → Eval Value
  stmt : Env → Stmt → Eval Completion
  call : Value → List Value → Eval Value
  rounds : Nat

/--
The host program: its functions, by number, and what its clock shows. The clock stands still for as long as a
script runs.
-/
structure Host where
  call : Nat → List Value → Eval Value
  now : Instant := ⟨0, 0⟩

instance : CoeFun Host fun _ => Nat → List Value → Eval Value := ⟨Host.call⟩

/-- A host without functions. Its clock shows the start of 1970. -/
def Host.none : Host := { call := fun _ _ => return .undefined }

def literalValue : Literal → Value
  | .number x => .number x
  | .string s => .string s
  | .bool b => .bool b
  | .null => .null
  | .undefined => .undefined

variable (ev : Evaluator) (env : Env)

/-- The key an access or a property has. -/
def evalKey : Key → Eval String
  | .named name => return name
  | .computed e => do displayOf (← ev.expr env e)

def evalArgs (args : List Expr) : Eval (List Value) := args.mapM (ev.expr env)

/-- The fields of an object literal, added to those before. -/
def evalProps (fields : Record Value) : List Property → Eval (Record Value)
  | [] => return fields
  | p :: rest => do
    let key ← evalKey ev env p.key
    let value ← ev.expr env p.value
    evalProps (fields.put key value) rest

/-- Calls what stands under a key of a value. -/
def callMethod (target : Value) (key : String) (args : List Value) : Eval Value := do
  match target with
  | .array ref => arrayMethod ev.call ref key args
  | .string s => stringMethod s key args
  | .date t => dateMethod t key
  | .number x => numberMethod x key args
  | _ =>
    let method ← getProperty target key
    if method.isFunction then ev.call method args
    else raise (.type (.notAFunction (target.typeName ++ "." ++ key)))

/--
Evaluates a chain of accesses and calls. Without a result the chain ended early at an optional link,
whose target was absent; nothing after that link is evaluated.
-/
def evalChain : Expr → Eval (Option Value)
  | .member _ object key optional => do
    match ← evalChain object with
    | none => return none
    | some target =>
      if optional && target.isNullish then return none
      else
        let k ← evalKey ev env key
        return some (← getProperty target k)
  | .call _ (.member _ object key optionalMember) args optional => do
    match ← evalChain object with
    | none => return none
    | some target =>
      if optionalMember && target.isNullish then return none
      else
        let k ← evalKey ev env key
        let absent ← if optional then Value.isNullish <$> getProperty target k else pure false
        if absent then return none
        else
          let values ← evalArgs ev env args
          return some (← callMethod ev target k values)
  | .call _ callee args optional => do
    match ← evalChain callee with
    | none => return none
    | some func =>
      if optional && func.isNullish then return none
      else
        let values ← evalArgs ev env args
        return some (← ev.call func values)
  | e => do return some (← ev.expr env e)

/-! ### Places -/

/-- Where an assignment writes. -/
inductive Place where
  | var (name : String)
  | property (object : Value) (key : String)

def resolvePlace : Expr → Eval Place
  | .ident _ name => return .var name
  | .member _ object key _ => do
    let target ← ev.expr env object
    return .property target (← evalKey ev env key)
  | _ => raise (.type .invalidTarget)

def readPlace : Place → Eval Value
  | .var name => getVar env name
  | .property object key => getProperty object key

def writePlace (place : Place) (value : Value) : Eval Unit :=
  match place with
  | .var name => setVar env name value
  | .property object key => setProperty object key value

/-! ### Expressions -/

/-- Whether a logical operator has its left operand as result. -/
def BinaryOp.settledBy (op : BinaryOp) (left : Value) : Bool :=
  match op with
  | .and => !left.truthy
  | .or => left.truthy
  | .nullish => !left.isNullish
  | _ => false

def BinaryOp.isLogical : BinaryOp → Bool
  | .and | .or | .nullish => true
  | _ => false

def evalBinary (op : BinaryOp) (left right : Expr) : Eval Value := do
  let a ← ev.expr env left
  if BinaryOp.settledBy op a then return a
  else
    let b ← ev.expr env right
    if BinaryOp.isLogical op then return b else return binaryOp (← getHeap) op a b

def evalUpdate (op : UpdateOp) (before : Bool) (target : Expr) : Eval Value := do
  let place ← resolvePlace ev env target
  let old ← numberOf (← readPlace env place)
  let new := match op with
    | .increment => old + 1.0
    | .decrement => old - 1.0
  writePlace env place (.number new)
  return .number (if before then new else old)

def evalAssign (op : AssignOp) (target value : Expr) : Eval Value := do
  let place ← resolvePlace ev env target
  let result ← match op.binary? with
    | none => ev.expr env value
    | some binary => do
      let current ← readPlace env place
      let operand ← ev.expr env value
      pure (binaryOp (← getHeap) binary current operand)
  writePlace env place result
  return result

/-- The type of an undeclared variable can be asked for. -/
def evalUnary (op : UnaryOp) (operand : Expr) : Eval Value := do
  let undeclared ← match op, operand with
    | .typeof, .ident _ name => pure ((← getHeap).lookup? env name).isNone
    | _, _ => pure false
  if undeclared then return .string "undefined"
  else
    let v ← ev.expr env operand
    return unaryOp (← getHeap) op v

def evalNew (callee : Expr) (args : List Expr) : Eval Value := do
  let constructor ← ev.expr env callee
  let values ← evalArgs ev env args
  if constructor.isFunction then ev.call constructor values
  else raise (.type (.notAConstructor constructor.typeName))

/-- One level of evaluation. -/
def evalRule (e : Expr) : Eval Value := do
  match e with
  | .literal _ value => return literalValue value
  | .ident _ name => getVar env name
  | .array _ items => newArray (← evalArgs ev env items)
  | .object _ props => newObject (← evalProps ev env [] props)
  | .function _ func => onHeap (·.newFunction (.closure func env))
  | .unary _ op operand => evalUnary ev env op operand
  | .update _ op before target => evalUpdate ev env op before target
  | .binary _ op left right => evalBinary ev env op left right
  | .assign _ op target value => evalAssign ev env op target value
  | .cond _ test yes no => if (← ev.expr env test).truthy then ev.expr env yes else ev.expr env no
  | .member _ _ _ _ | .call _ _ _ _ => return (← evalChain ev env e).getD .undefined
  | .new _ callee args => evalNew ev env callee args

end Staging.Script
