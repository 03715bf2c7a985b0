import Staging.Script.Heap

/-!
Scopes and variables.

Looking a name up, or assigning to it, concerns the innermost scope that declares it. Declaring
concerns the innermost scope alone and replaces an earlier declaration there.
-/

namespace Staging.Script

namespace Heap

/-- A scope without outer scopes. -/
def rootScope (h : Heap) : Env × Heap :=
  ([h.frames.size], { h with frames := h.frames.push [] })

/-- A new scope inside the given ones. -/
def child (h : Heap) (env : Env) : Env × Heap :=
  (h.frames.size :: env, { h with frames := h.frames.push [] })

/-- Declares a name in the innermost scope. -/
def declare (h : Heap) (env : Env) (name : String) (value : Value) (mutable : Bool) : Heap :=
  match env with
  | [] => h
  | index :: _ => { h with frames := h.frames.modify index (·.put name ⟨value, mutable⟩) }

/-- The innermost scope that declares a name, and the binding there. -/
def resolve? (h : Heap) : Env → String → Option (Nat × Binding)
  | [], _ => none
  | index :: outer, name =>
    match (h.frame index).get? name with
    | some b => some (index, b)
    | none => h.resolve? outer name

/-- The value of a name. -/
def lookup? (h : Heap) (env : Env) (name : String) : Option Value :=
  (h.resolve? env name).map (·.2.value)

/-- The scope an assignment to a name writes to: the innermost that declares it, as mutable. -/
def target (h : Heap) (env : Env) (name : String) : Except RuntimeError Nat :=
  match h.resolve? env name with
  | none => .error (.reference name)
  | some (index, b) => if b.mutable then .ok index else .error (.constAssignment name)

/-- Writes a mutable variable of a scope. -/
def write (h : Heap) (index : Nat) (name : String) (value : Value) : Heap :=
  { h with frames := h.frames.modify index (·.put name ⟨value, true⟩) }

/-- Assigns to a name. -/
def assign (h : Heap) (env : Env) (name : String) (value : Value) : Except RuntimeError Heap :=
  (h.target env name).map (h.write · name value)

end Heap

/-- The value of a variable, which has to be declared. -/
def getVar (env : Env) (name : String) : Eval Value := do
  match (← getHeap).lookup? env name with
  | some v => return v
  | none => raise (.reference name)

/-- Assigns to a variable. -/
def setVar (env : Env) (name : String) (value : Value) : Eval Unit := do
  match (← getHeap).target env name with
  | .ok index => modifyHeap (·.write index name value)
  | .error e => raise e

def declareVar (env : Env) (name : String) (value : Value) (mutable : Bool) : Eval Unit :=
  modifyHeap (·.declare env name value mutable)

def newScope (env : Env) : Eval Env := onHeap (·.child env)

end Staging.Script
