import Staging.Calendar
import Staging.Record
import Staging.Source.Tree

/-!
Values and the heap they live in.

Arrays, objects and functions are shared: a value holds the index of its contents in the heap, and
two values are the same array when they hold the same index. Scopes are frames of bindings, also in
the heap; an environment is the list of frames that a piece of code sees, innermost first.

Failures of scripts are causes (`RuntimeError`); their wording is `RuntimeError.message`.
-/

namespace Staging.Script

inductive Value where
  | undefined
  | null
  | bool (b : Bool)
  | number (x : Float)
  | string (s : String)
  | array (ref : Nat)
  | object (ref : Nat)
  | date (t : Instant)
  /-- Text that is put into generated code as it stands. -/
  | raw (code : String)
  | function (ref : Nat)

/-- The scopes that code sees, innermost first, by their index in the heap. -/
abbrev Env := List Nat

/-- The functions every script finds defined. -/
inductive Builtin where
  | floor | ceil | round | abs | sqrt | pow | max | min
  | keys | values | entries | isArray
  | string | number | date | error
deriving DecidableEq, Repr

def Builtin.name : Builtin → String
  | floor => "floor"
  | ceil => "ceil"
  | round => "round"
  | abs => "abs"
  | sqrt => "sqrt"
  | pow => "pow"
  | max => "max"
  | min => "min"
  | keys => "keys"
  | values => "values"
  | entries => "entries"
  | isArray => "isArray"
  | string => "String"
  | number => "Number"
  | date => "Date"
  | error => "Error"

/-- What a function value runs: code of a script, a builtin, or code of the host program. -/
inductive Callable where
  | closure (func : Func) (env : Env)
  | builtin (b : Builtin)
  | host (name : String) (id : Nat)

def Callable.name : Callable → String
  | closure func _ => func.name.getD ""
  | builtin b => b.name
  | host name _ => name

structure Binding where
  value : Value
  mutable : Bool

/-- The contents of arrays, objects, functions and scopes. -/
structure Heap where
  arrays : Array (Array Value) := #[]
  objects : Array (Record Value) := #[]
  functions : Array Callable := #[]
  frames : Array (Record Binding) := #[]

/-- The state of a running script: the heap, and how many calls are open. -/
structure State extends Heap where
  depth : Nat := 0

/-! ### Failures -/

/-- A value was used as what it is not. -/
inductive TypeFault where
  | notIterable (kind : String)
  | cannotDestructure (shown : String)
  | notAFunction (what : String)
  | notAConstructor (kind : String)
  | cannotRead (shown key : String)
  | cannotSet (key kind : String)
  | notAnIndex (key : String)
  | indexOutOfRange (index : Nat)
  | invalidLength
  | invalidTarget
  | emptyReduce
  | strayJump
  | circular
deriving DecidableEq, Repr

def TypeFault.message : TypeFault → String
  | notIterable kind => kind ++ " is not iterable"
  | cannotDestructure shown => "cannot destructure `" ++ shown ++ "`"
  | notAFunction what => what ++ " is not a function"
  | notAConstructor kind => kind ++ " is not a constructor"
  | cannotRead shown key => "cannot read properties of " ++ shown ++ " (reading '" ++ key ++ "')"
  | cannotSet key kind => "cannot set property '" ++ key ++ "' of " ++ kind
  | notAnIndex key => "cannot set property '" ++ key ++ "' of an array"
  | indexOutOfRange index => "array index " ++ toString index ++ " out of range"
  | invalidLength => "invalid array length"
  | invalidTarget => "invalid assignment target"
  | emptyReduce => "reduce of empty array with no initial value"
  | strayJump => "break or continue outside of a loop"
  | circular => "cannot serialize a circular structure"

/-- A failure inside a function that is not written in the script. -/
inductive NativeFault where
  | invalidDate (text : String)
  | invalidTime
  | failed (message : String)
deriving DecidableEq, Repr

def NativeFault.message : NativeFault → String
  | invalidDate text => "invalid date `" ++ text ++ "`"
  | invalidTime => "invalid time value"
  | failed message => message

/-- Why a script stops. -/
inductive RuntimeError where
  | reference (name : String)
  | type (fault : TypeFault)
  | constAssignment (name : String)
  | thrown (value : Value)
  | callDepth (limit : Nat)
  | native (fault : NativeFault)

/-- What ends a computation without a value. Running out of fuel is no failure of the script. -/
inductive Fault where
  | error (e : RuntimeError)
  | outOfFuel

/-- A computation of a script. What it did to the heap stays done when it fails. -/
abbrev Eval := EStateM Fault State

/-- Fails with the given cause. -/
def raise {α : Type} (e : RuntimeError) : Eval α := throw (.error e)

/-! ### Contents -/

namespace Heap

def array (h : Heap) (ref : Nat) : Array Value := h.arrays[ref]?.getD #[]

def object (h : Heap) (ref : Nat) : Record Value := h.objects[ref]?.getD []

def function? (h : Heap) (ref : Nat) : Option Callable := h.functions[ref]?

def frame (h : Heap) (index : Nat) : Record Binding := h.frames[index]?.getD []

/-- Puts a new array into the heap. -/
def newArray (h : Heap) (items : Array Value) : Value × Heap :=
  (.array h.arrays.size, { h with arrays := h.arrays.push items })

/-- Puts a new object into the heap. -/
def newObject (h : Heap) (fields : Record Value) : Value × Heap :=
  (.object h.objects.size, { h with objects := h.objects.push fields })

/-- Puts a new function into the heap. -/
def newFunction (h : Heap) (c : Callable) : Value × Heap :=
  (.function h.functions.size, { h with functions := h.functions.push c })

def modifyArray (h : Heap) (ref : Nat) (f : Array Value → Array Value) : Heap :=
  { h with arrays := h.arrays.modify ref f }

def modifyObject (h : Heap) (ref : Nat) (f : Record Value → Record Value) : Heap :=
  { h with objects := h.objects.modify ref f }

end Heap

/-- Changes the heap and gives a result. -/
def onHeap {α : Type} (f : Heap → α × Heap) : Eval α :=
  modifyGet fun s =>
    let depth := s.depth
    let (a, h) := f s.toHeap
    (a, { h with depth })

/-- Changes the heap. -/
def modifyHeap (f : Heap → Heap) : Eval Unit :=
  modify fun s =>
    let depth := s.depth
    { f s.toHeap with depth }

/-- The heap as it is. -/
def getHeap : Eval Heap := do return (← get).toHeap

end Staging.Script
