import Staging.Script.Coerce

/-!
The written form of values: the code that stands for a value in a generated program.

Arrays and objects are written out, so a container that contains itself has no written form. A value
that only exists while a script runs, `undefined` or a function, is written as nothing: as an item of an
array it becomes `null`, as a property it is left out. Numbers that are not finite become `null`.
-/

namespace Staging.Template

open Script

/-- An array or object in the heap. -/
inductive Container where
  | array (ref : Nat)
  | object (ref : Nat)
deriving DecidableEq, Repr

/-- Enters a container, which must not be open already. -/
def enter (path : List Container) (c : Container) : Except TypeFault (List Container) :=
  if c ∈ path then .error .circular else .ok (c :: path)

/-- The code for an array whose items are written as given. -/
def arrayCode (items : List (Option String)) : String :=
  "[" ++ ",".intercalate (items.map (·.getD "null")) ++ "]"

/-- The code for an object whose properties are written as given. -/
def objectCode (fields : List (String × Option String)) : String :=
  "\x7b" ++ ",".intercalate (fields.filterMap fun (key, code) =>
    code.map (Text.Quoted.encode key ++ ":" ++ ·)) ++ "\x7d"

/--
The code for a value inside the containers of `path`, if it has any. The first argument bounds the
number of containers that may still be entered.
-/
def codeOf (h : Heap) : Nat → List Container → Value → Except TypeFault (Option String)
  | _, _, .undefined => .ok none
  | _, _, .function _ => .ok none
  | _, _, .null => .ok (some "null")
  | _, _, .bool b => .ok (some (if b then "true" else "false"))
  | _, _, .number x => .ok (some (if x.isFinite then Number.text x else "null"))
  | _, _, .string s => .ok (some (Text.Quoted.encode s))
  | _, _, .raw code => .ok (some code)
  | _, _, .date t => .ok (some ("new Date(" ++ Text.Quoted.encode t.text ++ ")"))
  | 0, _, .array _ => .error .circular
  | 0, _, .object _ => .error .circular
  | fuel + 1, path, .array ref => do
    let path ← enter path (.array ref)
    let items ← (h.array ref).toList.mapM (codeOf h fuel path)
    return some (arrayCode items)
  | fuel + 1, path, .object ref => do
    let path ← enter path (.object ref)
    let fields ← (h.object ref).mapM fun (key, value) =>
      return (key, ← codeOf h fuel path value)
    return some (objectCode fields)

/--
The written form of a value. No path through distinct containers is longer than the number of
containers there are, by more than one that is not in the heap.
-/
def written (h : Heap) (v : Value) : Except TypeFault String :=
  (codeOf h (h.arrays.size + h.objects.size + 2) [] v).map (·.getD "undefined")

/-- The written form of a value. -/
def writtenOf (v : Value) : Eval String := do
  match written (← getHeap) v with
  | .ok code => return code
  | .error fault => raise (.type fault)

end Staging.Template
