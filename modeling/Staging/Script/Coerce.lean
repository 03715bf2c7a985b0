import Staging.Number.Fixed
import Staging.Number.Read
import Staging.Script.Heap
import Staging.Source.Layout
import Staging.Text.Blank

/-!
What values count as: their type, truth, number and text, and when two of them are equal.

The text of an array is made of its items' texts, so it exists only if the array does not contain
itself. Nesting is followed as deep as there are containers in the heap, which is deep enough for
every value without a cycle. An array that contains itself has no text: looking for it would use up the
stack and end the program, which is outside of the model, and what is given for it means nothing.
-/

namespace Staging.Script

namespace Value

/-- The name of a value's type, as the `typeof` operator gives it. -/
def typeName : Value → String
  | undefined => "undefined"
  | bool _ => "boolean"
  | number _ => "number"
  | string _ => "string"
  | function _ => "function"
  | null | array _ | object _ | date _ | raw _ => "object"

def isNullish : Value → Bool
  | undefined | null => true
  | _ => false

def isFunction : Value → Bool
  | function _ => true
  | _ => false

/-- Whether a value counts as true. -/
def truthy : Value → Bool
  | undefined | null => false
  | bool b => b
  | number x => x != 0.0 && !x.isNaN
  | string s => !s.isEmpty
  | _ => true

/-- Equality that converts nothing; arrays, objects and functions are compared by identity. -/
def strictEquals : Value → Value → Bool
  | undefined, undefined | null, null => true
  | bool a, bool b => a == b
  | number a, number b => a == b
  | string a, string b => a == b
  | raw a, raw b => a == b
  | date a, date b => a == b
  | array a, array b => a == b
  | object a, object b => a == b
  | function a, function b => a == b
  | _, _ => false

end Value

/-- The number a text denotes: white space around it is ignored, and a blank text counts as zero. -/
def numberOfText (s : String) : Float :=
  let trimmed := Text.trimChars s.toList
  if trimmed.isEmpty then 0.0 else (Number.read? trimmed).getD Number.nan

def Callable.text : Callable → String
  | closure func _ => func.text
  | c => "function " ++ c.name ++ "() \x7b [native code] \x7d"

namespace Heap

/--
The text of a value; nesting is followed to the given depth. What is given for an array nested deeper is of no
meaning.
-/
def displayTo (h : Heap) : Nat → Value → String
  | _, .undefined => "undefined"
  | _, .null => "null"
  | _, .bool b => if b then "true" else "false"
  | _, .number x => Number.text x
  | _, .string s => s
  | _, .raw s => s
  | _, .object _ => "[object Object]"
  | _, .date t => t.text
  | _, .function ref =>
    match h.function? ref with
    | some c => c.text
    | none => ""
  | 0, .array _ => ""
  | depth + 1, .array ref =>
    ",".intercalate ((h.array ref).toList.map fun v =>
      if v.isNullish then "" else h.displayTo depth v)

theorem displayTo_of_function {h : Heap} {ref : Nat} {c : Callable} (is : h.function? ref = some c) (depth : Nat) :
    h.displayTo depth (.function ref) = c.text := by
  have opened : h.displayTo depth (.function ref) = match h.function? ref with
      | some c => c.text
      | none => "" := by cases depth <;> rfl
  rw [opened, is]

/-- The text of a value. -/
def display (h : Heap) (v : Value) : String := h.displayTo (h.arrays.size + 1) v

/-- The number a value counts as. -/
def toNumber (h : Heap) : Value → Float
  | .undefined => Number.nan
  | .null => 0.0
  | .bool b => if b then 1.0 else 0.0
  | .number x => x
  | .string s => numberOfText s
  | .date t => Float.ofInt t.millis
  | .array ref =>
    match (h.array ref).toList with
    | [] => 0.0
    | [v] => numberOfText (h.display v)
    | _ => Number.nan
  | .object _ | .raw _ | .function _ => Number.nan

/-- Equality that lets the two absent values be equal and compares mixed values as numbers. -/
def looseEquals (h : Heap) (a b : Value) : Bool :=
  if a.isNullish && b.isNullish then true
  else if a.isNullish || b.isNullish then false
  else
    match a, b with
    | .number _, .string _ | .string _, .number _ | .bool _, _ | _, .bool _ =>
      h.toNumber a == h.toNumber b
    | _, _ => a.strictEquals b

/-- Equality of contents; nesting is followed to the given depth. -/
def sameTo (h : Heap) : Nat → Value → Value → Bool
  | 0, a, b => a.strictEquals b
  | depth + 1, .array a, .array b =>
    a == b ||
      let xs := (h.array a).toList
      let ys := (h.array b).toList
      xs.length == ys.length && (xs.zip ys).all fun (x, y) => h.sameTo depth x y
  | depth + 1, .object a, .object b =>
    a == b ||
      let xs := h.object a
      let ys := h.object b
      xs.length == ys.length && xs.all fun (k, x) =>
        match Record.get? ys k with
        | some y => h.sameTo depth x y
        | none => false
  | _, a, b => a.strictEquals b

/-- Equality of contents: arrays item by item, objects name by name in any order. -/
def same (h : Heap) (a b : Value) : Bool := h.sameTo (h.arrays.size + h.objects.size + 1) a b

/-- The full account of a value that messages for developers show, nested to the given depth. -/
def inspectTo (h : Heap) : Nat → Value → String
  | _, .undefined => "Undefined"
  | _, .null => "Null"
  | _, .bool b => if b then "Bool(true)" else "Bool(false)"
  | _, .number x => "Number(" ++ Number.render Number.inspectSpelling x ++ ")"
  | _, .string s => "Str(" ++ Text.Escaped.encode s ++ ")"
  | _, .raw s => "Raw(" ++ Text.Escaped.encode s ++ ")"
  | _, .date t => "Date(" ++ t.text ++ ")"
  | _, .function ref =>
    "Function(" ++ (match h.function? ref with | some c => c.name | none => "") ++ ")"
  | 0, _ => ""
  | depth + 1, .array ref =>
    "[" ++ ", ".intercalate ((h.array ref).toList.map (h.inspectTo depth)) ++ "]"
  | depth + 1, .object ref =>
    "\x7b" ++ ", ".intercalate ((h.object ref).map fun (k, v) =>
      Text.Escaped.encode k ++ ": " ++ h.inspectTo depth v) ++ "\x7d"

/-- The full account of a value. -/
def inspect (h : Heap) (v : Value) : String :=
  h.inspectTo (h.arrays.size + h.objects.size + 1) v

/-- The account of a scope: the names it declares, in ascending order, and whether it has an outer one. -/
def inspectScope (h : Heap) (env : Env) : String :=
  let names := match env with
    | [] => []
    | index :: _ => ((h.frame index).names.mergeSort fun a b => decide (a ≤ b))
  "Env \x7b names: [" ++ ", ".intercalate (names.map Text.Escaped.encode) ++ "], has_parent: "
    ++ (if env.length > 1 then "true" else "false") ++ " \x7d"

end Heap

/-- The wording of a failure. -/
def RuntimeError.message (h : Heap) : RuntimeError → String
  | reference name => name ++ " is not defined"
  | type fault => fault.message
  | constAssignment name => "assignment to constant variable `" ++ name ++ "`"
  | thrown value => "uncaught exception: " ++ h.display value
  | callDepth limit => "maximum call depth of " ++ toString limit ++ " exceeded"
  | native fault => fault.message

/-- What a handler gets to see of a failure: the thrown value, or else the wording. -/
def RuntimeError.caught (h : Heap) : RuntimeError → Value
  | thrown value => value
  | e => .string (e.message h)

/-- The text of a value. -/
def displayOf (v : Value) : Eval String := do return (← getHeap).display v

/-- The number a value counts as. -/
def numberOf (v : Value) : Eval Float := do return (← getHeap).toNumber v

end Staging.Script
