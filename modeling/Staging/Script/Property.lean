import Staging.Script.Operator
import Staging.Script.Scope

/-!
Properties: what stands under a key of a value, and writing it.

Arrays and texts have a length and items under the decimal texts of their indices; objects have
fields; functions have a name.
-/

namespace Staging.Script

/-- The longest array a script can make. -/
def maxArrayLength : Nat := Nat.pow 2 24

/-- The index a key denotes: digits without leading zeros, below `2 ^ 64`; a plus sign is allowed. -/
def indexOfKey? (key : String) : Option Nat :=
  match key.toList with
  | [] => none
  | '0' :: _ :: _ => none
  | cs =>
    let digits := match cs with
      | '+' :: rest => rest
      | _ => cs
    if digits.isEmpty || !digits.all Char.isDigit then none
    else
      let n := Number.digitsValue digits
      if n < Nat.pow 2 64 then some n else none

/-- A text of one character. -/
def charValue (c : Char) : Value := .string c.toString

/-- The value under a key, where the target has properties at all. -/
def Heap.property (h : Heap) (target : Value) (key : String) : Value :=
  match target with
  | .array ref =>
    let items := h.array ref
    if key = "length" then .number (Float.ofNat items.size)
    else ((indexOfKey? key).bind (items[·]?)).getD .undefined
  | .string s =>
    if key = "length" then .number (Float.ofNat s.length)
    else (((indexOfKey? key).bind (s.toList[·]?)).map charValue).getD .undefined
  | .object ref => ((h.object ref).get? key).getD .undefined
  | .function ref =>
    if key = "name" then .string (((h.function? ref).map Callable.name).getD "") else .undefined
  | _ => .undefined

/-- Reads a property; the two absent values have none. -/
def getProperty (target : Value) (key : String) : Eval Value := do
  let h ← getHeap
  if target.isNullish then raise (.type (.cannotRead (h.display target) key))
  else return h.property target key

/-- An array with exactly `n` items: cut off, or filled up with `undefined`. -/
def resize (items : Array Value) (n : Nat) : Array Value :=
  if n ≤ items.size then items.take n else items ++ Array.replicate (n - items.size) .undefined

/-- The length a number denotes. -/
def lengthOf? (x : Float) : Option Nat :=
  if x < 0.0 || x != x.floor || x > Float.ofNat maxArrayLength then none
  else some x.toUInt64.toNat

/--
Writes a property of an object or an array.

The new length of an array is a number that is told without the array. Setting it to the array itself, or to an array
with that one in it, would look the array up while it is being written, which ends the program and is outside of the
model.
-/
def setProperty (target : Value) (key : String) (value : Value) : Eval Unit := do
  match target with
  | .object ref => modifyHeap (·.modifyObject ref (·.put key value))
  | .array ref =>
    if key = "length" then
      match lengthOf? (← numberOf value) with
      | some n => modifyHeap (·.modifyArray ref (resize · n))
      | none => raise (.type .invalidLength)
    else
      match indexOfKey? key with
      | none => raise (.type (.notAnIndex key))
      | some i =>
        if maxArrayLength ≤ i then raise (.type (.indexOutOfRange i))
        else
          modifyHeap (·.modifyArray ref fun items =>
            (if items.size ≤ i then resize items (i + 1) else items).setIfInBounds i value)
  | _ => raise (.type (.cannotSet key target.typeName))

/-! ### Patterns -/

/-- How a pattern binds its names. -/
inductive BindMode where
  | declare (mutable : Bool)
  | assign
deriving DecidableEq, Repr

/-- The texts of one character a text consists of. -/
def charValues (s : String) : List Value := s.toList.map charValue

/-- What an array pattern takes a value apart into. -/
def elementsOf (value : Value) : Eval (List Value) := do
  match value with
  | .array ref => return ((← getHeap).array ref).toList
  | .string s => return charValues s
  | _ => raise (.type (.notIterable value.typeName))

mutual

/-- Binds the names of a pattern to the parts of a value. -/
def bindPattern (env : Env) (mode : BindMode) : Pattern → Value → Eval Unit
  | .name n, value =>
    match mode with
    | .declare mutable => declareVar env n value mutable
    | .assign => setVar env n value
  | .array items, value => do
    bindItems env mode items (← elementsOf value)
  | .object props, value => do
    if value.isNullish then raise (.type (.cannotDestructure (← displayOf value)))
    else bindProps env mode props value

/-- Binds patterns to items one by one; missing items are `undefined`. -/
def bindItems (env : Env) (mode : BindMode) : List Pattern → List Value → Eval Unit
  | [], _ => return ()
  | p :: rest, values => do
    bindPattern env mode p (values.head?.getD .undefined)
    bindItems env mode rest values.tail

/-- Binds patterns to the properties they name. -/
def bindProps (env : Env) (mode : BindMode) : List PatternProperty → Value → Eval Unit
  | [], _ => return ()
  | ⟨key, p⟩ :: rest, value => do
    bindPattern env mode p (← getProperty value key)
    bindProps env mode rest value

end

/-- What a loop runs over: the items of a collection, or its keys. -/
def iterate (kind : IterKind) (source : Value) : Eval (List Value) := do
  let h ← getHeap
  let indices (n : Nat) : List Value := (List.range n).map fun i => .string (toString i)
  match kind, source with
  | .of, .array ref => return (h.array ref).toList
  | .of, .string s => return charValues s
  | .of, _ => raise (.type (.notIterable source.typeName))
  | .in_, .array ref => return indices (h.array ref).size
  | .in_, .string s => return indices s.length
  | .in_, .object ref => return (h.object ref).names.map .string
  | .in_, _ => return []

end Staging.Script
