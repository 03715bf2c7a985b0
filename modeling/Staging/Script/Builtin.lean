import Staging.Script.Property
import Staging.Text.Case
import Staging.Text.Search

/-!
The functions and methods that come with the language.
-/

namespace Staging.Script

/-- An argument; missing ones are `undefined`. -/
def arg (args : List Value) (i : Nat) : Value := (args[i]?).getD .undefined

/-! ### Functions -/

/-- The larger number, the first of two equal ones. -/
def larger (a b : Float) : Float := if a < b then b else a

/-- The smaller number, the first of two equal ones. -/
def smaller (a b : Float) : Float := if b < a then b else a

/-- Picks among numbers; one that is not a number makes the result so. -/
def pickNumber (pick : Float → Float → Float) : Float → List Float → Float
  | acc, [] => acc
  | acc, x :: rest => if x.isNaN then Number.nan else pickNumber pick (pick acc x) rest

/-- The named parts of an object or an array. -/
def Heap.entries (h : Heap) : Value → List (String × Value)
  | .object ref => h.object ref
  | .array ref =>
    let items := (h.array ref).toList
    ((List.range items.length).map toString).zip items
  | _ => []

def newArray (items : List Value) : Eval Value := onHeap (·.newArray items.toArray)

def newObject (fields : Record Value) : Eval Value := onHeap (·.newObject fields)

/-- Makes a date from a text, another date or a number of milliseconds. -/
def makeDate (v : Value) : Eval Value := do
  match v with
  | .string text =>
    match Instant.read? text with
    | some t => return .date t
    | none => raise (.native (.invalidDate text))
  | .date t => return .date t
  | _ =>
    match Instant.ofNumber? (← numberOf v) with
    | some t => return .date t
    | none => raise (.native .invalidTime)

/-- The ratio of a circle's circumference to its diameter. -/
def pi : Float := Float.ofBits 0x400921fb54442d18

/-- Runs a builtin. A date without argument is the present. -/
def Builtin.run (b : Builtin) (now : Instant) (args : List Value) : Eval Value := do
  let h ← getHeap
  let x := h.toNumber (arg args 0)
  match b with
  | floor => return .number x.floor
  | ceil => return .number x.ceil
  | round => return .number (x + 0.5).floor
  | abs => return .number x.abs
  | sqrt => return .number x.sqrt
  | pow => return .number (Float.pow x (h.toNumber (arg args 1)))
  | max => return .number (pickNumber larger (-Number.infinity) (args.map h.toNumber))
  | min => return .number (pickNumber smaller Number.infinity (args.map h.toNumber))
  | keys => newArray ((h.entries (arg args 0)).map fun e => .string e.1)
  | values => newArray ((h.entries (arg args 0)).map (·.2))
  | entries =>
    let pairs ← (h.entries (arg args 0)).mapM fun e => newArray [.string e.1, e.2]
    newArray pairs
  | isArray =>
    match arg args 0 with
    | .array _ => return .bool true
    | _ => return .bool false
  | string => return .string (h.display (arg args 0))
  | number => return .number x
  | date =>
    match arg args 0 with
    | .undefined => return .date now
    | v => makeDate v
  | error =>
    newObject [("name", .string "Error"), ("message", .string (h.display (arg args 0)))]

/-- Puts a builtin into the heap. -/
def Heap.builtin (h : Heap) (b : Builtin) : Value × Heap := h.newFunction (.builtin b)

/-- Adds builtins as fields. -/
def Heap.builtinFields (h : Heap) : List Builtin → Record Value × Heap
  | [] => ([], h)
  | b :: rest =>
    let (f, h) := h.builtin b
    let (fields, h) := h.builtinFields rest
    ((b.name, f) :: fields, h)

/-- Declares an object that has builtins as fields, after the given ones. -/
def Heap.declareModule (h : Heap) (env : Env) (name : String) (fields : Record Value)
    (bs : List Builtin) : Heap :=
  let (more, h) := h.builtinFields bs
  let (object, h) := h.newObject (fields ++ more)
  h.declare env name object false

/-- A scope in which everything that comes with the language is declared, for good. -/
def Heap.globals (h : Heap) : Env × Heap :=
  let (env, h) := h.rootScope
  let h := h.declareModule env "Math" [("PI", .number pi)]
    [.floor, .ceil, .round, .abs, .sqrt, .pow, .max, .min]
  let h := h.declareModule env "Object" [] [.keys, .values, .entries]
  let h := h.declareModule env "Array" [] [.isArray]
  let h := [Builtin.string, .number, .date, .error].foldl
    (fun h b =>
      let (f, h) := h.builtin b
      h.declare env b.name f false) h
  (env, h)

/-! ### Methods -/

/-- A number cut to an integer. It keeps its sign, also where nothing else is left. -/
def truncate (x : Float) : Float :=
  match Number.view x with
  | .finite negative mant exp =>
    if 0 ≤ exp then x
    else
      let whole := Float.ofNat (mant / Nat.pow 2 (-exp).toNat)
      if negative then -whole else whole
  | _ => x

/--
A position in something of the given length: cut to an integer, counted from the end if negative, and
kept within bounds. What is not a number is zero.
-/
def relativeIndex (h : Heap) (v : Value) (length default : Nat) : Nat :=
  match v with
  | .undefined => default
  | _ =>
    let n := truncate (h.toNumber v)
    let size := Float.ofNat length
    if n.isNaN then 0
    else if n < 0.0 then
      let i := size + n
      if i < 0.0 then 0 else i.toUInt64.toNat
    else if size < n then length
    else n.toUInt64.toNat

/-- The part of a list between two positions. -/
def sliceList {α : Type} (xs : List α) (start stop : Nat) : List α := (xs.drop start).take (stop - start)

def noMethod {α : Type} (kind key : String) : Eval α :=
  raise (.type (.notAFunction (kind ++ "." ++ key)))

def dateMethod (t : Instant) (key : String) : Eval Value :=
  match key with
  | "toISOString" | "toJSON" | "toString" => return .string t.text
  | "getTime" | "valueOf" => return .number (Float.ofInt t.millis)
  | _ => noMethod "date" key

/-- The number of decimal places an argument asks for. -/
def placesOf (x : Float) : Nat :=
  if x.isNaN || x < 0.0 then 0 else if 100.0 < x then 100 else x.toUInt64.toNat

def numberMethod (x : Float) (key : String) (args : List Value) : Eval Value := do
  match key with
  | "toString" => return .string (Number.text x)
  | "toFixed" => return .string (Number.fixed x (placesOf (← numberOf (arg args 0))))
  | _ => noMethod "number" key

def stringMethod (s : String) (key : String) (args : List Value) : Eval Value := do
  let h ← getHeap
  let cs := s.toList
  let needle := (h.display (arg args 0)).toList
  match key with
  | "toUpperCase" => return .string (Text.upper s)
  | "toLowerCase" => return .string (Text.lower s)
  | "trim" => return .string (Text.trim s)
  | "toString" => return .string s
  | "includes" => return .bool (Text.contains needle cs)
  | "startsWith" => return .bool (needle.isPrefixOf cs)
  | "endsWith" => return .bool (needle.isSuffixOf cs)
  | "indexOf" =>
    return .number (match Text.indexOf? needle cs with
      | some i => Float.ofNat i
      | none => -1.0)
  | "slice" =>
    let start := relativeIndex h (arg args 0) cs.length 0
    let stop := relativeIndex h (arg args 1) cs.length cs.length
    return .string (String.ofList (sliceList cs start stop))
  | "split" =>
    match arg args 0 with
    | .undefined => newArray [.string s]
    | _ =>
      if needle.isEmpty then newArray (charValues s)
      else newArray ((Text.splitOn needle cs).map fun part => .string (String.ofList part))
  | _ => noMethod "string" key

/-- The text of an item in a joined array. -/
def Heap.itemText (h : Heap) (v : Value) : String := if v.isNullish then "" else h.display v

/-- Whether an array's item is the one looked for; here a number that is none equals itself. -/
def Value.isItem (v needle : Value) : Bool :=
  v.strictEquals needle ||
    match v, needle with
    | .number a, .number b => a.isNaN && b.isNaN
    | _, _ => false

/-- Calls a function on each item and its index, giving the results in order. -/
def callEach (call : Value → List Value → Eval Value) (callback : Value) :
    Nat → List Value → Eval (List Value)
  | _, [] => return []
  | i, v :: rest => do
    let output ← call callback [v, .number (Float.ofNat i)]
    return output :: (← callEach call callback (i + 1) rest)

/-- Folds the items with a function of the value so far, the item and its index. -/
def callFold (call : Value → List Value → Eval Value) (callback : Value) :
    Nat → Value → List Value → Eval Value
  | _, acc, [] => return acc
  | i, acc, v :: rest => do
    let acc ← call callback [acc, v, .number (Float.ofNat i)]
    callFold call callback (i + 1) acc rest

/-- Adds items at the end of an array; the result is its new length. -/
def pushItems (ref : Nat) (items : List Value) : Eval Value := do
  modifyHeap (·.modifyArray ref (· ++ items.toArray))
  return .number (Float.ofNat ((← getHeap).array ref).size)

/-- Takes the last item off an array. -/
def popItem (ref : Nat) : Eval Value := do
  let last := ((← getHeap).array ref).back?
  modifyHeap (·.modifyArray ref Array.pop)
  return last.getD .undefined

/-- Runs a method that leaves the array as it is. Callbacks see the items as they were at the start. -/
def arrayQuery (call : Value → List Value → Eval Value) (ref : Nat) (key : String)
    (args : List Value) : Eval Value := do
  let h ← getHeap
  let items := (h.array ref).toList
  let first := arg args 0
  match key with
  | "includes" => return .bool (items.any (·.isItem first))
  | "indexOf" =>
    return .number (match items.findIdx? (·.strictEquals first) with
      | some i => Float.ofNat i
      | none => -1.0)
  | "join" =>
    let sep := match first with
      | .undefined => ","
      | v => h.display v
    return .string (sep.intercalate (items.map h.itemText))
  | "slice" =>
    let start := relativeIndex h first items.length 0
    let stop := relativeIndex h (arg args 1) items.length items.length
    newArray (sliceList items start stop)
  | "concat" =>
    newArray (items ++ args.flatMap fun
      | .array other => (h.array other).toList
      | v => [v])
  | "map" => newArray (← callEach call first 0 items)
  | "filter" =>
    let outputs ← callEach call first 0 items
    newArray ((items.zip outputs).filterMap fun (v, kept) => if kept.truthy then some v else none)
  | "forEach" =>
    let _ ← callEach call first 0 items
    return .undefined
  | "reduce" =>
    match args, items with
    | _ :: init :: _, _ => callFold call first 0 init items
    | _, v :: rest => callFold call first 1 v rest
    | _, [] => raise (.type .emptyReduce)
  | _ => noMethod "array" key

/-- Runs a method of an array. -/
def arrayMethod (call : Value → List Value → Eval Value) (ref : Nat) (key : String)
    (args : List Value) : Eval Value :=
  match key with
  | "push" => pushItems ref args
  | "pop" => popItem ref
  | _ => arrayQuery call ref key args

end Staging.Script
