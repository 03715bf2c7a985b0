import Staging.Proofs.Script.Datum
import Staging.Proofs.Source.Signless
import Staging.Script.Run

/-!
What pure expressions mean.

A pure expression is made of literals and names by accesses, operators and methods that only look at what values
contain. Its value does not depend on where anything lies in the heap, so it has a meaning without a heap: `meaning` gives
the datum of its value, or the failure it ends with, from the data that its names stand for. As in `evalChain`, a chain of
accesses and calls can stop at an optional link; `outcome` tells this from a chain that ends in `undefined`.

One thing is not found in contents alone, whether two containers are the same one; `Stop.beyond` is for that, and for what
is not pure.

The meaning is a matter of the names in the expression (`outcome_congr`), and not of its spans (`outcome_bare`).
-/

namespace Staging

/-- Equality looks at which containers are the same. -/
def BinaryOp.isEquality : BinaryOp → Bool
  | .eq | .notEq | .strictEq | .strictNotEq => true
  | _ => false

/-- Methods that look at contents and change nothing. -/
def pureMethods : List String :=
  ["join", "slice", "toUpperCase", "toLowerCase", "trim", "toString", "includes", "startsWith", "endsWith", "indexOf",
    "split"]

mutual

/-- The expression is pure, and all of its names are known. -/
def Expr.isPure (known : String → Bool) : Expr → Bool
  | .literal _ _ => true
  | .ident _ n => known n
  | .array _ items => Expr.allPure known items
  | .object _ props => Property.allPure known props
  | .unary _ _ e => e.isPure known
  | .binary _ op a b => !op.isEquality && (a.isPure known && b.isPure known)
  | .cond _ a b c => a.isPure known && (b.isPure known && c.isPure known)
  | .member _ o k _ => o.isPure known && k.isPure known
  | .call _ (.member _ o (.named m) _) args false =>
    pureMethods.contains m && (o.isPure known && Expr.allPure known args)
  | .function _ _ | .update _ _ _ _ | .assign _ _ _ _ | .call _ _ _ _ | .new _ _ _ => false

def Key.isPure (known : String → Bool) : Key → Bool
  | .named _ => true
  | .computed e => e.isPure known

def Expr.allPure (known : String → Bool) : List Expr → Bool
  | [] => true
  | e :: es => e.isPure known && Expr.allPure known es

def Property.allPure (known : String → Bool) : List Property → Bool
  | [] => true
  | ⟨k, v⟩ :: ps => k.isPure known && (v.isPure known && Property.allPure known ps)

end

end Staging

namespace Staging.Script

/-- Why an expression has no value. -/
inductive Stop where
  | failure (e : RuntimeError)
  /-- Its value is not a matter of contents. -/
  | beyond

namespace Datum

/-! ### What data count as -/

/-- There are contents in it. -/
def isContainer : Datum → Bool
  | array _ | object _ => true
  | _ => false

/-- A value that looks the same from the outside. -/
def face : Datum → Value
  | undefined => .undefined
  | null => .null
  | bool b => .bool b
  | number x => .number x
  | string s => .string s
  | function ref => .function ref
  | array _ => .array 0
  | object _ => .object 0

def ofLiteral : Literal → Datum
  | .number x => number x
  | .string s => string s
  | .bool b => bool b
  | .null => null
  | .undefined => undefined

/-- The datum of a value without contents. -/
def ofAtom : Value → Datum
  | .null => null
  | .bool b => bool b
  | .number x => number x
  | .string s => string s
  | _ => undefined

mutual

/-- The text of a datum. -/
def text : Datum → String
  | array items => ",".intercalate (textsOfItems items)
  | d => ({} : Heap).display d.face

/-- The texts of the items of an array; those that are absent have none. -/
def textsOfItems : List Datum → List String
  | [] => []
  | d :: rest => (if d.face.isNullish then "" else d.text) :: textsOfItems rest

end

/-- The number a datum counts as. -/
def toNumber : Datum → Float
  | array [] => 0.0
  | array [d] => numberOfText d.text
  | array _ => Number.nan
  | d => ({} : Heap).toNumber d.face

/-- What an operator makes of its operand: addition asks for a text first, all else for a number. -/
def operand : BinaryOp → Datum → Value
  | .add, d => if d.face.isTextual then .string d.text else d.face
  | _, string s => .string s
  | _, d => .number d.toNumber

def binary (op : BinaryOp) (a b : Datum) : Datum := ofAtom (binaryOp {} op (a.operand op) (b.operand op))

def unary : UnaryOp → Datum → Datum
  | .neg, d => number (-d.toNumber)
  | .plus, d => number d.toNumber
  | .not, d => bool (!d.face.truthy)
  | .typeof, d => string d.face.typeName

/-! ### Properties and methods -/

/-- What stands under a key. -/
def property : Datum → String → Datum
  | array ds, key =>
    if key = "length" then number (Float.ofNat ds.length) else ((indexOfKey? key).bind (ds[·]?)).getD undefined
  | string s, key =>
    if key = "length" then number (Float.ofNat s.length)
    else (((indexOfKey? key).bind (s.toList[·]?)).map fun c => string c.toString).getD undefined
  | object fs, key => (Record.get? fs key).getD undefined
  | _, _ => undefined

/-- Reads a property; the two absent data have none. -/
def read (d : Datum) (key : String) : Except Stop Datum :=
  if d.face.isNullish then .error (.failure (.type (.cannotRead d.text key))) else .ok (d.property key)

def noMethod (kind key : String) : Except Stop Datum := .error (.failure (.type (.notAFunction (kind ++ "." ++ key))))

/-- An argument; missing ones are `undefined`. -/
def arg (args : List Datum) (i : Nat) : Datum := (args[i]?).getD undefined

/-- What a position is taken from: a number, if there is anything. -/
def position : Datum → Value
  | undefined => .undefined
  | d => .number d.toNumber

/-- The part of a list that two positions ask for. -/
def slice {α : Type} (xs : List α) (start stop : Datum) : List α :=
  sliceList xs (relativeIndex {} start.position xs.length 0) (relativeIndex {} stop.position xs.length xs.length)

def stringMethod (s key : String) (args : List Datum) : Except Stop Datum :=
  let cs := s.toList
  let needle := (arg args 0).text.toList
  match key with
  | "toUpperCase" => .ok (string (Text.upper s))
  | "toLowerCase" => .ok (string (Text.lower s))
  | "trim" => .ok (string (Text.trim s))
  | "toString" => .ok (string s)
  | "includes" => .ok (bool (Text.contains needle cs))
  | "startsWith" => .ok (bool (needle.isPrefixOf cs))
  | "endsWith" => .ok (bool (needle.isSuffixOf cs))
  | "indexOf" =>
    .ok (number (match Text.indexOf? needle cs with
      | some i => Float.ofNat i
      | none => -1.0))
  | "slice" => .ok (string (String.ofList (slice cs (arg args 0) (arg args 1))))
  | "split" =>
    match arg args 0 with
    | undefined => .ok (array [string s])
    | _ =>
      if needle.isEmpty then .ok (array (cs.map fun c => string c.toString))
      else .ok (array ((Text.splitOn needle cs).map fun part => string (String.ofList part)))
  | _ => noMethod "string" key

/-- A text has no method under any other key. -/
theorem stringMethod_of_notMem {s key : String} {args : List Datum}
    (unknown : key ∉ ["toUpperCase", "toLowerCase", "trim", "toString", "includes", "startsWith", "endsWith", "indexOf",
      "slice", "split"]) : stringMethod s key args = noMethod "string" key := by
  unfold stringMethod
  dsimp only
  split
  case h_11 => rfl
  all_goals exact absurd (by decide) unknown

/-- What comes of looking for an item: it is looked for by its contents, unless it is a container. -/
def sought (item result : Datum) : Except Stop Datum :=
  match item with
  | array _ | object _ => .error .beyond
  | _ => .ok result

def arrayMethod (ds : List Datum) (key : String) (args : List Datum) : Except Stop Datum :=
  let first := arg args 0
  match key with
  | "includes" => sought first (bool (ds.any (·.face.isItem first.face)))
  | "indexOf" =>
    sought first (number (match ds.findIdx? (·.face.strictEquals first.face) with
      | some i => Float.ofNat i
      | none => -1.0))
  | "join" =>
    let sep := match first with
      | undefined => ","
      | d => d.text
    .ok (string (sep.intercalate (textsOfItems ds)))
  | "slice" => .ok (array (slice ds first (arg args 1)))
  | _ => noMethod "array" key

def numberMethod (x : Float) (key : String) : Except Stop Datum :=
  match key with
  | "toString" => .ok (string (Number.text x))
  | _ => noMethod "number" key

/-- Calls a pure method. What stands under a key of an object is no function. -/
def call (target : Datum) (key : String) (args : List Datum) : Except Stop Datum :=
  match target with
  | array ds => arrayMethod ds key args
  | string s => stringMethod s key args
  | number x => numberMethod x key
  | d => do
    let _ ← d.read key
    noMethod d.face.typeName key

end Datum

/-! ### Expressions -/

/-- Where a chain has stopped its value is `undefined`. -/
def reached (d : Option Datum) : Datum := d.getD .undefined

/-- Goes on from what a chain has come to so far, unless it has stopped or stops here. -/
def Datum.goOn (optional : Bool) (next : Datum → Except Stop (Option Datum)) : Option Datum → Except Stop (Option Datum)
  | none => .ok none
  | some d => if optional && d.face.isNullish then .ok none else next d

/-- The operand is a name that stands for nothing, and the operator is content with it. -/
def isUndeclared (data : String → Option Datum) : UnaryOp → Expr → Bool
  | .typeof, .ident _ name => (data name).isNone
  | _, _ => false

mutual

/-- What evaluating a pure expression comes to; a chain may stop early. -/
def outcome (data : String → Option Datum) : Expr → Except Stop (Option Datum)
  | .literal _ v => .ok (some (.ofLiteral v))
  | .ident _ n =>
    match data n with
    | some d => .ok (some d)
    | none => .error (.failure (.reference n))
  | .array _ items => do
    let ds ← outcomes data items
    return some (.array ds)
  | .object _ props => do
    let fs ← outcomeFields data [] props
    return some (.object fs)
  | .unary _ op e =>
    if isUndeclared data op e then .ok (some (.string "undefined"))
    else do
      let d ← outcome data e
      return some (.unary op (reached d))
  | .binary _ op a b => do
    let x ← outcome data a
    if BinaryOp.settledBy op (reached x).face then return some (reached x)
    else
      let y ← outcome data b
      return some (if BinaryOp.isLogical op then reached y else .binary op (reached x) (reached y))
  | .cond _ a b c => do
    let test ← outcome data a
    let d ← if (reached test).face.truthy then outcome data b else outcome data c
    return some (reached d)
  | .member _ o k optional =>
    outcome data o >>= Datum.goOn optional fun target => do
      let key ← outcomeKey data k
      return some (← target.read key)
  | .call _ (.member _ o k optional) args false =>
    outcome data o >>= Datum.goOn optional fun target => do
      let key ← outcomeKey data k
      let ds ← outcomes data args
      return some (← target.call key ds)
  | .function _ _ | .update _ _ _ _ | .assign _ _ _ _ | .call _ _ _ _ | .new _ _ _ => .error .beyond

def outcomeKey (data : String → Option Datum) : Key → Except Stop String
  | .named n => .ok n
  | .computed e => do
    let d ← outcome data e
    return (reached d).text

def outcomes (data : String → Option Datum) : List Expr → Except Stop (List Datum)
  | [] => .ok []
  | e :: es => do
    let d ← outcome data e
    let ds ← outcomes data es
    return reached d :: ds

/-- The fields of an object literal, added to those before. -/
def outcomeFields (data : String → Option Datum) (fields : Record Datum) : List Property → Except Stop (Record Datum)
  | [] => .ok fields
  | ⟨k, v⟩ :: ps => do
    let key ← outcomeKey data k
    let d ← outcome data v
    outcomeFields data (fields.put key (reached d)) ps

end

/-- The datum that a pure expression is, or why it has no value. -/
def meaning (data : String → Option Datum) (e : Expr) : Except Stop Datum := reached <$> outcome data e

/-! ### What a meaning depends on -/

section

variable {data data' : String → Option Datum} {known : String → Bool}

theorem isUndeclared_congr (same : ∀ n, known n = true → data n = data' n) (op : UnaryOp) {e : Expr}
    (pure : e.isPure known = true) : isUndeclared data op e = isUndeclared data' op e := by
  cases op with
  | typeof =>
    cases e with
    | ident _ n => exact congrArg Option.isNone (same n pure)
    | _ => rfl
  | _ => rfl

mutual

/-- The meaning of an expression is a matter of the data its names stand for. -/
theorem outcome_congr (same : ∀ n, known n = true → data n = data' n) : (e : Expr) → e.isPure known = true →
    outcome data e = outcome data' e
  | .literal _ _, _ => rfl
  | .ident _ n, h => by rw [outcome, outcome, same n h]
  | .array _ items, h => by rw [outcome, outcome, outcomes_congr same items h]
  | .object _ props, h => by rw [outcome, outcome, outcomeFields_congr same [] props h]
  | .unary _ op e, h => by rw [outcome, outcome, outcome_congr same e h, isUndeclared_congr same op (e := e) h]
  | .binary _ op a b, h => by
    obtain ⟨-, ha, hb⟩ := by simpa only [Expr.isPure, Bool.and_eq_true] using h
    rw [outcome, outcome, outcome_congr same a ha, outcome_congr same b hb]
  | .cond _ a b c, h => by
    obtain ⟨ha, hb, hc⟩ := by simpa only [Expr.isPure, Bool.and_eq_true] using h
    rw [outcome, outcome, outcome_congr same a ha, outcome_congr same b hb, outcome_congr same c hc]
  | .member _ o k _, h => by
    obtain ⟨ho, hk⟩ := by simpa only [Expr.isPure, Bool.and_eq_true] using h
    rw [outcome, outcome, outcome_congr same o ho, outcomeKey_congr same k hk]
  | .call _ (.member _ o (.named m) _) args false, h => by
    obtain ⟨-, ho, hargs⟩ := by simpa only [Expr.isPure, Bool.and_eq_true] using h
    rw [outcome, outcome, outcome_congr same o ho, outcomes_congr same args hargs]
    rfl

theorem outcomeKey_congr (same : ∀ n, known n = true → data n = data' n) : (k : Key) → k.isPure known = true →
    outcomeKey data k = outcomeKey data' k
  | .named _, _ => rfl
  | .computed e, h => by rw [outcomeKey, outcomeKey, outcome_congr same e h]

theorem outcomes_congr (same : ∀ n, known n = true → data n = data' n) : (es : List Expr) →
    Expr.allPure known es = true → outcomes data es = outcomes data' es
  | [], _ => rfl
  | e :: es, h => by
    obtain ⟨first, rest⟩ := by simpa only [Expr.allPure, Bool.and_eq_true] using h
    rw [outcomes, outcomes, outcome_congr same e first, outcomes_congr same es rest]

theorem outcomeFields_congr (same : ∀ n, known n = true → data n = data' n) (fields : Record Datum) :
    (ps : List Property) → Property.allPure known ps = true →
      outcomeFields data fields ps = outcomeFields data' fields ps
  | [], _ => rfl
  | ⟨k, v⟩ :: ps, h => by
    obtain ⟨key, value, rest⟩ := by simpa only [Property.allPure, Bool.and_eq_true] using h
    rw [outcomeFields, outcomeFields, outcomeKey_congr same k key, outcome_congr same v value]
    simp only [fun fields => outcomeFields_congr same fields ps rest]

end

/-- Also without its spans an operand is undeclared or not. -/
theorem isUndeclared_bare (op : UnaryOp) (e : Expr) : isUndeclared data op e.bare = isUndeclared data op e := by
  cases op with
  | typeof => cases e <;> rfl
  | _ => rfl

mutual

/-- The meaning of an expression is not a matter of its spans. -/
theorem outcome_bare : (e : Expr) → e.isSignless = true → outcome data e.bare = outcome data e
  | .literal _ v, h => by rw [Expr.bare, outcome, outcome, Literal.bare_of_isSignless h]
  | .ident _ _, _ => rfl
  | .array _ items, h => by rw [Expr.bare, outcome, outcome, outcomes_bare items h]
  | .object _ props, h => by rw [Expr.bare, outcome, outcome, outcomeFields_bare [] props h]
  | .function _ _, _ | .update _ _ _ _, _ | .assign _ _ _ _, _ | .new _ _ _, _ => rfl
  | .unary _ op e, h => by rw [Expr.bare, outcome, outcome, outcome_bare e h, isUndeclared_bare op e]
  | .binary _ op a b, h => by
    obtain ⟨ha, hb⟩ := by simpa only [Expr.isSignless, Bool.and_eq_true] using h
    rw [Expr.bare, outcome, outcome, outcome_bare a ha, outcome_bare b hb]
  | .cond _ a b c, h => by
    obtain ⟨ha, hb, hc⟩ := by simpa only [Expr.isSignless, Bool.and_eq_true] using h
    rw [Expr.bare, outcome, outcome, outcome_bare a ha, outcome_bare b hb, outcome_bare c hc]
  | .member _ o k _, h => by
    obtain ⟨ho, hk⟩ := by simpa only [Expr.isSignless, Bool.and_eq_true] using h
    rw [Expr.bare, outcome, outcome, outcome_bare o ho, outcomeKey_bare k hk]
  | .call _ (.member _ o k _) args false, h => by
    obtain ⟨⟨ho, hk⟩, hargs⟩ := by simpa only [Expr.isSignless, Bool.and_eq_true] using h
    rw [Expr.bare, Expr.bare, outcome, outcome, outcome_bare o ho, outcomeKey_bare k hk, outcomes_bare args hargs]
  | .call _ (.member _ _ _ _) _ true, _ => rfl
  | .call _ (.literal _ _) _ _, _ | .call _ (.ident _ _) _ _, _ | .call _ (.array _ _) _ _, _
  | .call _ (.object _ _) _ _, _ | .call _ (.function _ _) _ _, _ | .call _ (.unary _ _ _) _ _, _
  | .call _ (.update _ _ _ _) _ _, _ | .call _ (.binary _ _ _ _) _ _, _ | .call _ (.assign _ _ _ _) _ _, _
  | .call _ (.cond _ _ _ _) _ _, _ | .call _ (.call _ _ _ _) _ _, _ | .call _ (.new _ _ _) _ _, _ => rfl

theorem outcomeKey_bare : (k : Key) → k.isSignless = true → outcomeKey data k.bare = outcomeKey data k
  | .named _, _ => rfl
  | .computed e, h => by rw [Key.bare, outcomeKey, outcomeKey, outcome_bare e h]

theorem outcomes_bare : (es : List Expr) → Expr.allSignless es = true → outcomes data (Expr.bareAll es) = outcomes data es
  | [], _ => rfl
  | e :: es, h => by
    obtain ⟨first, rest⟩ := by simpa only [Expr.allSignless, Bool.and_eq_true] using h
    rw [Expr.bareAll, outcomes, outcomes, outcome_bare e first, outcomes_bare es rest]

theorem outcomeFields_bare (fields : Record Datum) : (ps : List Property) → Property.allSignless ps = true →
    outcomeFields data fields (Property.bareAll ps) = outcomeFields data fields ps
  | [], _ => rfl
  | ⟨k, v⟩ :: ps, h => by
    obtain ⟨key, value, rest⟩ := by simpa only [Property.allSignless, Bool.and_eq_true] using h
    rw [Property.bareAll, outcomeFields, outcomeFields, outcomeKey_bare k key, outcome_bare v value]
    simp only [fun fields => outcomeFields_bare fields ps rest]

end

mutual

/-- Being pure is not a matter of spans. -/
theorem isPure_bare : (e : Expr) → e.bare.isPure known = e.isPure known
  | .literal _ _ | .ident _ _ | .function _ _ | .update _ _ _ _ | .assign _ _ _ _ | .new _ _ _ => rfl
  | .array _ items => allPure_bareAll items
  | .object _ props => allPureProps_bareAll props
  | .unary _ _ e => isPure_bare e
  | .binary _ op a b => by rw [Expr.bare, Expr.isPure, Expr.isPure, isPure_bare a, isPure_bare b]
  | .cond _ a b c => by rw [Expr.bare, Expr.isPure, Expr.isPure, isPure_bare a, isPure_bare b, isPure_bare c]
  | .member _ o k _ => by rw [Expr.bare, Expr.isPure, Expr.isPure, isPure_bare o, isPureKey_bare k]
  | .call _ (.member _ o (.named m) _) args false => by
    rw [Expr.bare, Expr.bare, Key.bare, Expr.isPure, Expr.isPure, isPure_bare o, allPure_bareAll args]
  | .call _ (.member _ _ (.computed _) _) _ _ | .call _ (.member _ _ (.named _) _) _ true => rfl
  | .call _ (.literal _ _) _ _ | .call _ (.ident _ _) _ _ | .call _ (.array _ _) _ _ | .call _ (.object _ _) _ _
  | .call _ (.function _ _) _ _ | .call _ (.unary _ _ _) _ _ | .call _ (.update _ _ _ _) _ _
  | .call _ (.binary _ _ _ _) _ _ | .call _ (.assign _ _ _ _) _ _ | .call _ (.cond _ _ _ _) _ _
  | .call _ (.call _ _ _ _) _ _ | .call _ (.new _ _ _) _ _ => rfl

theorem isPureKey_bare : (k : Key) → k.bare.isPure known = k.isPure known
  | .named _ => rfl
  | .computed e => isPure_bare e

theorem allPure_bareAll : (es : List Expr) → Expr.allPure known (Expr.bareAll es) = Expr.allPure known es
  | [] => rfl
  | e :: es => by rw [Expr.bareAll, Expr.allPure, Expr.allPure, isPure_bare e, allPure_bareAll es]

theorem allPureProps_bareAll : (ps : List Property) →
    Property.allPure known (Property.bareAll ps) = Property.allPure known ps
  | [] => rfl
  | ⟨k, v⟩ :: ps => by
    rw [Property.bareAll, Property.allPure, Property.allPure, isPureKey_bare k, isPure_bare v, allPureProps_bareAll ps]

end

end

/-- Pure expressions that are equal up to spans mean the same. -/
theorem meaning_of_bare_eq {data : String → Option Datum} {e e' : Expr} (signless : e.isSignless = true)
    (signless' : e'.isSignless = true) (same : e'.bare = e.bare) : meaning data e' = meaning data e := by
  rw [meaning, meaning, ← outcome_bare e signless, ← outcome_bare e' signless', same]

end Staging.Script
