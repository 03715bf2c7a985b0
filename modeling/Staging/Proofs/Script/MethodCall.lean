import Staging.Proofs.Script.OptionalChain

/-!
Calls of methods.

A plain call evaluates its arguments and looks the method up afterwards: among the methods that come with the language
for arrays, texts, numbers and dates, and among the properties for anything else. An optional call first reads the
property under the method's name, and is the plain call unless that is absent (`evalRule_method_optional`). The methods
that come with the language are no properties (`property_of_hasMethods`), so an optional call never gets to them.
-/

namespace Staging.Script

/-! ### Where methods are found -/

/-- Values with methods that come with the language. -/
def Value.hasMethods : Value → Bool
  | .array _ | .string _ | .number _ | .date _ => true
  | _ => false

/-- The methods of arrays and texts. -/
def methodNames : List String :=
  ["push", "pop", "includes", "indexOf", "join", "slice", "concat", "map", "filter", "forEach", "reduce",
    "toUpperCase", "toLowerCase", "trim", "toString", "startsWith", "endsWith", "split"]

section

variable {ev : Evaluator} {env : Env} {k : String} {s t : State} {v target : Value} {values : List Value}

theorem noMethod_ne_ok {α : Type} {kind : String} {a : α} : (noMethod kind k : Eval α) s ≠ .ok a t := nofun

theorem mem_methodNames_of_arrayMethod {call : Value → List Value → Eval Value} {ref : Nat}
    (run : arrayMethod call ref k values s = .ok v t) : k ∈ methodNames := by
  unfold arrayMethod at run
  split at run
  · decide
  · decide
  · obtain ⟨h, u, -, run⟩ := bind_eq_ok.1 run
    dsimp only at run
    split at run
    case h_10 => exact absurd run noMethod_ne_ok
    all_goals decide

theorem mem_methodNames_of_stringMethod {text : String} (run : stringMethod text k values s = .ok v t) :
    k ∈ methodNames := by
  obtain ⟨h, u, -, run⟩ := bind_eq_ok.1 run
  dsimp only at run
  split at run
  case h_11 => exact absurd run noMethod_ne_ok
  all_goals decide

/-- No method is called like an item or like the length. -/
theorem not_property_of_mem_methodNames (named : k ∈ methodNames) : k ≠ "length" ∧ indexOfKey? k = none := by
  have each : ∀ k ∈ methodNames, k ≠ "length" ∧ indexOfKey? k = none := by decide +kernel
  exact each k named

/-- A method that comes with the language stands under no key. -/
theorem property_of_hasMethods (native : target.hasMethods = true)
    (run : callMethod ev target k values s = .ok v t) (h : Heap) : h.property target k = .undefined := by
  cases target with
  | array ref =>
    obtain ⟨length, index⟩ := not_property_of_mem_methodNames (mem_methodNames_of_arrayMethod run)
    simp [Heap.property, length, index]
  | string text =>
    obtain ⟨length, index⟩ := not_property_of_mem_methodNames (mem_methodNames_of_stringMethod run)
    simp [Heap.property, length, index]
  | number x => rfl
  | date time => rfl
  | _ => cases native

/-- Any other method is looked up as a property, which only a value that is there has. -/
theorem isNullish_of_callMethod (native : target.hasMethods = false)
    (run : callMethod ev target k values s = .ok v t) : target.isNullish = false := by
  have looked : (getProperty target k >>= fun method =>
      if method.isFunction then ev.call method values
      else raise (.type (.notAFunction (target.typeName ++ "." ++ k)))) s = .ok v t := by
    cases target with
    | array | string | number | date => cases native
    | _ => exact run
  obtain ⟨method, u, read, -⟩ := bind_eq_ok.1 looked
  exact (getProperty_eq_ok.1 read).1

theorem isNullish_of_hasMethods (native : target.hasMethods = true) : target.isNullish = false := by
  cases target with
  | undefined | null => cases native
  | _ => rfl

section

variable {span span' : Span} {object : Expr} {key : Key} {args : List Expr} {u w : State}
  (receiver : evalChain ev env object s = .ok (some target) u) (named : evalKey ev env key u = .ok k w)
include receiver named

theorem evalRule_method (optional : Bool) :
    evalRule ev env (.call span (.member span' object key false) args optional) s =
      (callUnder ev env args optional target k >>= fun found => pure (found.getD .undefined)) w := by
  have chained : evalChain ev env (.call span (.member span' object key false) args optional) s =
      callUnder ev env args optional target k w := by
    refine (congrFun evalChain_method s).trans ?_
    rw [bind_of_ok receiver, goOn_of_present rfl, callNamed, bind_of_ok named]
  show (evalChain ev env _ >>= fun found => pure (found.getD .undefined)) s = _
  simp only [bind, EStateM.bind, chained]

/-- A call that is not optional evaluates its arguments, and only then is the method looked up. -/
theorem evalRule_method_plain :
    evalRule ev env (.call span (.member span' object key false) args false) s = .ok v t ↔
    ∃ values x, evalArgs ev env args w = .ok values x ∧ callMethod ev target k values x = .ok v t := by
  have inside : (callUnder ev env args false target k >>= fun found => pure (found.getD .undefined)) =
      evalArgs ev env args >>= fun values => callMethod ev target k values := by
    have plain : callUnder ev env args false target k =
        evalArgs ev env args >>= fun values => callMethod ev target k values >>= fun v => pure (some v) := rfl
    simp only [plain, bind_assoc, pure_bind, Option.getD_some, bind_pure]
  rw [evalRule_method receiver named, inside, bind_eq_ok]

/-- An optional call reads what stands under the key before anything else. -/
theorem evalRule_method_optional (present : target.isNullish = false) :
    evalRule ev env (.call span (.member span' object key false) args true) s =
      if (w.property target k).isNullish then .ok .undefined w
      else evalRule ev env (.call span (.member span' object key false) args false) s := by
  rw [evalRule_method receiver named, evalRule_method receiver named]
  by_cases absent : (w.property target k).isNullish = true
  · rw [if_pos absent]
    exact bind_of_ok ((callUnder_optional present).trans (if_pos absent))
  · rw [if_neg absent]
    simp only [bind, EStateM.bind, callUnder_optional present, if_neg absent]

end

end

/--
**Calling a method optionally.** Where something stands under the key before the arguments are evaluated, a call that
succeeds does so as an optional call too, with the same value and the same state. A method that comes with the language
is not found by the test of the optional call, which then is `undefined` and leaves the arguments alone.
-/
theorem optional_method_called {host : Host} {fuel : Nat} {env : Env} {span span' : Span} {object : Expr} {key : Key}
    {args : List Expr} {s u w t : State} {target v : Value} {k : String}
    (receiver : evalChain (evaluator host fuel) env object s = .ok (some target) u)
    (named : evalKey (evaluator host fuel) env key u = .ok k w)
    (plain : evalExpr host (fuel + 1) env (.call span (.member span' object key false) args false) s = .ok v t) :
    (target.hasMethods = false → (w.property target k).isNullish = false →
      evalExpr host (fuel + 1) env (.call span (.member span' object key false) args true) s = .ok v t) ∧
    (target.hasMethods = true →
      evalExpr host (fuel + 1) env (.call span (.member span' object key false) args true) s = .ok .undefined w) := by
  obtain ⟨values, x, given, ran⟩ := (evalRule_method_plain receiver named).1 plain
  constructor
  · intro scripted there
    refine (evalRule_method_optional receiver named (isNullish_of_callMethod scripted ran)).trans ?_
    rw [there]
    exact plain
  · intro native
    refine (evalRule_method_optional receiver named (isNullish_of_hasMethods native)).trans ?_
    rw [property_of_hasMethods native ran w.toHeap]
    rfl

section Receivers

/-- Under `o` an object with a method `m`, and under `l` an array. -/
def receivers (items : Array Value) (inner : List (Record Binding)) : State where
  arrays := #[items]
  objects := #[[("m", .function 0)]]
  functions := #[.closure ⟨none, [⟨⟨0, 0⟩, .name "x", none, false⟩], .expr (.ident ⟨0, 0⟩ "x"), true⟩ [0]]
  frames := ([("o", ⟨.object 0, false⟩), ("l", ⟨.array 0, false⟩)] :: inner).toArray

/-- Calls the method `key` of what is under the name. -/
def methodCall (name key : String) (args : List Expr) (optional : Bool) : Expr :=
  .call ⟨0, 0⟩ (.member ⟨0, 0⟩ (.ident ⟨0, 0⟩ name) (.named key) false) args optional

theorem optional_method_called_field :
    let text : Expr := .literal ⟨0, 0⟩ (.string "b")
    let called := receivers #[] [[("x", ⟨.string "b", true⟩)]]
    evalExpr Host.none 9 [0] (methodCall "o" "m" [text] false) (receivers #[] []) = .ok (.string "b") called ∧
    evalExpr Host.none 9 [0] (methodCall "o" "m" [text] true) (receivers #[] []) = .ok (.string "b") called := by
  intro text called
  have receiver : evalChain (evaluator Host.none 8) [0] (.ident ⟨0, 0⟩ "o") (receivers #[] []) =
      .ok (some (.object 0)) (receivers #[] []) := rfl
  have plain : evalExpr Host.none 9 [0] (methodCall "o" "m" [text] false) (receivers #[] []) =
      .ok (.string "b") called := rfl
  exact ⟨plain, (optional_method_called receiver rfl plain).1 rfl rfl⟩

/-- `l.pop()` takes the only item of an array off, and `l.pop?.()` does not. -/
theorem optional_method_skipped :
    evalExpr Host.none 9 [0] (methodCall "l" "pop" [] false) (receivers #[.string "a"] []) =
      .ok (.string "a") (receivers #[] []) ∧
    evalExpr Host.none 9 [0] (methodCall "l" "pop" [] true) (receivers #[.string "a"] []) ≠
      .ok (.string "a") (receivers #[] []) := by
  constructor
  · rfl
  · intro same
    have skipped : evalExpr Host.none 9 [0] (methodCall "l" "pop" [] true) (receivers #[.string "a"] []) =
        .ok .undefined (receivers #[.string "a"] []) := rfl
    cases skipped.symm.trans same

end Receivers

end Staging.Script
