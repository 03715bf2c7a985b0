import Staging.Proofs.Script.Watch

/-!
What a script can do to the state.

All that scripts do comes down to a few primitive steps: to change the arrays, objects and functions of the heap, to
make a scope, to declare a name in it, to write a variable, and to open and close a call. `Conserves R` says that a
family of relations allows for each of these. Then everything that the interpreter runs moves the state along these
relations, however it ends (`evaluator_obeys`). An expression or a call declares nothing in a scope that was there
before it; a statement may declare names in the scope it is executed in, and in no other. So `R none` is for the former
and `R (some i)`, which allows more, for what is done in the scope `i`.

This is the discipline that forbids no state and no failure and knows nothing of the code (`alongOnly`).
-/

namespace Staging.Script

/-- The primitive steps move the state along the relations. -/
structure Conserves (R : Option Nat → State → State → Prop) : Prop where
  connected : ∀ i, Connected (R i)
  /-- In a scope that can be declared in nothing else is forbidden. -/
  inside : ∀ {i s t}, R none s t → R i s t
  heap : ∀ (s : State) (h : Heap), h.frames = s.frames → R none s { h with depth := s.depth }
  declare : ∀ (s : State) (i : Nat) (outer : Env) (name : String) (v : Value) (mutable : Bool),
    R (some i) s { s.toHeap.declare (i :: outer) name v mutable with depth := s.depth }
  write : ∀ (s : State) (env : Env) (name : String) (i : Nat) (v : Value), s.toHeap.target env name = .ok i →
    R none s { s.toHeap.write i name v with depth := s.depth }
  /-- What is declared in a new scope concerns no scope that was there before. -/
  child : ∀ (s t : State) (env : Env),
    R (some s.frames.size) { (s.toHeap.child env).2 with depth := s.depth } t → R none s t
  nested : ∀ s t, R none { s with depth := s.depth + 1 } t → R none s { t with depth := t.depth - 1 }

/-- What stands inside moves the state along the relations. -/
structure Evaluator.Obeys (ev : Evaluator) (R : Option Nat → State → State → Prop) : Prop where
  expr : ∀ env e, Along (R none) (ev.expr env e)
  stmt : ∀ env s, Along (R env.head?) (ev.stmt env s)
  call : ∀ f args, Along (R none) (ev.call f args)

namespace Discipline

/-- Whoever moves along the relations is in order. -/
def alongOnly (R : Option Nat → State → State → Prop) : Discipline where
  allowed _ := True
  moves := R
  fails _ := True
  vetted := False

theorem keeps_alongOnly {R : Option Nat → State → State → Prop} {α : Type} {i : Option Nat} {act : Eval α}
    (along : Along (R i) act) : (alongOnly R).Keeps i act act := by
  refine fun s _ => ⟨rfl, along s, ?_⟩
  cases act s with
  | ok a t => trivial
  | error e t => cases e <;> trivial

theorem along_of_keeps {R : Option Nat → State → State → Prop} {α : Type} {i : Option Nat} {x y : Eval α}
    (h : (alongOnly R).Keeps i x y) : Along (R i) y := by
  intro s
  obtain ⟨same, moves, _⟩ := h s trivial
  rwa [same] at moves

end Discipline

namespace Conserves

open Discipline

variable {R : Option Nat → State → State → Prop} (c : Conserves R)
include c

theorem lawful : (alongOnly R).Lawful where
  connected := c.connected
  inside := c.inside
  stays _ _ := trivial
  failure _ _ := trivial
  heap s h frames _ := c.heap s h frames
  function s f _ := c.heap s (s.toHeap.newFunction f).2 rfl
  declare := c.declare
  write := c.write
  child := c.child
  opened _ _ _ := trivial
  closed := c.nested
  known := nofun

/-! ### Steps -/

section Steps

variable {α β : Type} {i : Option Nat} {env : Env}

theorem pure (a : α) : Along (R i) (Pure.pure a : Eval α) := Along.pure (c.connected i) a

theorem bind {x : Eval α} {f : α → Eval β} (hx : Along (R i) x) (hf : ∀ a, Along (R i) (f a)) :
    Along (R i) (x >>= f) := Along.bind (c.connected i) hx hf

theorem raise (e : RuntimeError) : Along (R i) (raise e : Eval α) := Along.throw (c.connected i) _

theorem getHeap : Along (R i) getHeap := along_of_keeps c.lawful.getHeap

theorem onHeap {f : Heap → α × Heap} (h : ∀ h, (f h).2.frames = h.frames) : Along (R i) (onHeap f) :=
  fun s => c.inside (c.heap s (f s.toHeap).2 (h s.toHeap))

theorem displayOf (v : Value) : Along (R i) (displayOf v) := along_of_keeps (c.lawful.displayOf v)

theorem numberOf (v : Value) : Along (R i) (numberOf v) := along_of_keeps (c.lawful.numberOf v)

theorem getVar (name : String) : Along (R i) (getVar env name) := along_of_keeps (c.lawful.getVar name)

theorem declareVar (name : String) (v : Value) (mutable : Bool) :
    Along (R env.head?) (declareVar env name v mutable) := along_of_keeps (c.lawful.declareVar name v mutable)

theorem iterate (kind : IterKind) (source : Value) : Along (R i) (iterate kind source) :=
  along_of_keeps (c.lawful.iterate kind source)

/-- Binding a pattern declares its names in the innermost scope, or assigns to them. -/
theorem bindPattern (mode : BindMode) (p : Pattern) (v : Value) : Along (R env.head?) (bindPattern env mode p v) :=
  along_of_keeps (c.lawful.bindPattern mode p v)

end Steps

/-! ### Running -/

/-- **All that the interpreter runs moves the state along the relations.** -/
theorem evaluator_obeys {host : Host} (hosted : ∀ id args, Along (R none) (host id args)) (fuel : Nat) :
    (evaluator host fuel).Obeys R := by
  have like := c.lawful.evaluator_like (Watch.idle_suits _) (fun id args => keeps_alongOnly (hosted id args)) fuel
  constructor
  · intro env e
    exact along_of_keeps (like.expr env e nofun)
  · intro env s
    exact along_of_keeps (like.stmt env s {} nofun).keeps
  · intro f args
    exact along_of_keeps (like.call f args)

end Conserves

end Staging.Script
