import Staging.Proofs.Script.Rules

/-!
Runs that are watched.

A `Watch` looks at a run from within: at the states in which an expression, a statement, a call or the function that is
called starts and ends, and at how the bodies of functions end. The watched interpreter (`Watch.evaluator`) goes by the
same rules, but stops without a result as soon as it sees what the watch does not let pass. No script can catch that.
So where a run and the watched run have the same outcome, and it is not lack of fuel, the watch let all pass.

That is the case whenever the watch lets all pass that a lawful discipline allows (`Lawful.evaluator_like`).
-/

namespace Staging.Script

/-- What may be seen in a run. -/
structure Watch where
  /-- The states that may be seen. -/
  allows : State → Bool
  /-- How the body of a function may end. -/
  leaves : Completion → Bool

namespace Watch

variable (w : Watch)

/-- Runs a computation, unless it starts or ends in a state that may not be seen. -/
def guard {α : Type} (act : Eval α) : Eval α := fun s =>
  if w.allows s then
    match act s with
    | .ok a t => if w.allows t then .ok a t else .error .outOfFuel t
    | .error e t => if w.allows t then .error e t else .error .outOfFuel t
  else .error .outOfFuel s

/-- Runs a function, unless its body ends as it may not. -/
def invoke (ev : Evaluator) (host : Host) (c : Callable) (args : List Value) : Eval Value := do
  match c with
  | .builtin b => b.run host.now args
  | .host _ id => host id args
  | .closure func captured =>
    let scope ← newScope captured
    bindParams ev scope func.params args
    match func.body with
    | .expr e => ev.expr scope e
    | .block body =>
      let done ← execBlock ev scope body
      if w.leaves done then
        match done with
        | .return_ v => return v
        | _ => return .undefined
      else throw .outOfFuel

/-- One level of a call; the states within the call are seen. -/
def callRule (ev : Evaluator) (host : Host) (callee : Value) (args : List Value) : Eval Value := do
  let s ← get
  match callee with
  | .function ref =>
    if maxCallDepth ≤ s.depth then raise (.callDepth maxCallDepth)
    else
      match s.function? ref with
      | some c => nested (w.guard (w.invoke ev host c args))
      | none => return .undefined
  | _ => raise (.type (.notAFunction callee.typeName))

/-- The interpreter under the eyes of the watch. -/
def evaluator (host : Host) : Nat → Evaluator
  | 0 => ⟨fun _ _ => throw .outOfFuel, fun _ _ => throw .outOfFuel, fun _ _ => throw .outOfFuel, 0⟩
  | fuel + 1 =>
    let inner := evaluator host fuel
    ⟨fun env e => w.guard (evalRule inner env e), fun env s => w.guard (execRule inner env s),
      fun f args => w.guard (w.callRule inner host f args), fuel + 1⟩

/-- A watch that lets everything pass. -/
def idle : Watch := ⟨fun _ => true, fun _ => true⟩

/-- The watch lets all pass that the discipline allows. -/
structure Suits (d : Discipline) : Prop where
  allows : ∀ s, d.allowed s → w.allows s = true
  leaves : ∀ c, (d.vetted → JumpScope.Permits {} c) → w.leaves c = true

theorem idle_suits (d : Discipline) : idle.Suits d := ⟨fun _ _ => rfl, fun _ _ => rfl⟩

variable {w} {d : Discipline}

/-- What obeys the discipline passes. -/
theorem Suits.guard (suits : w.Suits d) {α : Type} {i : Option Nat} {Q : α → Prop} {x y : Eval α} (l : d.Lawful)
    (h : d.Ends i Q x y) : d.Ends i Q (w.guard x) y := by
  intro s may
  obtain ⟨same, moves, meets⟩ := h s may
  have after := suits.allows _ (l.stays moves may)
  have seen : w.guard x s = x s := by
    unfold Watch.guard
    rw [if_pos (suits.allows s may)]
    cases ended : x s with
    | ok a t =>
      rw [ended] at after
      exact if_pos after
    | error e t =>
      rw [ended] at after
      exact if_pos after
  rw [seen]
  exact ⟨same, moves, meets⟩

end Watch

namespace Discipline.Lawful

variable {d : Discipline} (l : d.Lawful) {w : Watch} (suits : w.Suits d) {host : Host}
  (hosted : ∀ id args, d.Keeps none (host id args) (host id args))
include l suits hosted

section

variable {ev ev' : Evaluator} (inner : ev.Like d ev')
include inner

/-- The body of a function has nothing around it, so it ends in no jump. -/
theorem invoke (c : Callable) (known : d.vetted → c.jumpsScoped = true) (args : List Value) :
    d.Keeps none (w.invoke ev host c args) (invoke ev' host c args) := by
  cases c with
  | builtin b => exact l.runBuiltin b host.now args
  | host name id => exact hosted id args
  | closure func captured =>
    obtain ⟨name, params, body, arrow⟩ := func
    simp only [Callable.jumpsScoped, Func.jumpsScoped, Bool.and_eq_true] at known
    refine l.newScope fun j => l.bind (l.bindParams inner params args fun k => (known k).1) fun _ => ?_
    cases body with
    | expr e =>
      simp only [FuncBody.jumpsScoped] at known
      exact l.anywhere (inner.expr (j :: captured) e fun k => (known k).2)
    | block body =>
      simp only [FuncBody.jumpsScoped] at known
      refine l.bindOf (l.execBlock inner body fun k => (known k).2) fun done permits => ?_
      rw [if_pos (suits.leaves done permits)]
      cases done <;> exact l.pure _

/-- A call below the limit runs its function as one more open call. -/
theorem callRule (f : Value) (args : List Value) :
    d.Keeps none (w.callRule ev host f args) (callRule ev' host f args) := by
  refine inspect fun s may => ?_
  cases f with
  | function ref =>
    simp only
    split
    · exact l.raise (by simp) s may
    · rename_i below
      cases found : s.function? ref with
      | none => exact l.pure _ s may
      | some c =>
        have known : d.vetted → c.jumpsScoped = true := fun vetted => l.known vetted s may ref c found
        exact l.nested (suits.guard l (l.invoke suits hosted inner c known args)) may (Nat.lt_of_not_le below)
  | _ => exact l.raise (by simp) s may

end

/-- **The watched interpreter and the interpreter itself end alike under a discipline that suits the watch.** -/
theorem evaluator_like (fuel : Nat) : (w.evaluator host fuel).Like d (evaluator host fuel) := by
  induction fuel with
  | zero => exact ⟨fun _ _ _ => l.outOfFuel, fun _ _ _ _ => l.outOfFuel, fun _ _ => l.outOfFuel, rfl⟩
  | succ fuel ih =>
    constructor
    · exact fun env e h => suits.guard l (l.evalRule ih e h)
    · exact fun env s sc h => suits.guard l (l.execRule ih s h)
    · exact fun f args => suits.guard l (l.callRule suits hosted ih f args)
    · rfl

end Discipline.Lawful

/-- A function that ends in a jump gives no result, but a watch for jumps stops it. -/
example :
    let jumps : Watch := ⟨fun _ => true, fun | .break_ _ | .continue_ _ => false | _ => true⟩
    let s : State := { functions := #[.closure ⟨none, [], .block [.break_ ⟨0, 0⟩ none], false⟩ []] }
    (∃ t, callValue Host.none 5 (.function 0) [] s = .ok .undefined t) ∧
      ∃ t, (jumps.evaluator Host.none 5).call (.function 0) [] s = .error .outOfFuel t :=
  ⟨⟨_, rfl⟩, _, rfl⟩

/-- The states within a call are seen. -/
example :
    let noCalls : Watch := ⟨fun s => decide (s.depth = 0), fun _ => true⟩
    let s : State := { functions := #[.builtin .isArray] }
    (∃ t, callValue Host.none 5 (.function 0) [] s = .ok (.bool false) t) ∧
      ∃ t, (noCalls.evaluator Host.none 5).call (.function 0) [] s = .error .outOfFuel t :=
  ⟨⟨_, rfl⟩, _, rfl⟩

end Staging.Script
