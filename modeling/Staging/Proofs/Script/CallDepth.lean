import Staging.Proofs.Script.Watch

/-!
How deep calls are nested.

The state counts the calls that are open. Every evaluation closes the calls that it opened, whether it gives a result or
fails, and what a script catches has been closed before; so the limit holds from within as well, in callbacks and
handlers too. At the limit a call fails, and its function does not run (`call_depth_balanced`).
-/

namespace Staging.Script

/-! ### Open calls -/

/-- Within the limit, and with all calls closed again. -/
def Discipline.calls : Discipline where
  allowed s := s.depth ≤ maxCallDepth
  moves _ s t := t.depth = s.depth
  fails _ := True
  vetted := False

/-- Only calls change how many are open. -/
theorem Discipline.calls_lawful : Discipline.calls.Lawful where
  connected _ := ⟨fun _ => rfl, fun first second => second.trans first⟩
  inside same := same
  stays := by
    intro i s t same within
    exact Nat.le_trans (Nat.le_of_eq same) within
  failure _ _ := trivial
  heap _ _ _ _ := rfl
  function _ _ _ := rfl
  declare _ _ _ _ _ _ := rfl
  write _ _ _ _ _ _ := rfl
  child _ _ _ same := same
  opened _ _ below := below
  closed := by
    intro s t same
    exact congrArg (· - 1) same
  known := nofun

/-- A watch for more than a number of open calls. -/
def Watch.calls (limit : Nat) : Watch := ⟨fun s => decide (s.depth ≤ limit), fun _ => true⟩

theorem Watch.calls_suits : (Watch.calls maxCallDepth).Suits .calls where
  allows _ within := decide_eq_true within
  leaves _ _ := rfl

/-! ### Evaluations -/

/-- What the interpreter can be asked to do. -/
inductive Evaluation where
  | expr (env : Env) (e : Expr)
  | stmt (env : Env) (s : Stmt)
  | block (env : Env) (body : List Stmt)
  | method (target : Value) (key : String) (args : List Value)
  | call (callee : Value) (args : List Value)

namespace Evaluation

/-- What comes out of it if all goes well. -/
def Result : Evaluation → Type
  | expr _ _ | method _ _ _ | call _ _ => Value
  | stmt _ _ | block _ _ => Completion

def run (ev : Evaluator) : (e : Evaluation) → Eval e.Result
  | expr env e => ev.expr env e
  | stmt env s => ev.stmt env s
  | block env body => execBlock ev env body
  | method target key args => callMethod ev target key args
  | call callee args => ev.call callee args

/-- Without anything known of the code, evaluations end alike where what stands inside does. -/
theorem keeps {d : Discipline} (l : d.Lawful) (unvetted : ¬ d.vetted) {ev ev' : Evaluator} (inner : ev.Like d ev')
    (e : Evaluation) : ∃ i, d.Keeps i (e.run ev) (e.run ev') := by
  cases e with
  | expr env e => exact ⟨none, inner.expr env e fun vetted => (unvetted vetted).elim⟩
  | stmt env s => exact ⟨env.head?, (inner.stmt env s {} fun vetted => (unvetted vetted).elim).keeps⟩
  | block env body =>
    have known : d.vetted → Stmt.allJumpsScoped {} body = true := fun vetted => (unvetted vetted).elim
    exact ⟨env.head?, (l.execBlock inner body known).keeps⟩
  | method target key args => exact ⟨none, l.callMethod inner target key args⟩
  | call callee args => exact ⟨none, inner.call callee args⟩

end Evaluation

/-- At the limit a call fails; below it runs the function as one more open call. -/
theorem callValue_eq {host : Host} {fuel ref : Nat} {c : Callable} {args : List Value} {s : State}
    (within : s.depth ≤ maxCallDepth) (found : s.function? ref = some c) :
    callValue host (fuel + 1) (.function ref) args s =
      if s.depth = maxCallDepth then .error (.error (.callDepth maxCallDepth)) s
      else nested (invoke (evaluator host fuel) host c args) s := by
  show callRule (evaluator host fuel) host (.function ref) args s = _
  rw [callRule, bind_of_ok (show (get : Eval State) s = .ok s s from rfl)]
  simp only [found]
  by_cases reached : s.depth = maxCallDepth
  · rw [if_pos reached, if_pos (Nat.le_of_eq reached.symm)]
    rfl
  · have below : ¬ maxCallDepth ≤ s.depth := by omega
    rw [if_neg reached, if_neg below]

/--
**Calls are closed however an evaluation ends, and never more are open than the limit allows.** Functions of the host
program have to leave the count as it was, too; they cannot change it but by calls.
-/
theorem call_depth_balanced {host : Host}
    (hosted : ∀ id args s, s.depth ≤ maxCallDepth → (endOf (host id args s)).depth = s.depth) (fuel : Nat) {s : State}
    (within : s.depth ≤ maxCallDepth) :
    (∀ e : Evaluation, (endOf (e.run (evaluator host fuel) s)).depth = s.depth ∧
      e.run ((Watch.calls maxCallDepth).evaluator host fuel) s = e.run (evaluator host fuel) s) ∧
    ∀ ref c args, s.function? ref = some c → callValue host (fuel + 1) (.function ref) args s =
      if s.depth = maxCallDepth then .error (.error (.callDepth maxCallDepth)) s
      else nested (invoke (evaluator host fuel) host c args) s := by
  have closes : ∀ id args, Discipline.calls.Keeps none (host id args) (host id args) := by
    intro id args s within
    refine ⟨rfl, hosted id args s within, ?_⟩
    cases host id args s with
    | ok a t => trivial
    | error e t => cases e <;> trivial
  have like := Discipline.calls_lawful.evaluator_like Watch.calls_suits closes fuel
  constructor
  · intro e
    obtain ⟨_, ends⟩ := e.keeps Discipline.calls_lawful not_false like
    obtain ⟨same, moves, _⟩ := ends s within
    exact ⟨same ▸ moves, same⟩
  · intro ref c args found
    exact callValue_eq within found

/-- A host function that calls the function it is given. -/
def callback : Host where
  call _ args := callValue Host.none 9 (args.head?.getD .undefined) []

/-- Two calls below the limit. The function `f` has itself called by `g`, and catches what comes of it. -/
def nearLimit : State where
  functions :=
    let again : Expr := .call ⟨0, 0⟩ (.ident ⟨0, 0⟩ "g") [.ident ⟨0, 0⟩ "f"] false
    let caught : Expr := .literal ⟨0, 0⟩ (.string "caught")
    #[.closure ⟨some "f", [], .block [.try_ ⟨0, 0⟩ [.return_ ⟨0, 0⟩ (some again)]
      (some ⟨none, [.return_ ⟨0, 0⟩ (some caught)]⟩) none], false⟩ [0], .host "g" 0]
  frames := #[[("f", ⟨.function 0, true⟩), ("g", ⟨.function 1, true⟩)]]
  depth := 254

theorem call_depth_balanced_callback : nearLimit.depth ≤ maxCallDepth ∧
    (∃ t, callValue callback 9 (.function 0) [] nearLimit = .ok (.string "caught") t ∧ t.depth = nearLimit.depth) ∧
    ((Watch.calls maxCallDepth).evaluator callback 9).call (.function 0) [] nearLimit =
      callValue callback 9 (.function 0) [] nearLimit := by
  have within : nearLimit.depth ≤ maxCallDepth := by decide
  have nothing : ∀ id args (s : State), s.depth ≤ maxCallDepth → (endOf (Host.none id args s)).depth = s.depth :=
    fun _ _ _ _ => rfl
  have hosted : ∀ id args (s : State), s.depth ≤ maxCallDepth → (endOf (callback id args s)).depth = s.depth :=
    fun _ args _ within => ((call_depth_balanced nothing 9 within).1 (.call (args.head?.getD .undefined) [])).1
  obtain ⟨closed, same⟩ := (call_depth_balanced hosted 9 within).1 (.call (.function 0) [])
  refine ⟨within, ⟨_, rfl, ?_⟩, same⟩
  exact closed

end Staging.Script
