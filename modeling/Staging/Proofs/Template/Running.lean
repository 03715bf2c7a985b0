import Staging.Proofs.Script.ScopeNames
import Staging.Template.SelfCall

/-!
What running a program does to the state.

A running program works on the state through its interpreter only, so the state moves along whatever relations the
interpreter moves it along (`Conserves.runAll`). A whole run makes scopes of its own and declares names in these alone
(`execute_keepsNames`). This holds of functions of the host program as well that run a template in turn
(`SelfCall.host_keepsNames`).
-/

namespace Staging.Template

open Script

/-- The states of the interpreters are related. -/
def OnState (R : State → State → Prop) (s t : GenerateState) : Prop := R s.toState t.toState

theorem connected_onState {R : State → State → Prop} (c : Connected R) : Connected (OnState R) :=
  ⟨fun s => c.refl s.toState, c.trans⟩

section

variable {α : Type} {R : State → State → Prop}

theorem along_interpret {act : Eval α} (h : Along R act) : Along (OnState R) (interpret act) := by
  intro s
  have along := h s.toState
  unfold interpret
  split
  · rwa [‹act s.toState = _›] at along
  · rwa [‹act s.toState = _›] at along
  · rwa [‹act s.toState = _›] at along

theorem interpret_ok {act : Eval α} {s t : GenerateState} {a : α} (run : interpret act s = .ok a t) :
    act s.toState = .ok a t.toState := by
  unfold interpret at run
  split at run
  · cases run
    assumption
  · cases run
  · cases run

theorem interpret_of_ok {act : Eval α} {s : GenerateState} {t : State} {a : α}
    (run : act s.toState = .ok a t) : interpret act s = .ok a { t with out := s.out } := by
  simp only [interpret, run]

theorem interpret_refused {act : Eval α} {s t : GenerateState} {e : RuntimeError}
    (run : interpret act s = .error (.refused (.runtime e)) t) : act s.toState = .error (.error e) t.toState := by
  unfold interpret at run
  split at run
  · cases run
  · cases run
    assumption
  · cases run

theorem along_append (c : Connected R) (text : String) : Along (OnState R) (append text) := fun s => c.refl s.toState

end

end Staging.Template

namespace Staging.Script.Conserves

open Template

variable {R : Option Nat → State → State → Prop} (c : Conserves R) {i : Option Nat}
include c

/-! ### Steps of a program -/

section Steps

variable {α β : Type}

theorem pureG (a : α) : Along (OnState (R i)) (Pure.pure a : Generate α) :=
  Along.pure (connected_onState (c.connected i)) a

theorem bindG {x : Generate α} {f : α → Generate β} (hx : Along (OnState (R i)) x)
    (hf : ∀ a, Along (OnState (R i)) (f a)) : Along (OnState (R i)) (x >>= f) :=
  Along.bind (connected_onState (c.connected i)) hx hf

theorem throwG (h : Halt) : Along (OnState (R i)) (throw h : Generate α) :=
  Along.throw (connected_onState (c.connected i)) h

theorem anywhereG {act : Generate α} (h : Along (OnState (R none)) act) : Along (OnState (R i)) act :=
  h.mono fun _ _ => c.inside

/-- What a program does in a new scope. -/
theorem newScopeG {env : Env} {act : Env → Generate α}
    (h : ∀ j, Along (OnState (R (j :: env).head?)) (act (j :: env))) :
    Along (OnState (R i)) (interpret (Script.newScope env) >>= act) := by
  refine c.anywhereG fun s => ?_
  exact c.child s.toState _ env
    (h s.frames.size { (s.toHeap.child env).2 with depth := s.depth, out := s.out })

end Steps

/-! ### Instructions -/

theorem writtenOf (v : Value) : Along (R i) (writtenOf v) := by
  refine c.bind c.getHeap fun h => ?_
  split
  · exact c.pure _
  · exact c.raise _

theorem checkCallable (env : Env) (e : Expr) : Along (OnState (R i)) (checkCallable env e) := by
  unfold Template.checkCallable
  split
  · refine c.bindG (along_interpret (c.getVar _)) fun v => ?_
    split
    · exact c.pureG ()
    · exact c.throwG _
  · exact c.pureG ()

theorem writeDeclaration (scope : Env) (name : String) : Along (OnState (R i)) (writeDeclaration scope name) := by
  refine c.bindG (along_interpret (c.getVar name)) fun v => ?_
  exact c.bindG (along_interpret (c.writtenOf v)) fun code => along_append (c.connected i) _

theorem runRound (env : Env) (pattern : Pattern) (declare : List String) {body : Env → Generate Flow}
    (h : ∀ scope, Along (OnState (R none)) (body scope)) (item : Value) :
    Along (OnState (R none)) (runRound env pattern declare body item) := by
  refine c.newScopeG fun j => c.bindG (along_interpret (c.bindPattern _ pattern item)) fun _ => ?_
  refine c.bindG (along_append (c.connected _) _) fun _ => c.bindG ?_ fun _ => ?_
  · exact Along.forM (connected_onState (c.connected _)) declare fun name _ => c.writeDeclaration _ name
  · refine c.bindG (c.anywhereG (h (j :: env))) fun flow => ?_
    exact c.bindG (along_append (c.connected _) _) fun _ => c.pureG flow

theorem runRounds (label : Option String) {round : Value → Generate Flow}
    (h : ∀ item, Along (OnState (R none)) (round item)) :
    ∀ items : List Value, Along (OnState (R none)) (runRounds label round items)
  | [] => c.pureG _
  | item :: rest => by
    refine c.bindG (h item) fun flow => ?_
    cases flow with
    | normal => exact runRounds label h rest
    | jump j target =>
      simp only
      split
      · cases j with
        | continue_ => exact runRounds label h rest
        | break_ => exact c.pureG _
      · exact c.pureG _

mutual

theorem runStep {ev : Evaluator} (inner : ev.Obeys R) (env : Env) :
    ∀ i : Instruction, Along (OnState (R none)) (runStep ev i env)
  | .literal text => by
    unfold Template.runStep
    exact c.bindG (along_append (c.connected none) text) fun _ => c.pureG _
  | .inline e min atStart => by
    unfold Template.runStep
    refine c.bindG (along_interpret (inner.expr env e)) fun v => ?_
    refine c.bindG (along_interpret (c.writtenOf v)) fun code => ?_
    exact c.bindG (along_append (c.connected none) _) fun _ => c.pureG _
  | .call e => by
    unfold Template.runStep
    refine c.bindG (c.checkCallable env e) fun _ => c.bindG (along_interpret (inner.expr env e)) fun v => ?_
    refine c.bindG (along_interpret (c.displayOf v)) fun text => ?_
    exact c.bindG (along_append (c.connected none) _) fun _ => c.pureG _
  | .if_ test yes no => by
    unfold Template.runStep
    refine c.bindG (along_interpret (inner.expr env test)) fun v => ?_
    split
    · exact c.newScopeG fun j => c.anywhereG (runAll inner (j :: env) yes)
    · exact runElse inner env no
  | .each label kind pattern source declare body => by
    unfold Template.runStep
    refine c.bindG (along_interpret (inner.expr env source)) fun collection => ?_
    refine c.bindG (along_interpret (c.iterate kind collection)) fun items => ?_
    exact c.runRounds label (c.runRound env pattern declare fun scope => runAll inner scope body) items
  | .block body => by
    unfold Template.runStep
    refine c.bindG (along_append (c.connected none) _) fun _ => c.bindG (runAll inner env body) fun flow => ?_
    exact c.bindG (along_append (c.connected none) _) fun _ => c.pureG flow
  | .jump j label => by
    unfold Template.runStep
    exact c.pureG _

/-- **Running code moves the state along the relations.** -/
theorem runAll {ev : Evaluator} (inner : ev.Obeys R) (env : Env) :
    ∀ code : List Instruction, Along (OnState (R none)) (runAll ev code env)
  | [] => by
    unfold Template.runAll
    exact c.pureG _
  | i :: rest => by
    unfold Template.runAll
    refine c.bindG (runStep inner env i) fun flow => ?_
    split
    · exact runAll inner env rest
    · exact c.pureG _

theorem runElse {ev : Evaluator} (inner : ev.Obeys R) (env : Env) :
    ∀ no : Option (List Instruction), Along (OnState (R none)) (runElse ev no env)
  | none => by
    unfold Template.runElse
    exact c.pureG _
  | some no => by
    unfold Template.runElse
    exact c.newScopeG fun j => c.anywhereG (runAll inner (j :: env) no)

end

end Staging.Script.Conserves

namespace Staging.Template

open Script

/-! ### Whole runs -/

section

variable {g : Nat} {host : Host} (hosted : ∀ id args, Along (KeepsNames g none) (host id args))

theorem along_declareParams (context : Context) (env : Env) (params : List String) :
    Along (OnState (KeepsNames g env.head?)) (declareParams context env params) := by
  have c := conserves_keepsNames g
  refine Along.forM (connected_onState (c.connected _)) params fun name _ => ?_
  split
  · exact along_interpret (c.declareVar name _ false)
  · exact c.throwG _

include hosted

theorem along_runMain (fuel : Nat) (p : Program) (context : Context) :
    Along (OnState (KeepsNames g none)) (runMain (evaluator host fuel) p context) := by
  have c := conserves_keepsNames g
  refine c.bindG (along_interpret (along_freshGlobals g none)) fun globals => c.newScopeG fun j => ?_
  refine c.bindG (along_declareParams context (j :: globals) p.params) fun _ => ?_
  refine c.bindG (c.anywhereG (c.runAll (c.evaluator_obeys hosted fuel) (j :: globals) p.instructions)) fun _ => ?_
  exact c.pureG ()

/-- **A run declares names in scopes of its own only.** -/
theorem execute_keepsNames (fuel : Nat) (p : Program) (context : Context) :
    Along (KeepsNames g none) (execute host fuel p context) := by
  intro s
  have along := along_runMain hosted fuel p context { toState := { s with depth := 0 }, out := "" }
  unfold execute
  simp only
  split
  · rw [‹runMain _ _ _ _ = _›] at along
    exact ⟨along.size, along.names⟩
  · rw [‹runMain _ _ _ _ = _›] at along
    exact ⟨along.size, along.names⟩
  · rw [‹runMain _ _ _ _ = _›] at along
    exact ⟨along.size, along.names⟩

theorem Generator.build_keepsNames (fuel : Nat) (generator : Generator) (context : Context) :
    Along (KeepsNames g none) (generator.build host fuel context) := by
  unfold Generator.build
  split
  · exact execute_keepsNames hosted fuel _ context
  · exact (conserves_keepsNames g).pure _

end

/-- A function that generates a template again declares names in scopes of its own only. -/
theorem SelfCall.host_keepsNames (g : Nat) (self : SelfCall) (fuel : Nat) : ∀ (levels id : Nat) (args : List Value),
    Along (KeepsNames g none) (self.host fuel levels id args)
  | 0, _, _ => Along.throw ((conserves_keepsNames g).connected none) _
  | levels + 1, _, args => by
    have c := conserves_keepsNames g
    refine c.bind (c.numberOf _) fun x => ?_
    split
    · have values : Along (KeepsNames g none) (self.context x) :=
        c.bind (c.onHeap (f := (·.newFunction (.host self.callee 0))) fun _ => rfl) fun _ => c.pure _
      refine c.bind values fun context => ?_
      refine c.bind (Generator.build_keepsNames (self.host_keepsNames g fuel levels) fuel _ context) fun built => ?_
      split
      · exact c.pure _
      · exact c.bind c.getHeap fun _ => c.raise _
    · exact c.pure _

end Staging.Template
