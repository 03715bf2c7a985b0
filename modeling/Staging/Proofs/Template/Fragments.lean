import Staging.Proofs.Outcome
import Staging.Proofs.Template.Walk
import Staging.Template.Execute

/-!
Running fragments.

The instructions of a program are fragments with neighbouring texts joined. Joining makes no difference to
a run (`runAll_codeOfFragments`), so what a program appends can be followed fragment by fragment.
-/

namespace Staging.Template

open Script

/-- Runs a fragment. -/
def Fragment.run (ev : Evaluator) (env : Env) : Fragment → Generate Flow
  | .text t => do
    append t
    return .normal
  | .code i => runStep ev i env

/-- Runs fragments in order, up to a jump. -/
def runFragments (ev : Evaluator) (env : Env) : List Fragment → Generate Flow
  | [] => return .normal
  | f :: rest => do
    match ← f.run ev env with
    | .normal => runFragments ev env rest
    | flow => return flow

variable {ev : Evaluator} {env : Env}

/-- The state after a text was appended. -/
def GenerateState.wrote (s : GenerateState) (t : String) : GenerateState := { s with out := s.out ++ t }

@[simp] theorem GenerateState.wrote_empty (s : GenerateState) : s.wrote "" = s := by
  simp [GenerateState.wrote]

@[simp] theorem GenerateState.wrote_wrote (s : GenerateState) (t u : String) :
    (s.wrote t).wrote u = s.wrote (t ++ u) := by
  simp [GenerateState.wrote, String.append_assoc]

@[simp] theorem GenerateState.wrote_toState (s : GenerateState) (t : String) :
    (s.wrote t).toState = s.toState := rfl

theorem append_eq (t : String) (s : GenerateState) : append t s = .ok () (s.wrote t) := rfl

theorem runFragments_text (t : String) (rest : List Fragment) (s : GenerateState) :
    runFragments ev env (.text t :: rest) s = runFragments ev env rest (s.wrote t) := rfl

theorem runFragments_code {i : Instruction} {s t : GenerateState} (rest : List Fragment)
    (h : runStep ev i env s = .ok .normal t) :
    runFragments ev env (.code i :: rest) s = runFragments ev env rest t := by
  simp only [runFragments, Fragment.run, bind, EStateM.bind, h]

theorem runFragments_error {i : Instruction} {s t : GenerateState} {e : Halt} (rest : List Fragment)
    (h : runStep ev i env s = .error e t) : runFragments ev env (.code i :: rest) s = .error e t := by
  simp only [runFragments, Fragment.run, bind, EStateM.bind, h]

/-- Running texts appends them. -/
theorem runFragments_texts (ts : List String) (s : GenerateState) :
    runFragments ev env (ts.map .text) s = .ok .normal (s.wrote (String.join ts)) := by
  induction ts generalizing s with
  | nil => simp [runFragments, pure, EStateM.pure]
  | cons t rest ih => rw [List.map_cons, runFragments_text, ih]; simp

theorem runAll_flush (t : String) (rest : List Instruction) (s : GenerateState) :
    runAll ev (Buffer.flush t rest) env s = runAll ev rest env (s.wrote t) := by
  unfold Buffer.flush
  split
  · rename_i empty
    simp [String.isEmpty_iff.1 empty]
  · rfl

/-- Joining neighbouring texts makes no difference to a run. -/
theorem runAll_codeOfFragments (fs : List Fragment) (s : GenerateState) :
    runAll ev (codeOfFragments fs) env s = runFragments ev env fs s := by
  suffices h : ∀ pending, runAll ev (Buffer.coalesce pending fs) env s
      = runFragments ev env fs (s.wrote pending) by
    simpa [codeOfFragments] using h ""
  induction fs generalizing s with
  | nil => exact fun pending => runAll_flush pending [] s
  | cons f rest ih =>
    intro pending
    cases f with
    | text t =>
      rw [Buffer.coalesce, runFragments_text, GenerateState.wrote_wrote]
      exact ih s (pending ++ t)
    | code i =>
      have after : runAll ev (Buffer.coalesce "" rest) env = runFragments ev env rest := by
        funext t
        simpa using ih t ""
      rw [Buffer.coalesce, runAll_flush, runAll, after]
      rfl

end Staging.Template
