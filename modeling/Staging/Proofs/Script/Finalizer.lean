import Staging.Proofs.Outcome
import Staging.Script.Run

/-!
Finalizers.

A statement with a finalizer does three things one after the other: the block, the handler if the block fails, and the
finalizer. `Guards` says how the first two end, whatever they do, and `Finishes` how the statement ends then: the
finalizer decides if it jumps, returns or fails, and otherwise the result so far stands.

`finalizer_runs_once` says that this is what `try` does, provided that the caught value can be bound to the handler's
parameter (`Binds`). A parameter that is a name can always be bound (`binds_of_name`); a pattern may fail, and then the
statement ends before its finalizer (`endsIn_execTry_of_unbound`).
-/

namespace Staging.Script

/-! ### The parts of a statement -/

section

variable (ev : Evaluator) (env : Env)

/-- Executes statements in a scope of their own. -/
def execInside (body : List Stmt) : Eval Completion := do execBlock ev (← newScope env) body

/-- Makes the scope of a handler, in which the caught value is bound. -/
def catchScope (handler : CatchClause) (e : RuntimeError) : Eval Env := do
  let scope ← newScope env
  match handler.param with
  | some p => bindPattern scope (.declare true) p (e.caught (← getHeap))
  | none => pure ()
  return scope

/-- What is done before the finalizer: the block, and the handler if the block fails. -/
def execGuarded (block : List Stmt) (handler : Option CatchClause) : Eval (Except RuntimeError Completion) := do
  match ← attempt (execInside ev env block), handler with
  | .error e, some h => execHandler ev env h e
  | r, _ => return r

/-- The finalizer, after which the result so far stands unless the finalizer ends in another way. -/
def execFinally (finalizer : List Stmt) (result : Except RuntimeError Completion) : Eval Completion := do
  match ← execInside ev env finalizer with
  | .normal _ => resume result
  | abrupt => return abrupt

theorem execHandler_eq (handler : CatchClause) (e : RuntimeError) :
    execHandler ev env handler e =
      catchScope env handler e >>= fun scope => attempt (execBlock ev scope handler.body) := by
  unfold execHandler catchScope
  cases handler.param <;> simp only [bind_assoc, pure_bind]

theorem execTry_eq (block : List Stmt) (handler : Option CatchClause) (finalizer : List Stmt) :
    execTry ev env block handler (some finalizer) =
      execGuarded ev env block handler >>= execFinally ev env finalizer := by
  have inside : attempt (execInside ev env block) =
      newScope env >>= fun scope => attempt (execBlock ev scope block) := rfl
  have closing : execFinally ev env finalizer = fun result => do
      match ← execBlock ev (← newScope env) finalizer with
      | .normal _ => resume result
      | abrupt => return abrupt := by
    funext result
    simp only [execFinally, execInside, bind_assoc]
  simp only [execTry, execGuarded, inside, closing, bind_assoc]
  refine bind_congr fun scope => bind_congr fun tried => ?_
  cases tried with
  | ok c => rfl
  | error e => cases handler <;> rfl

end

/-! ### Computations that come to an end -/

/-- A computation comes to its end, with a result or with a failure of the script. -/
def EndsIn {α : Type} (act : Eval α) (s : State) (r : Except RuntimeError α) (t : State) : Prop := act s = resume r t

section

variable {α β : Type} {s t : State}

@[simp] theorem resume_ok (a : α) : (resume (.ok a) : Eval α) t = .ok a t := rfl

@[simp] theorem resume_error (e : RuntimeError) : (resume (.error e) : Eval α) t = .error (.error e) t := rfl

theorem endsIn_pure {a : α} {r : Except RuntimeError α} : EndsIn (pure a) s r t ↔ r = .ok a ∧ t = s := by
  cases r <;> simp [EndsIn, pure, EStateM.pure, eq_comm]

theorem endsIn_resume {r r' : Except RuntimeError α} : EndsIn (resume r) s r' t ↔ r' = r ∧ t = s := by
  cases r <;> cases r' <;> simp [EndsIn, eq_comm]

theorem endsIn_bind {x : Eval α} {f : α → Eval β} {r : Except RuntimeError β} :
    EndsIn (x >>= f) s r t ↔
      (∃ a u, EndsIn x s (.ok a) u ∧ EndsIn (f a) u r t) ∨ ∃ e, r = .error e ∧ EndsIn x s (.error e) t := by
  cases r with
  | ok b => simp [EndsIn, bind_eq_ok]
  | error e => simp [EndsIn, bind_eq_error, or_comm]

theorem endsIn_attempt {act : Eval α} {r : Except RuntimeError α} :
    EndsIn (attempt act) s (.ok r) t ↔ EndsIn act s r t := by
  unfold EndsIn attempt
  cases act s with
  | ok a u => cases r <;> simp
  | error e u => cases e <;> cases r <;> simp

/-- A computation that is attempted does not fail. -/
theorem not_endsIn_attempt {act : Eval α} {e : RuntimeError} : ¬ EndsIn (attempt act) s (.error e) t := by
  unfold EndsIn attempt
  cases act s with
  | ok a u => simp
  | error e u => cases e <;> simp

theorem EndsIn.unique {act : Eval α} {r r' : Except RuntimeError α} {t' : State} (ends : EndsIn act s r t)
    (ends' : EndsIn act s r' t') : r = r' ∧ t = t' := by
  have same : resume r t = resume r' t' := ends.symm.trans ends'
  cases r <;> cases r' <;> cases same <;> exact ⟨rfl, rfl⟩

/-- A handler ends at once where the caught value cannot be bound, and else as its body does. -/
theorem endsIn_execHandler {ev : Evaluator} {env : Env} {h : CatchClause} {e : RuntimeError}
    {r : Except RuntimeError (Except RuntimeError Completion)} :
    EndsIn (execHandler ev env h e) s r t ↔
      (∃ scope u, EndsIn (catchScope env h e) s (.ok scope) u ∧ EndsIn (attempt (execBlock ev scope h.body)) u r t) ∨
      ∃ e', r = .error e' ∧ EndsIn (catchScope env h e) s (.error e') t := by
  rw [execHandler_eq, endsIn_bind]

end

/-! ### The rules of `try` -/

section

variable (ev : Evaluator) (env : Env)

/-- How the block and its handler end, with the finalizer still to come. -/
inductive Guards (block : List Stmt) (handler : Option CatchClause) (s : State) :
    Except RuntimeError Completion → State → Prop
  | done {c : Completion} {t : State} : EndsIn (execInside ev env block) s (.ok c) t →
      Guards block handler s (.ok c) t
  | uncaught {e : RuntimeError} {t : State} : EndsIn (execInside ev env block) s (.error e) t → handler = none →
      Guards block handler s (.error e) t
  /-- The caught value cannot be bound. -/
  | unbound {e e' : RuntimeError} {t u : State} {h : CatchClause} :
      EndsIn (execInside ev env block) s (.error e) t → handler = some h →
      EndsIn (catchScope env h e) t (.error e') u → Guards block handler s (.error e') u
  | handled {e : RuntimeError} {t u w : State} {h : CatchClause} {scope : Env} {r : Except RuntimeError Completion} :
      EndsIn (execInside ev env block) s (.error e) t → handler = some h →
      EndsIn (catchScope env h e) t (.ok scope) u → EndsIn (execBlock ev scope h.body) u r w →
      Guards block handler s r w

/-- How a statement ends whose finalizer starts after the given result. -/
inductive Finishes (finalizer : List Stmt) (result : Except RuntimeError Completion) (t : State) :
    Except RuntimeError Completion → State → Prop
  | kept {v : Option Value} {u : State} : EndsIn (execInside ev env finalizer) t (.ok (.normal v)) u →
      Finishes finalizer result t result u
  | replaced {c : Completion} {u : State} : EndsIn (execInside ev env finalizer) t (.ok c) u →
      (∀ v, c ≠ .normal v) →
      Finishes finalizer result t (.ok c) u
  | failed {e : RuntimeError} {u : State} : EndsIn (execInside ev env finalizer) t (.error e) u →
      Finishes finalizer result t (.error e) u

/-- What is caught can be bound. -/
def Binds (block : List Stmt) (handler : Option CatchClause) (s : State) : Prop :=
  ∀ e t h, EndsIn (execInside ev env block) s (.error e) t → handler = some h →
    ∃ scope u, EndsIn (catchScope env h e) t (.ok scope) u

/-- The finalizer is executed once, after the block and its handler, and the statement ends as it then has to. -/
def FinalizerRuns (block : List Stmt) (handler : Option CatchClause) (finalizer : List Stmt) (s : State) : Prop :=
  ∀ r u, EndsIn (execTry ev env block handler (some finalizer)) s r u ↔
    ∃ result t, Guards ev env block handler s result t ∧ Finishes ev env finalizer result t r u

end

variable {ev : Evaluator} {env : Env} {block finalizer : List Stmt} {handler : Option CatchClause}
  {r result : Except RuntimeError Completion} {s t u : State}

/-- The finalizer is run from the state in which it starts, and decides how the statement ends. -/
theorem endsIn_execFinally :
    EndsIn (execFinally ev env finalizer result) t r u ↔ Finishes ev env finalizer result t r u := by
  unfold execFinally
  rw [endsIn_bind]
  constructor
  · rintro (⟨c, w, ran, ends⟩ | ⟨e, rfl, failed⟩)
    · cases c with
      | normal v =>
        obtain ⟨rfl, rfl⟩ := endsIn_resume.1 ends
        exact .kept ran
      | _ =>
        obtain ⟨rfl, rfl⟩ := endsIn_pure.1 ends
        exact .replaced ran nofun
    · exact .failed failed
  · intro finishes
    cases finishes with
    | kept ran => exact .inl ⟨_, _, ran, endsIn_resume.2 ⟨rfl, rfl⟩⟩
    | @replaced c _ ran jumps =>
      refine .inl ⟨_, _, ran, ?_⟩
      cases c with
      | normal v => exact absurd rfl (jumps v)
      | _ => exact endsIn_pure.2 ⟨rfl, rfl⟩
    | failed failed => exact .inr ⟨_, rfl, failed⟩

/-- Where what is caught can be bound, block and handler end as the rules say. -/
theorem endsIn_execGuarded (binds : Binds ev env block handler s) :
    EndsIn (execGuarded ev env block handler) s (.ok result) t ↔ Guards ev env block handler s result t := by
  unfold execGuarded
  rw [endsIn_bind]
  constructor
  · rintro (⟨tried, u, ran, ends⟩ | ⟨_, ⟨⟩, _⟩)
    rw [endsIn_attempt] at ran
    cases tried with
    | ok c =>
      obtain ⟨⟨⟩, rfl⟩ := endsIn_pure.1 ends
      exact .done ran
    | error e =>
      cases handler with
      | none =>
        obtain ⟨⟨⟩, rfl⟩ := endsIn_pure.1 ends
        exact .uncaught ran rfl
      | some h =>
        obtain ⟨scope, w, bound, body⟩ | ⟨_, ⟨⟩, _⟩ := endsIn_execHandler.1 ends
        exact .handled ran rfl bound (endsIn_attempt.1 body)
  · intro guards
    refine .inl ?_
    cases guards with
    | done ran => exact ⟨_, _, endsIn_attempt.2 ran, endsIn_pure.2 ⟨rfl, rfl⟩⟩
    | uncaught ran none =>
      subst none
      exact ⟨_, _, endsIn_attempt.2 ran, endsIn_pure.2 ⟨rfl, rfl⟩⟩
    | unbound ran some unbound =>
      obtain ⟨_, _, bound⟩ := binds _ _ _ ran some
      cases (unbound.unique bound).1
    | handled ran some bound body =>
      subst some
      exact ⟨_, _, endsIn_attempt.2 ran, endsIn_execHandler.2 (.inl ⟨_, _, bound, endsIn_attempt.2 body⟩)⟩

/-- Where what is caught can be bound, nothing fails before the finalizer but the block and its handler. -/
theorem not_endsIn_execGuarded (binds : Binds ev env block handler s) {e : RuntimeError} :
    ¬ EndsIn (execGuarded ev env block handler) s (.error e) t := by
  unfold execGuarded
  rw [endsIn_bind]
  rintro (⟨tried, u, ran, ends⟩ | ⟨_, _, failed⟩)
  · rw [endsIn_attempt] at ran
    cases tried with
    | ok c => cases (endsIn_pure.1 ends).1
    | error e =>
      cases handler with
      | none => cases (endsIn_pure.1 ends).1
      | some h =>
        obtain ⟨scope, w, _, failed⟩ | ⟨_, _, unbound⟩ := endsIn_execHandler.1 ends
        · exact not_endsIn_attempt failed
        · obtain ⟨_, _, bound⟩ := binds _ _ _ ran rfl
          cases (unbound.unique bound).1
  · exact not_endsIn_attempt failed

/-- A failure to bind what is caught ends the statement at once. -/
theorem endsIn_execTry_of_unbound {e e' : RuntimeError} {h : CatchClause}
    (ran : EndsIn (execInside ev env block) s (.error e) t) (unbound : EndsIn (catchScope env h e) t (.error e') u) :
    EndsIn (execTry ev env block (some h) (some finalizer)) s (.error e') u := by
  rw [execTry_eq, endsIn_bind]
  refine .inr ⟨e', rfl, endsIn_bind.2 (.inl ⟨_, _, endsIn_attempt.2 ran, ?_⟩)⟩
  exact endsIn_execHandler.2 (.inr ⟨e', rfl, unbound⟩)

/-- A handler without a parameter, or with a name for it, can bind whatever is caught. -/
theorem binds_of_name (names : ∀ h p, handler = some h → h.param = some p → ∃ n, p = .name n) :
    Binds ev env block handler s := by
  intro e t h _ some
  cases param : h.param with
  | none => exact ⟨_, _, by rw [EndsIn, catchScope, param]; rfl⟩
  | some p =>
    obtain ⟨n, rfl⟩ := names h p some param
    exact ⟨_, _, by rw [EndsIn, catchScope, param]; rfl⟩

/-- Where what is caught can be bound, the statement is its block with the handler, and the finalizer after that. -/
theorem finalizerRuns_of_binds (binds : Binds ev env block handler s) :
    FinalizerRuns ev env block handler finalizer s := by
  intro r u
  rw [execTry_eq, endsIn_bind]
  constructor
  · rintro (⟨result, t, guarded, closing⟩ | ⟨e, rfl, failed⟩)
    · exact ⟨result, t, (endsIn_execGuarded binds).1 guarded, endsIn_execFinally.1 closing⟩
    · exact absurd failed (not_endsIn_execGuarded binds)
  · rintro ⟨result, t, guards, finishes⟩
    exact .inl ⟨result, t, (endsIn_execGuarded binds).2 guards, endsIn_execFinally.2 finishes⟩

/-- The statement ends where its finalizer does. -/
theorem Finishes.ran (finishes : Finishes ev env finalizer result t r u) :
    ∃ own, EndsIn (execInside ev env finalizer) t own u := by
  cases finishes with
  | kept ran => exact ⟨_, ran⟩
  | replaced ran _ => exact ⟨_, ran⟩
  | failed ran => exact ⟨_, ran⟩

/--
**A finalizer runs exactly once.** However the block ends, with a result, a jump or a failure, and whatever its handler
does, the finalizer is executed after them, and its failure or jump is how the statement ends; otherwise the statement
ends as the block did, or as the handler did where the block failed. Whatever a run of the finalizer counts, and nothing
before it, the statement counts once.
-/
theorem finalizer_runs_once (binds : Binds ev env block handler s) :
    FinalizerRuns ev env block handler finalizer s ∧
    ∀ count : State → Nat,
      (∀ result t, Guards ev env block handler s result t → count t = count s ∧
        ∀ r u, EndsIn (execInside ev env finalizer) t r u → count u = count t + 1) →
      ∀ r u, EndsIn (execTry ev env block handler (some finalizer)) s r u → count u = count s + 1 := by
  have runs : FinalizerRuns ev env block handler finalizer s := finalizerRuns_of_binds binds
  refine ⟨runs, fun count counted r u ends => ?_⟩
  obtain ⟨result, t, guards, finishes⟩ := (runs r u).1 ends
  obtain ⟨own, ran⟩ := finishes.ran
  obtain ⟨before, once⟩ := counted result t guards
  rw [once own u ran, before]

section Journal

/-- An array under the name `log`, and scopes besides. -/
def journal (entries : Array Value) (scopes : List (Record Binding)) : State where
  arrays := #[entries]
  frames := ([("log", ⟨.array 0, false⟩)] :: scopes).toArray

/-- Throws the value. -/
def throwing (v : Literal) : List Stmt := [.throw_ ⟨0, 0⟩ (.literal ⟨0, 0⟩ v)]

/-- Adds an entry to the log. -/
def logging : List Stmt :=
  let push : Expr := .member ⟨0, 0⟩ (.ident ⟨0, 0⟩ "log") (.named "push") false
  [.expr ⟨0, 0⟩ (.call ⟨0, 0⟩ push [.literal ⟨0, 0⟩ (.string "done")] false)]

/-- Catches a value under a name and returns it. -/
def returning : CatchClause := ⟨some (.name "e"), [.return_ ⟨0, 0⟩ (some (.ident ⟨0, 0⟩ "e"))]⟩

/-- Catches a value and takes it apart. -/
def dissecting : CatchClause := ⟨some (.object [⟨"a", .name "a"⟩]), []⟩

/-- The finalizer runs after the handler has returned, and the statement returns what the handler did. -/
theorem finalizer_runs_once_returning :
    Binds (evaluator Host.none 9) [0] (throwing (.string "boom")) (some returning) (journal #[] []) ∧
    ∃ t, EndsIn (execTry (evaluator Host.none 9) [0] (throwing (.string "boom")) (some returning) (some logging))
      (journal #[] []) (.ok (.return_ (.string "boom"))) t ∧ t.array 0 = #[.string "done"] := by
  have binds : Binds (evaluator Host.none 9) [0] (throwing (.string "boom")) (some returning) (journal #[] []) := by
    apply binds_of_name
    rintro _ p ⟨⟩ ⟨⟩
    exact ⟨"e", rfl⟩
  have runs : FinalizerRuns (evaluator Host.none 9) [0] (throwing (.string "boom")) (some returning) logging
      (journal #[] []) := (finalizer_runs_once binds).1
  let bound : Record Binding := [("e", ⟨.string "boom", true⟩)]
  have guards : Guards (evaluator Host.none 9) [0] (throwing (.string "boom")) (some returning) (journal #[] [])
      (.ok (.return_ (.string "boom"))) (journal #[] [[], bound]) :=
    .handled (e := .thrown (.string "boom")) (t := journal #[] [[]]) rfl rfl rfl rfl
  have logged : EndsIn (execInside (evaluator Host.none 9) [0] logging) (journal #[] [[], bound])
      (.ok (.normal (some (.number (Float.ofNat 1))))) (journal #[.string "done"] [[], bound, []]) := rfl
  exact ⟨binds, _, (runs _ _).2 ⟨_, _, guards, .kept logged⟩, rfl⟩

/-- Nothing is found under a key of `null`: the statement fails before its finalizer. -/
theorem finalizer_skipped : ¬ FinalizerRuns (evaluator Host.none 9) [0] (throwing .null) (some dissecting) logging
    (journal #[] []) := by
  intro runs
  let failure : RuntimeError := .type (.cannotDestructure "null")
  have thrown : EndsIn (execInside (evaluator Host.none 9) [0] (throwing .null)) (journal #[] [])
      (.error (.thrown .null)) (journal #[] [[]]) := rfl
  have unbound : EndsIn (catchScope [0] dissecting (.thrown .null)) (journal #[] [[]])
      (.error failure) (journal #[] [[], []]) := rfl
  have logged : EndsIn (execInside (evaluator Host.none 9) [0] logging) (journal #[] [[], []])
      (.ok (.normal (some (.number (Float.ofNat 1))))) (journal #[.string "done"] [[], [], []]) := rfl
  obtain ⟨result, t, guards, finishes⟩ := (runs _ _).1 (endsIn_execTry_of_unbound thrown unbound)
  obtain ⟨own, ran⟩ := finishes.ran
  have start : t = journal #[] [[], []] := by
    cases guards with
    | done ran => cases (ran.unique thrown).1
    | uncaught _ none => cases none
    | unbound ran some failed =>
      obtain ⟨⟨⟩, rfl⟩ := ran.unique thrown
      cases some
      exact (failed.unique unbound).2
    | handled ran some bound _ =>
      obtain ⟨⟨⟩, rfl⟩ := ran.unique thrown
      cases some
      cases (bound.unique unbound).1
  subst start
  have same : journal #[] [[], []] = journal #[.string "done"] [[], [], []] := (ran.unique logged).2
  cases congrArg (fun u : State => u.frames.size) same

end Journal

end Staging.Script
