import Staging.Proofs.Script.Watch

/-!
Where jumps go.

In a program whose jumps have targets each of them reaches its target within the function it stands in. So no body of a
function ends in a jump, which a call would pass over in silence, and neither does the program as a whole, which would
fail for it (`jumps_reach_targets`). What is assumed of the functions that are there when the program starts, and of the
functions of the host program, is what is known of the program itself.
-/

namespace Staging.Script

/-! ### Functions whose jumps have targets -/

/-- The jumps in all functions of a script have targets. -/
def State.JumpsScoped (s : State) : Prop := ∀ ref c, s.function? ref = some c → c.jumpsScoped = true

theorem State.JumpsScoped.of_functions {s t : State} (same : t.functions = s.functions) (known : s.JumpsScoped) :
    t.JumpsScoped := by
  intro ref c found
  refine known ref c ?_
  rwa [Heap.function?, ← same]

theorem State.JumpsScoped.newFunction {s : State} {c : Callable} (target : c.jumpsScoped = true)
    (known : s.JumpsScoped) : State.JumpsScoped { (s.toHeap.newFunction c).2 with depth := s.depth } := by
  intro ref c' found
  have found : (s.functions.push c)[ref]? = some c' := found
  rw [Array.getElem?_push] at found
  split at found
  · cases found
    exact target
  · exact known ref c' found

/-- All functions have jumps with targets, and no failure is that of a jump without one. -/
def Discipline.jumps : Discipline where
  allowed := State.JumpsScoped
  moves _ s t := s.JumpsScoped → t.JumpsScoped
  fails e := e ≠ .type .strayJump
  vetted := True

theorem Discipline.jumps_lawful : Discipline.jumps.Lawful where
  connected _ := ⟨fun _ known => known, fun first second known => second (first known)⟩
  inside kept := kept
  stays kept known := kept known
  failure _ other := other
  heap _ _ _ same := .of_functions same
  function _ _ known := .newFunction (known trivial)
  declare _ _ _ _ _ _ := .of_functions rfl
  write _ _ _ _ _ _ := .of_functions rfl
  child _ _ _ kept := kept
  opened _ known _ := known
  closed _ _ kept := kept
  known _ _ known := known

/-- A watch for functions whose body ends in a jump. -/
def Watch.jumps : Watch where
  allows _ := true
  leaves
    | .normal _ | .return_ _ => true
    | .break_ _ | .continue_ _ => false

theorem Watch.jumps_suits : Watch.jumps.Suits .jumps where
  allows _ _ := rfl
  leaves c permits := by
    cases c with
    | normal v => rfl
    | return_ v => rfl
    | break_ label => exact absurd (permits trivial) JumpScope.not_permits_break
    | continue_ label => exact absurd (permits trivial) JumpScope.not_permits_continue

/-! ### Programs -/

/-- Runs a program with the given evaluator. -/
def runWith (ev : Evaluator) (globals : Env) (body : List Stmt) : Eval Value := do
  let scope ← newScope globals
  programValue (← execBlock ev scope body)

/-- A program has nothing around it, so it fails for no jump. -/
theorem Discipline.Lawful.runWith {d : Discipline} (l : d.Lawful) (vetted : d.vetted) {ev ev' : Evaluator}
    (inner : ev.Like d ev') (globals : Env) {body : List Stmt} (h : Stmt.allJumpsScoped {} body = true) :
    d.Keeps none (runWith ev globals body) (runWith ev' globals body) := by
  refine l.newScope fun j => l.bindOf (l.execBlock inner body fun _ => h) fun c permits => ?_
  cases c with
  | normal v => exact l.pure _
  | return_ v => exact l.pure _
  | break_ label => exact absurd (permits vetted) JumpScope.not_permits_break
  | continue_ label => exact absurd (permits vetted) JumpScope.not_permits_continue

/--
**Where all jumps have targets, no program fails for a jump, and no function ends in one.** The run with a watch for
functions that end in a jump is the run itself.
-/
theorem jumps_reach_targets {host : Host}
    (hosted : ∀ id args (s : State), s.JumpsScoped → (endOf (host id args s)).JumpsScoped ∧
      ∀ t, host id args s ≠ .error (.error (.type .strayJump)) t)
    (fuel : Nat) (globals : Env) {body : List Stmt} (h : Stmt.allJumpsScoped {} body = true) {s : State}
    (known : s.JumpsScoped) :
    (∀ t, runProgram host fuel globals body s ≠ .error (.error (.type .strayJump)) t) ∧
    runWith (Watch.jumps.evaluator host fuel) globals body s = runProgram host fuel globals body s ∧
    (endOf (runProgram host fuel globals body s)).JumpsScoped := by
  have keeps : ∀ id args, Discipline.jumps.Keeps none (host id args) (host id args) := by
    intro id args s known
    obtain ⟨after, other⟩ := hosted id args s known
    refine ⟨rfl, fun _ => after, ?_⟩
    cases ended : host id args s with
    | ok a t => trivial
    | error e t =>
      cases e with
      | outOfFuel => trivial
      | error e =>
        rintro rfl
        exact other t ended
  have like := Discipline.jumps_lawful.evaluator_like Watch.jumps_suits keeps fuel
  obtain ⟨same, moves, meets⟩ := Discipline.jumps_lawful.runWith trivial like globals h s known
  have same : runWith (Watch.jumps.evaluator host fuel) globals body s = runProgram host fuel globals body s := same
  rw [same] at moves meets
  refine ⟨?_, same, moves known⟩
  intro t failed
  rw [failed] at meets
  exact meets rfl

/--
A function whose loop goes on at its label in a `try` and ends there in the finalizer, a labeled block that ends early,
and a call of the function.
-/
def jumpingProgram : List Stmt :=
  let once : Stmt := .try_ ⟨0, 0⟩ [.continue_ ⟨0, 0⟩ (some "loop")] none (some [.break_ ⟨0, 0⟩ (some "loop")])
  let rounds : Stmt := .labeled ⟨0, 0⟩ "loop" (.while_ ⟨0, 0⟩ (.literal ⟨0, 0⟩ (.bool true)) once)
  let done : Stmt := .return_ ⟨0, 0⟩ (some (.literal ⟨0, 0⟩ (.string "done")))
  [.function ⟨0, 0⟩ ⟨some "f", [], .block [rounds, done], false⟩,
    .labeled ⟨0, 0⟩ "early" (.block ⟨0, 0⟩ [.break_ ⟨0, 0⟩ (some "early")]),
    .expr ⟨0, 0⟩ (.call ⟨0, 0⟩ (.ident ⟨0, 0⟩ "f") [] false)]

theorem jumps_reach_targets_finalizer : Stmt.allJumpsScoped {} jumpingProgram = true ∧ State.JumpsScoped {} ∧
    ∃ t, runWith (Watch.jumps.evaluator Host.none 9) [] jumpingProgram {} = .ok (.string "done") t := by
  have h : Stmt.allJumpsScoped {} jumpingProgram = true := by decide
  have known : State.JumpsScoped {} := nofun
  have hosted : ∀ id args (s : State), s.JumpsScoped → (endOf (Host.none id args s)).JumpsScoped ∧
      ∀ t, Host.none id args s ≠ .error (.error (.type .strayJump)) t := fun _ _ _ known => ⟨known, nofun⟩
  obtain ⟨_, same, _⟩ := jumps_reach_targets hosted 9 [] h known
  have ended : ∃ t, runProgram Host.none 9 [] jumpingProgram {} = .ok (.string "done") t := ⟨_, rfl⟩
  rw [← same] at ended
  exact ⟨h, known, ended⟩

end Staging.Script
