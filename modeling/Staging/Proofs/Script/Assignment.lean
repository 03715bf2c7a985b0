import Staging.Proofs.Script.ScopeNames

/-!
Assigning to variables.

Environments share their outer scopes, so what is written through one of them may be read through many others. The
nearest scope that declares a name (`Heap.Nearest`) settles what the name stands for and where an assignment goes. An
assignment changes the binding there and no other one (`Heap.get?_write`, `Heap.lookup?_write`), or it fails and changes
nothing. A constant keeps its value over any number of steps, up to a new declaration in its scope
(`binding_after_steps`). `assignment_laws` puts this together.
-/

namespace Staging.Script

namespace Heap

/-! ### The nearest declaration -/

/-- Seen from an environment, the nearest scope that declares a name is `i`, and `b` is the binding there. -/
def Nearest (h : Heap) (env : Env) (name : String) (i : Nat) (b : Binding) : Prop :=
  ∃ inner outer, env = inner ++ i :: outer ∧ (∀ j ∈ inner, name ∉ (h.frame j).names) ∧ (h.frame i).get? name = some b

variable {h : Heap} {env : Env} {name : String} {i : Nat} {b : Binding} {v : Value}

theorem get?_eq_none_iff {r : Record Binding} : r.get? name = none ↔ name ∉ r.names := by
  rw [← Record.get?_isSome]
  cases r.get? name <;> simp

theorem resolve?_eq_none_iff : h.resolve? env name = none ↔ ∀ j ∈ env, name ∉ (h.frame j).names := by
  have known := h.isSome_resolve? env name
  constructor
  · intro unknown j inside declared
    have found := known.2 ⟨j, inside, declared⟩
    rw [unknown] at found
    cases found
  · intro undeclared
    cases found : h.resolve? env name with
    | none => rfl
    | some place =>
      obtain ⟨j, inside, declared⟩ := known.1 (by rw [found]; rfl)
      exact absurd declared (undeclared j inside)

/-- Looking a name up finds its nearest declaration. -/
theorem resolve?_eq_some_iff : h.resolve? env name = some (i, b) ↔ h.Nearest env name i b := by
  induction env with
  | nil =>
    constructor
    · nofun
    · rintro ⟨inner, outer, split, _⟩
      simp at split
  | cons j rest ih =>
    cases found : (h.frame j).get? name with
    | some c =>
      have here : h.resolve? (j :: rest) name = some (j, c) := by simp only [resolve?, found]
      rw [here]
      constructor
      · intro same
        obtain ⟨rfl, rfl⟩ := Prod.mk.inj (Option.some.inj same)
        exact ⟨[], rest, rfl, List.forall_mem_nil _, found⟩
      · rintro ⟨inner, outer, split, undeclared, holds⟩
        cases inner with
        | nil =>
          obtain ⟨rfl, rfl⟩ := List.cons.inj split
          rw [found] at holds
          obtain rfl := Option.some.inj holds
          rfl
        | cons k inner =>
          obtain ⟨rfl, _⟩ := List.cons.inj split
          have absent := get?_eq_none_iff.2 (undeclared j List.mem_cons_self)
          rw [found] at absent
          cases absent
    | none =>
      have further : h.resolve? (j :: rest) name = h.resolve? rest name := by simp only [resolve?, found]
      rw [further, ih]
      constructor
      · rintro ⟨inner, outer, rfl, undeclared, holds⟩
        refine ⟨j :: inner, outer, rfl, ?_, holds⟩
        exact List.forall_mem_cons.2 ⟨get?_eq_none_iff.1 found, undeclared⟩
      · rintro ⟨inner, outer, split, undeclared, holds⟩
        cases inner with
        | nil =>
          obtain ⟨rfl, rfl⟩ := List.cons.inj split
          rw [found] at holds
          cases holds
        | cons k inner =>
          obtain ⟨rfl, rfl⟩ := List.cons.inj split
          exact ⟨inner, outer, rfl, fun l inside => undeclared l (List.mem_cons_of_mem _ inside), holds⟩

theorem Nearest.holds (near : h.Nearest env name i b) : (h.frame i).get? name = some b := by
  obtain ⟨_, _, _, _, holds⟩ := near
  exact holds

/-- There is one nearest declaration at most. -/
theorem Nearest.unique {j : Nat} {c : Binding} (near : h.Nearest env name i b) (other : h.Nearest env name j c) :
    i = j := by
  have same := (resolve?_eq_some_iff.2 near).symm.trans (resolve?_eq_some_iff.2 other)
  exact (Prod.mk.inj (Option.some.inj same)).1

theorem lt_size_of_holds (holds : (h.frame i).get? name = some b) : i < h.frames.size := by
  refine Nat.lt_of_not_le fun outside => ?_
  have empty : h.frame i = [] := by simp [frame, Array.getElem?_eq_none outside]
  rw [empty] at holds
  cases holds

/-! ### Writing to a declared variable -/

section Write

variable (holds : (h.frame i).get? name = some b)
include holds

/-- Writing changes one binding. -/
theorem get?_write (j : Nat) (m : String) : ((h.write i name v).frame j).get? m =
    if j = i ∧ m = name then some ⟨v, true⟩ else (h.frame j).get? m := by
  by_cases scope : j = i
  · subst scope
    have written : (h.write j name v).frame j = (h.frame j).put name ⟨v, true⟩ :=
      frame_modify_self _ (lt_size_of_holds holds)
    rw [written]
    by_cases same : m = name
    · subst same
      simp
    · simp [Record.get?_put_of_ne _ _ same, same]
  · have kept : (h.write i name v).frame j = h.frame j := frame_modify_of_ne _ scope
    simp [kept, scope]

/-- The written binding is found from where it was found before, and all else is found as before. -/
theorem resolve?_write (e : Env) (m : String) : (h.write i name v).resolve? e m =
    if m = name ∧ (h.resolve? e m).map (·.1) = some i then some (i, ⟨v, true⟩) else h.resolve? e m := by
  induction e with
  | nil => simp [resolve?]
  | cons j rest ih =>
    have first := get?_write (v := v) holds j m
    cases found : (h.frame j).get? m with
    | some c =>
      by_cases written : j = i ∧ m = name
      · obtain ⟨rfl, rfl⟩ := written
        rw [if_pos ⟨rfl, rfl⟩] at first
        simp [resolve?, first, found]
      · rw [if_neg written, found] at first
        have other : ¬ (m = name ∧ j = i) := fun both => written both.symm
        simp [resolve?, first, found, other]
    | none =>
      have elsewhere : ¬ (j = i ∧ m = name) := by
        rintro ⟨rfl, rfl⟩
        rw [holds] at found
        cases found
      rw [if_neg elsewhere, found] at first
      simp only [resolve?, first, found, ih]

end Write

section Lookup

variable (near : h.Nearest env name i b) {e : Env} {m : String}
include near

omit near in
theorem resolves_to_iff : (h.resolve? e m).map (·.1) = some i ↔ ∃ c, h.Nearest e m i c := by
  constructor
  · intro found
    obtain ⟨⟨j, c⟩, resolved, rfl⟩ := Option.map_eq_some_iff.1 found
    exact ⟨c, resolve?_eq_some_iff.1 resolved⟩
  · rintro ⟨c, nearest⟩
    rw [resolve?_eq_some_iff.2 nearest]
    rfl

/-- The new value is seen from every environment whose nearest declaration was written to. -/
theorem lookup?_write_of_nearest (same : ∃ c, h.Nearest e name i c) : (h.write i name v).lookup? e name = some v := by
  rw [lookup?, resolve?_write near.holds, if_pos ⟨rfl, resolves_to_iff.2 same⟩]
  rfl

/-- What is found elsewhere, or under another name, is what was found before. -/
theorem lookup?_write_of_other (other : ¬ (m = name ∧ ∃ c, h.Nearest e name i c)) :
    (h.write i name v).lookup? e m = h.lookup? e m := by
  have unwritten : ¬ (m = name ∧ (h.resolve? e m).map (·.1) = some i) := by
    rintro ⟨rfl, found⟩
    exact other ⟨rfl, resolves_to_iff.1 found⟩
  rw [lookup?, resolve?_write near.holds, if_neg unwritten]
  rfl

end Lookup

end Heap

/-! ### Assigning -/

section Assign

variable {s : State} {env : Env} {name : String} {v : Value} {i : Nat} {b : Binding}

theorem setVar_of_unknown (unknown : ∀ j ∈ env, name ∉ (s.frame j).names) :
    setVar env name v s = .error (.error (.reference name)) s := by
  rw [setVar_eq, Heap.target, Heap.resolve?_eq_none_iff.2 unknown]

theorem setVar_of_constant (near : s.Nearest env name i b) (constant : b.mutable = false) :
    setVar env name v s = .error (.error (.constAssignment name)) s := by
  rw [setVar_eq, Heap.target, Heap.resolve?_eq_some_iff.2 near]
  simp only [constant]
  rfl

theorem setVar_of_variable (near : s.Nearest env name i b) (variable_ : b.mutable = true) :
    setVar env name v s = .ok () { s.toHeap.write i name v with depth := s.depth } := by
  rw [setVar_eq, Heap.target, Heap.resolve?_eq_some_iff.2 near]
  simp only [variable_]
  rfl

/-- There is no declaration, or the nearest one is constant, or it is not. -/
theorem declared_cases (s : State) (env : Env) (name : String) : (∀ j ∈ env, name ∉ (s.frame j).names) ∨
    (∃ i b, s.Nearest env name i b ∧ b.mutable = false) ∨ ∃ i b, s.Nearest env name i b ∧ b.mutable = true := by
  cases found : s.resolve? env name with
  | none => exact .inl (Heap.resolve?_eq_none_iff.1 found)
  | some place =>
    have near := Heap.resolve?_eq_some_iff.1 found
    cases fixed : place.2.mutable with
    | false => exact .inr (.inl ⟨place.1, place.2, near, fixed⟩)
    | true => exact .inr (.inr ⟨place.1, place.2, near, fixed⟩)

/-- An assignment succeeds where the nearest declaration can be changed, by writing there. -/
theorem setVar_ok_iff {t : State} : setVar env name v s = .ok () t ↔
    ∃ i b, s.Nearest env name i b ∧ b.mutable = true ∧ t = { s.toHeap.write i name v with depth := s.depth } := by
  constructor
  · intro run
    rcases declared_cases s env name with unknown | ⟨i, b, near, constant⟩ | ⟨i, b, near, free⟩
    · rw [setVar_of_unknown unknown] at run
      cases run
    · rw [setVar_of_constant near constant] at run
      cases run
    · rw [setVar_of_variable near free] at run
      cases run
      exact ⟨i, b, near, free, rfl⟩
  · rintro ⟨i, b, near, free, rfl⟩
    exact setVar_of_variable near free

/-- A failed assignment changes nothing; the name is undeclared, or its nearest declaration is a constant. -/
theorem setVar_error_iff {t : State} {e : Fault} : setVar env name v s = .error e t ↔ t = s ∧
    ((e = .error (.reference name) ∧ ∀ j ∈ env, name ∉ (s.frame j).names) ∨
      e = .error (.constAssignment name) ∧ ∃ i b, s.Nearest env name i b ∧ b.mutable = false) := by
  constructor
  · intro run
    rcases declared_cases s env name with unknown | ⟨i, b, near, constant⟩ | ⟨i, b, near, free⟩
    · rw [setVar_of_unknown unknown] at run
      cases run
      exact ⟨rfl, .inl ⟨rfl, unknown⟩⟩
    · rw [setVar_of_constant near constant] at run
      cases run
      exact ⟨rfl, .inr ⟨rfl, i, b, near, constant⟩⟩
    · rw [setVar_of_variable near free] at run
      cases run
  · rintro ⟨rfl, ⟨rfl, unknown⟩ | ⟨rfl, i, b, near, constant⟩⟩
    · exact setVar_of_unknown unknown
    · exact setVar_of_constant near constant

end Assign

/-! ### Many steps -/

/-- What can be done to a forest of environments. -/
inductive ScopeStep where
  | root
  | child (env : Env)
  | declare (env : Env) (name : String) (value : Value) (mutable : Bool)
  | assign (env : Env) (name : String) (value : Value)

namespace ScopeStep

def run : ScopeStep → Eval Unit
  | root => do let _ ← onHeap (·.rootScope)
  | child env => do let _ ← newScope env
  | declare env name value mutable => declareVar env name value mutable
  | assign env name value => setVar env name value

/-- The state after a step, which may have failed. -/
def after (s : State) (step : ScopeStep) : State := endOf (step.run s)

/-- The step declares the name in the scope. -/
def Declares (i : Nat) (name : String) : ScopeStep → Prop
  | declare (j :: _) n _ _ => j = i ∧ n = name
  | _ => False

/-- One step leaves a constant as it is, unless it declares the name again in the same scope. -/
theorem binding_after {s : State} {i : Nat} {name : String} {b : Binding} (holds : (s.frame i).get? name = some b)
    (constant : b.mutable = false) (step : ScopeStep) (other : ¬ step.Declares i name) :
    ((step.after s).frame i).get? name = some b := by
  have inside := Heap.lt_size_of_holds holds
  cases step with
  | root =>
    have kept : s.toHeap.rootScope.2.frame i = s.frame i := s.toHeap.frame_child [] i
    exact (congrArg (·.get? name) kept).trans holds
  | child env =>
    have kept : (s.toHeap.child env).2.frame i = s.frame i := Heap.frame_child ..
    exact (congrArg (·.get? name) kept).trans holds
  | declare env n v mutable =>
    cases env with
    | nil => exact holds
    | cons j outer =>
      show ((s.toHeap.declare (j :: outer) n v mutable).frame i).get? name = some b
      by_cases scope : i = j
      · subst scope
        have differs : name ≠ n := fun same => other ⟨rfl, same.symm⟩
        rw [Heap.frame_declare inside, Record.get?_put_of_ne _ _ differs, holds]
      · rw [Heap.frame_declare_of_ne scope, holds]
  | assign env n v =>
    show ((endOf (setVar env n v s)).frame i).get? name = some b
    cases ended : setVar env n v s with
    | error e t =>
      obtain ⟨rfl, _⟩ := setVar_error_iff.1 ended
      exact holds
    | ok u t =>
      obtain ⟨j, c, near, free, rfl⟩ := setVar_ok_iff.1 ended
      have elsewhere : ¬ (i = j ∧ name = n) := by
        rintro ⟨rfl, rfl⟩
        obtain rfl := Option.some.inj (holds.symm.trans near.holds)
        rw [free] at constant
        cases constant
      exact (Heap.get?_write near.holds i name).trans ((if_neg elsewhere).trans holds)

/-- **A constant keeps its value until its name is declared again in the same scope.** -/
theorem binding_after_steps {i : Nat} {name : String} {b : Binding} (constant : b.mutable = false) :
    ∀ (steps : List ScopeStep) {s : State}, (s.frame i).get? name = some b →
    (∀ step ∈ steps, ¬ step.Declares i name) → ((steps.foldl after s).frame i).get? name = some b
  | [], _, holds, _ => holds
  | step :: rest, _, holds, other => by
    have next := binding_after holds constant step (other step List.mem_cons_self)
    exact binding_after_steps constant rest next fun later inside => other later (List.mem_cons_of_mem _ inside)

end ScopeStep

/-! ### The laws together -/

/--
**Laws of assignment.** Whatever scopes there are and however environments share them: an assignment succeeds exactly if
the nearest declaration of the name can be changed, and then changes its value, which is seen from those environments
whose nearest declaration this is, and nothing else. It fails as undeclared exactly if no scope declares the name, and as
an assignment to a constant exactly if the nearest declaration is one; then nothing is changed. Whatever is done
afterwards, a constant has another value only if its name was declared again in the same scope.
-/
theorem assignment_laws (s : State) (env : Env) (name : String) (v : Value) :
    ((∃ t, setVar env name v s = .ok () t) ↔ ∃ i b, s.Nearest env name i b ∧ b.mutable = true) ∧
    (∀ t, setVar env name v s = .ok () t → ∃ i b, s.Nearest env name i b ∧
      (∀ j m, (t.frame j).get? m = if j = i ∧ m = name then some { b with value := v } else (s.frame j).get? m) ∧
      ∀ e m, ((m = name ∧ ∃ c, s.Nearest e name i c) → t.lookup? e m = some v) ∧
        (¬ (m = name ∧ ∃ c, s.Nearest e name i c) → t.lookup? e m = s.lookup? e m)) ∧
    ((∃ t, setVar env name v s = .error (.error (.reference name)) t) ↔ ∀ i ∈ env, name ∉ (s.frame i).names) ∧
    ((∃ t, setVar env name v s = .error (.error (.constAssignment name)) t) ↔
      ∃ i b, s.Nearest env name i b ∧ b.mutable = false) ∧
    (∀ e t, setVar env name v s = .error e t → t = s) ∧
    ∀ (steps : List ScopeStep) (i : Nat) (m : String) (b : Binding), (s.frame i).get? m = some b → b.mutable = false →
      ((steps.foldl ScopeStep.after s).frame i).get? m ≠ some b → ∃ step ∈ steps, step.Declares i m := by
  refine ⟨⟨?_, ?_⟩, ?_, ⟨?_, ?_⟩, ⟨?_, ?_⟩, ?_, ?_⟩
  · rintro ⟨t, run⟩
    obtain ⟨i, b, near, free, _⟩ := setVar_ok_iff.1 run
    exact ⟨i, b, near, free⟩
  · rintro ⟨i, b, near, free⟩
    exact ⟨_, setVar_of_variable near free⟩
  · intro t run
    obtain ⟨i, b, near, free, rfl⟩ := setVar_ok_iff.1 run
    refine ⟨i, b, near, ?_, ?_⟩
    · rw [free]
      exact Heap.get?_write near.holds
    · intro e m
      constructor
      · rintro ⟨rfl, same⟩
        exact Heap.lookup?_write_of_nearest near same
      · exact Heap.lookup?_write_of_other near
  · rintro ⟨t, run⟩
    obtain ⟨_, ⟨_, unknown⟩ | ⟨other, _⟩⟩ := setVar_error_iff.1 run
    · exact unknown
    · cases other
  · intro unknown
    exact ⟨s, setVar_of_unknown unknown⟩
  · rintro ⟨t, run⟩
    obtain ⟨_, ⟨other, _⟩ | ⟨_, constant⟩⟩ := setVar_error_iff.1 run
    · cases other
    · exact constant
  · rintro ⟨i, b, near, constant⟩
    exact ⟨s, setVar_of_constant near constant⟩
  · intro e t run
    exact (setVar_error_iff.1 run).1
  · intro steps i m b holds constant changed
    refine Classical.byContradiction fun none => changed ?_
    refine ScopeStep.binding_after_steps constant steps holds fun step inside declares => ?_
    exact none ⟨step, inside, declares⟩

/-- Two scopes that both declare `a`, and inside the second one two scopes that share it. -/
def sharedScopes : State where
  frames := #[[("a", ⟨.null, true⟩)], [("a", ⟨.bool false, true⟩)], [], []]

/-- What is written through one environment is seen through the other, and not from outside. -/
theorem assignment_laws_shared : ∃ t, setVar [2, 1, 0] "a" (.bool true) sharedScopes = .ok () t ∧
    t.lookup? [3, 1, 0] "a" = some (.bool true) ∧ t.lookup? [0] "a" = some .null := by
  obtain ⟨succeeds, effect, _⟩ := assignment_laws sharedScopes [2, 1, 0] "a" (.bool true)
  have near : sharedScopes.Nearest [2, 1, 0] "a" 1 ⟨.bool false, true⟩ := ⟨[2], [0], rfl, by decide, rfl⟩
  obtain ⟨t, run⟩ := succeeds.2 ⟨1, _, near, rfl⟩
  obtain ⟨i, b, found, _, seen⟩ := effect t run
  obtain rfl : i = 1 := found.unique near
  refine ⟨t, run, (seen [3, 1, 0] "a").1 ⟨rfl, _, [3], [0], rfl, by decide, rfl⟩, ?_⟩
  refine ((seen [0] "a").2 ?_).trans rfl
  rintro ⟨_, c, inner, outer, split, _⟩
  have outside : 1 ∈ [0] := by
    rw [split]
    simp
  cases outside with
  | tail _ none => cases none

end Staging.Script
