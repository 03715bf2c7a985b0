import Staging.Proofs.Template.Fragments
import Staging.Proofs.Template.KnownNames
import Staging.Proofs.Template.Moments
import Staging.Proofs.Template.Running

/-!
Scopes of a running program.

Compiling a loop binds its names in the registry and unbinds them afterwards; running it makes a scope for each round
and binds its pattern there. The two go together: whenever a running program comes to an instruction, the names
declared in the scopes between the globals and the one it runs in are those that were staged where the instruction was
compiled.

* `Declaring` says which names the scopes above the globals declare. On the way into a construct they grow by the names
  that the construct binds, and nothing that runs in between changes them (`Arrives.declaring`).
* `scopes_coincide` puts this together with what is known of the registry on the same way (`Reaches.registry`). So a
  bare name that is inlined, and a name that gets a declaration in a round, can always be looked up.
-/

namespace Staging.Template

open Script

/-! ### Scopes above the globals -/

/-- The scopes were made after the globals `g`, and declare just these names. -/
structure Declaring (g : Nat) (scopes : Env) (s : State) (names : List String) : Prop where
  globals : g < s.frames.size
  above : ∀ j ∈ scopes, g < j ∧ j < s.frames.size
  declares : ∀ n, s.toHeap.Declares scopes n ↔ n ∈ names

namespace Declaring

variable {g k : Nat} {scopes : Env} {s t : State} {names more : List String}

theorem later (h : Declaring g scopes s names) (size : s.frames.size ≤ t.frames.size)
    (declares : ∀ n, t.toHeap.Declares scopes n ↔ n ∈ more) : Declaring g scopes t more := by
  constructor
  · exact Nat.lt_of_lt_of_le h.globals size
  · intro j inside
    exact ⟨(h.above j inside).1, Nat.lt_of_lt_of_le (h.above j inside).2 size⟩
  · exact declares

theorem keep (h : Declaring g scopes s names) (kept : KeepsNames g none s t) : Declaring g scopes t names := by
  refine h.later kept.size fun n => ?_
  rw [← h.declares n]
  refine Heap.declares_congr (fun j inside => ?_) n
  exact kept.names j (h.above j inside).2 (Nat.ne_of_gt (h.above j inside).1) nofun

/-- A new scope declares nothing yet. -/
theorem child (h : Declaring g scopes s names) {env scope : Env} (run : newScope env s = .ok scope t) :
    scope = s.frames.size :: env ∧ Declaring g (s.frames.size :: scopes) t names := by
  cases run
  refine ⟨rfl, ?_, ?_, ?_⟩
  · exact Nat.lt_of_lt_of_le h.globals (by simp)
  · intro j inside
    have grown : s.frames.size < (s.toHeap.child env).2.frames.size := by simp [Heap.child]
    rcases List.mem_cons.1 inside with rfl | inside
    · exact ⟨h.globals, grown⟩
    · exact ⟨(h.above j inside).1, Nat.lt_trans (h.above j inside).2 grown⟩
  · intro n
    have empty : (s.toHeap.child env).2.frame s.frames.size = [] := by
      rw [Heap.frame_child, Heap.frame_size]
    show (s.toHeap.child env).2.Declares _ n ↔ _
    rw [Heap.declares_cons, empty, ← h.declares n]
    refine (or_iff_right (by simp [Record.names])).trans (Heap.declares_congr (fun j _ => ?_) n)
    exact congrArg Record.names (Heap.frame_child ..)

/-- Names that are declared in the innermost scope come to the others. -/
theorem grow (h : Declaring g (k :: scopes) s names) (other : k ∉ scopes) (kept : KeepsNames g (some k) s t)
    (own : ∀ n, n ∈ (t.toHeap.frame k).names ↔ n ∈ (s.toHeap.frame k).names ∨ n ∈ more) :
    Declaring g (k :: scopes) t (names ++ more) := by
  refine h.later kept.size fun n => ?_
  have outer : t.toHeap.Declares scopes n ↔ s.toHeap.Declares scopes n := by
    refine Heap.declares_congr (fun j inside => ?_) n
    have known := h.above j (List.mem_cons_of_mem _ inside)
    have different : j ≠ k := fun same => other (same ▸ inside)
    exact kept.names j known.2 (Nat.ne_of_gt known.1) fun same => different (Option.some.inj same)
  rw [Heap.declares_cons, own, outer, List.mem_append, ← h.declares n, Heap.declares_cons]
  exact or_right_comm

end Declaring

/-! ### On the way to a moment -/

section

variable {g : Nat} {ev : Evaluator} (obeys : ev.Obeys (KeepsNames g))
include obeys

theorem Begins.keepsNames {label : Option String} {pattern : Pattern} {declare : List String}
    {body : List Instruction} {items : List Value} {item : Value} {env : Env} {s t : GenerateState}
    (begins : Begins label (runRound env pattern declare fun scope => runAll ev body scope) items s item t) :
    KeepsNames g none s.toState t.toState := by
  have c := conserves_keepsNames g
  induction begins with
  | now => exact (c.connected none).refl _
  | later run _ _ ih =>
    have first := (c.runRound env pattern declare (fun scope => c.runAll obeys scope body) _).ok run
    exact (c.connected none).trans first ih

theorem Turns.keepsNames {env : Env} {i : Instruction} {item : Value} {s t : GenerateState}
    (turns : Turns ev env s i item t) : KeepsNames g none s.toState t.toState := by
  have c := conserves_keepsNames g
  cases turns with
  | round evaluated iterated begins =>
    have first := (obeys.expr env _).ok (interpret_ok evaluated)
    have second : KeepsNames g none _ _ := (c.iterate _ _).ok (interpret_ok iterated)
    exact (c.connected none).trans first ((c.connected none).trans second (begins.keepsNames obeys))

omit obeys in
theorem along_declarations {R : Option Nat → State → State → Prop} (c : Conserves R) (scope : Env)
    (names : List String) : Along (OnState (R none)) (names.forM (writeDeclaration scope)) :=
  Along.forM (connected_onState (c.connected none)) names fun name _ => c.writeDeclaration scope name

omit obeys in
/-- The scope of a round declares the names of the pattern. -/
theorem Declaring.openRound {scopes scope : Env} {names : List String} {pattern : Pattern} {item : Value}
    {s t : GenerateState} (h : Declaring g scopes s.toState names)
    (opened : Template.openRound (scopes ++ [g]) pattern item s = .ok scope t) :
    ∃ k, scope = k :: scopes ++ [g] ∧ Declaring g (k :: scopes) t.toState (names ++ pattern.names) := by
  obtain ⟨made, u, run, opened⟩ := bind_eq_ok.1 opened
  obtain ⟨_, v, bound, opened⟩ := bind_eq_ok.1 opened
  obtain ⟨_, w, brace, opened⟩ := bind_eq_ok.1 opened
  cases brace
  cases opened
  obtain ⟨rfl, declaring⟩ := h.child (interpret_ok run)
  have binds : bindPattern _ (.declare false) pattern item u.toState = .ok () v.toState := interpret_ok bound
  refine ⟨_, rfl, declaring.grow (fun inside => Nat.lt_irrefl _ (h.above _ inside).2) ?_ ?_⟩
  · exact ((conserves_keepsNames g).bindPattern _ pattern item).ok binds
  · exact bindPattern_names pattern (declaring.above _ List.mem_cons_self).2 binds

/-- **At every moment the names of the loops around it are declared besides those at the start.** -/
theorem Arrives.declaring {code around : List Instruction} {m : Moment} {env env' : Env} {s t : GenerateState}
    (arrives : Arrives ev code env s around m env' t) :
    ∀ {scopes : Env} {names : List String}, env = scopes ++ [g] → Declaring g scopes s.toState names →
    ∃ scopes', env' = scopes' ++ [g]
      ∧ Declaring g scopes' t.toState (names ++ around.flatMap Instruction.loopNames) := by
  have c := conserves_keepsNames g
  -- what runs before the moment keeps the names, a branch gets a new scope, and a round declares its names in one
  induction arrives with
  | here =>
    rintro scopes names rfl declaring
    exact ⟨scopes, rfl, by simpa using declaring⟩
  | after run _ ih =>
    rintro scopes names rfl declaring
    exact ih rfl (declaring.keep ((c.runStep obeys _ _).ok run))
  | yes evaluated _ opened _ ih | no evaluated _ opened _ ih =>
    rintro scopes names rfl declaring
    have kept := (obeys.expr _ _).ok (interpret_ok evaluated)
    obtain ⟨rfl, declaring⟩ := (declaring.keep kept).child (interpret_ok opened)
    exact ih rfl declaring
  | block brace _ ih =>
    rintro scopes names rfl declaring
    exact ih rfl (declaring.keep ((along_append (c.connected none) _).ok brace))
  | lookup turns opened declared =>
    rintro scopes names rfl declaring
    obtain ⟨k, rfl, declaring⟩ := (declaring.keep (turns.keepsNames obeys)).openRound opened
    have kept := (along_declarations c _ _).ok declared
    exact ⟨k :: scopes, rfl, by simpa [Instruction.loopNames] using declaring.keep kept⟩
  | round turns opened declared _ ih =>
    rintro scopes names rfl declaring
    obtain ⟨k, rfl, declaring⟩ := (declaring.keep (turns.keepsNames obeys)).openRound opened
    have kept := (along_declarations c _ _).ok declared
    obtain ⟨scopes', rfl, declaring⟩ := ih rfl (declaring.keep kept)
    exact ⟨scopes', rfl, by simpa [Instruction.loopNames] using declaring⟩

end

/-! ### The scope of a program -/

/-- The scope of a program, with its parameters declared in it, and the globals around it. -/
def opening (context : Context) (params : List String) : Generate (Env × Env) := do
  let globals ← interpret freshGlobals
  let env ← interpret (newScope globals)
  declareParams context env params
  return (globals, env)

theorem runMain_eq_opening (ev : Evaluator) (p : Program) (context : Context) :
    runMain ev p context = opening context p.params >>= fun scopes => runAll ev p.instructions scopes.2 >>= fun _ =>
      pure () := by
  simp only [runMain, opening, bind_assoc, pure_bind]

/-- Parameters that have values are declared. -/
theorem declareParams_ok {context : Context} {g k : Nat} {outer : Env} : ∀ {params names : List String}
    {s : GenerateState}, (∀ n ∈ params, ∃ v, context.get? n = some v) → Declaring g [k] s.toState names →
    ∃ t, declareParams context (k :: outer) params s = .ok () t ∧ Declaring g [k] t.toState (names ++ params)
  | [], names, s, _, declaring => ⟨s, rfl, by simpa using declaring⟩
  | n :: params, names, s, bound, declaring => by
    obtain ⟨v, found⟩ := bound n List.mem_cons_self
    obtain ⟨u, run, same⟩ : ∃ u, interpret (declareVar (k :: outer) n v false) s = .ok () u
        ∧ u.toState = { s.toHeap.declare (k :: outer) n v false with depth := s.depth } :=
      ⟨_, interpret_of_ok rfl, rfl⟩
    have declared : Declaring g [k] u.toState (names ++ [n]) := by
      rw [same]
      refine declaring.grow List.not_mem_nil ((conserves_keepsNames g).declare _ k outer n v false) fun m => ?_
      have put : (s.toHeap.declare (k :: outer) n v false).frame k = (s.toHeap.frame k).put n ⟨v, false⟩ :=
        Heap.frame_declare (declaring.above k List.mem_cons_self).2
      show m ∈ ((s.toHeap.declare (k :: outer) n v false).frame k).names ↔ _
      rw [put, Record.mem_names_put, List.mem_singleton]
    obtain ⟨t, rest, declaring⟩ := declareParams_ok (fun m inside => bound m (List.mem_cons_of_mem _ inside)) declared
    refine ⟨t, bind_eq_ok.2 ⟨(), u, ?_, rest⟩, by simpa using declaring⟩
    simp only [found, run]

theorem opening_ok {context : Context} {params : List String} (bound : ∀ n ∈ params, ∃ v, context.get? n = some v)
    (s : GenerateState) :
    ∃ k t, opening context params s = .ok ([s.frames.size], [k, s.frames.size]) t
      ∧ Declaring s.frames.size [k] t.toState params := by
  obtain ⟨t, run, same⟩ : ∃ t, interpret freshGlobals s = .ok [s.frames.size] t
      ∧ t.toState = { s.toHeap.globals.2 with depth := s.depth } := ⟨_, interpret_of_ok rfl, rfl⟩
  have alone : Declaring s.frames.size [] t.toState [] := by
    constructor
    · simp [same]
    · nofun
    · simp [Heap.Declares]
  obtain ⟨u, made⟩ : ∃ u, interpret (newScope [s.frames.size]) t = .ok [t.frames.size, s.frames.size] u :=
    ⟨_, interpret_of_ok rfl⟩
  have declaring := (alone.child (interpret_ok made)).2
  obtain ⟨w, declared, declaring⟩ := declareParams_ok bound declaring
  exact ⟨_, w, bind_eq_ok.2 ⟨_, t, run, bind_eq_ok.2 ⟨_, u, made, bind_eq_ok.2 ⟨(), w, declared, rfl⟩⟩⟩, declaring⟩

/-! ### Names that can be looked up -/

/-- A name on its own whose value a moment asks for. -/
def Moment.bareName? : Moment → Option String
  | .run (.inline (.ident _ name) _ _) => some name
  | .lookup name => some name
  | _ => none

theorem Moment.eq_inline_of_bareName {i : Instruction} {name : String} (asks : (Moment.run i).bareName? = some name) :
    ∃ span min start, i = .inline (.ident span name) min start := by
  cases i with
  | inline e min start =>
    cases e with
    | ident span n =>
      obtain rfl := Option.some.inj asks
      exact ⟨span, min, start, rfl⟩
    | _ => cases asks
  | _ => cases asks

theorem writtenOf_error {v : Value} {e : RuntimeError} {s t : State} (h : writtenOf v s = .error (.error e) t) :
    ∃ fault, e = .type fault := by
  rcases bind_eq_error.1 h with h | ⟨heap, u, _, h⟩
  · cases h
  · cases code : written heap v with
    | ok _ =>
      simp only [code] at h
      cases h
    | error fault =>
      simp only [code] at h
      cases h
      exact ⟨fault, rfl⟩

/-- Writing the value of an expression is a reference error only if its evaluation is. -/
theorem reference_of_writing {α : Type} {act : Eval Value} {more : Value → String → Generate α} {s u : GenerateState}
    {name : String} (ends : ∀ v code t halt w, more v code t ≠ .error halt w)
    (fails : (interpret act >>= fun v => interpret (writtenOf v) >>= more v) s
      = .error (.refused (.runtime (.reference name))) u) : act s.toState = .error (.error (.reference name)) u.toState := by
  rcases bind_eq_error.1 fails with fails | ⟨v, t, _, fails⟩
  · exact interpret_refused fails
  rcases bind_eq_error.1 fails with fails | ⟨code, w, _, fails⟩
  · obtain ⟨fault, same⟩ := writtenOf_error (interpret_refused fails)
    cases same
  · exact absurd fails (ends v code w _ u)

/-- Inlining an expression is a reference error only if its evaluation is. -/
theorem Moment.reference_of_inline {ev : Evaluator} {e : Expr} {min : Precedence} {start : Bool} {env : Env}
    {s u : GenerateState} {name : String}
    (fails : (Moment.run (.inline e min start)).act ev env s = .error (.refused (.runtime (.reference name))) u) :
    ev.expr env e s.toState = .error (.error (.reference name)) u.toState := by
  rcases bind_eq_error.1 fails with fails | ⟨_, _, _, fails⟩
  · rw [runStep] at fails
    refine reference_of_writing (fun v code t halt u fails => ?_) fails
    rw [bind_of_ok (append_eq _ _)] at fails
    cases fails
  · cases fails

/-- Where a declared name is asked for, that is no reference error. -/
theorem Moment.act_of_declared {host : Host} {fuel : Nat} {m : Moment} {name : String} {env : Env} {s : GenerateState}
    (asks : m.bareName? = some name) (declared : s.toHeap.Declares env name) (other : String) (u : GenerateState) :
    m.act (evaluator host fuel) env s ≠ .error (.refused (.runtime (.reference other))) u := by
  obtain ⟨v, found⟩ := getVar_of_declared declared
  intro fails
  cases m with
  | lookup n =>
    obtain rfl : n = name := Option.some.inj asks
    have looked := reference_of_writing (fun v code t halt u fails => by rw [append_eq] at fails; cases fails) fails
    rw [found] at looked
    cases looked
  | run i =>
    obtain ⟨span, min, start, rfl⟩ := Moment.eq_inline_of_bareName asks
    have looked := Moment.reference_of_inline fails
    cases fuel with
    | zero => cases looked
    | succ _ => cases found.symm.trans looked

/-! ### Places -/

theorem Reaches.trans {pl pl' pl'' : Place} {outer inner : List Instruction} (first : Reaches pl outer pl')
    (second : Reaches pl' inner pl'') : Reaches pl (outer ++ inner) pl'' := by
  induction first with
  | refl => exact second
  | aside _ ih => exact .aside (ih second)
  | inside s _ ih => exact .inside s (ih second)
  | branch _ ih => exact .branch (ih second)
  | round _ ih => exact .round (ih second)
  | braces _ ih => exact .braces (ih second)

/-- What a moment is about was compiled in the place. -/
inductive Moment.CompiledAt (r : Registry) (pl : Place) : List Instruction → Moment → Prop
  /-- The declaration of a staged name at the start. -/
  | declaration {name : String} (top : pl = .top r) (declared : name ∈ r.declared) :
      CompiledAt r pl [] (.run (.inline (.ident ⟨0, 0⟩ name) .lowest false))
  | planned {around : List Instruction} {i : Instruction} (planned : Planned pl i) : CompiledAt r pl around (.run i)
  /-- The name is bound by the innermost loop. -/
  | bound {outer : List Instruction} {name : String} {label : Option String} {kind : IterKind} {pattern : Pattern}
      {source : Expr} {declare : List String} {body : List Instruction} (bound : name ∈ pattern.names) :
      CompiledAt r pl (outer ++ [.each label kind pattern source declare body]) (.lookup name)

theorem exists_compiledAt {r : Registry} {body : List Stmt} {p : Program} (compiled : compile r body = .ok p)
    {around : List Instruction} {m : Moment} (stands : m.StandsIn p.instructions around) :
    ∃ pl, Reaches (.top r) around pl ∧ m.CompiledAt r pl around := by
  cases m with
  | run i =>
    rcases origin_of_compile compiled stands with ⟨rfl, n, declared, rfl⟩ | ⟨pl, reach, planned⟩
    · exact ⟨.top r, .refl, .declaration rfl declared⟩
    · exact ⟨pl, reach, .planned planned⟩
  | lookup name =>
    obtain ⟨outer, label, kind, pattern, source, declare, body, mem, rfl, occurs⟩ := stands
    rcases origin_of_compile compiled occurs with ⟨_, n, _, other⟩ | ⟨pl, reach, planned⟩
    · cases other
    · cases planned
      exact ⟨_, reach.trans (.round .refl), .bound (List.mem_filter.1 mem).1⟩

/-- A bare name that a moment asks for was staged where the moment was compiled. -/
theorem Moment.CompiledAt.staged {r : Registry} (nested : r.Nested) {pl : Place} {around : List Instruction}
    {m : Moment} (compiled : m.CompiledAt r pl around) (reach : Reaches (.top r) around pl) {name : String}
    (asks : m.bareName? = some name) : name ∈ pl.registry.staged := by
  have registry : pl.registry = r.bindNames (around.flatMap Instruction.loopNames) := reach.registry
  cases compiled with
  | declaration top declared =>
    subst top
    obtain rfl := Option.some.inj asks
    exact (List.mem_filter.1 declared).1
  | planned planned =>
    obtain ⟨span, min, start, rfl⟩ := Moment.eq_inline_of_bareName asks
    cases planned with
    | inline plan =>
      have nestedHere := registry ▸ nested.bindNames (around.flatMap Instruction.loopNames)
      rcases inline_of_plan plan with ⟨root, inlined, same, _⟩ | ⟨_, _, _, _, call, _⟩
      · obtain rfl := Option.some.inj same
        exact nestedHere.inlined _ inlined
      · cases call
  | bound bound =>
    obtain rfl := Option.some.inj asks
    rw [registry]
    refine Registry.mem_staged_bindNames.2 (.inr ?_)
    simpa [Instruction.loopNames] using .inr bound

/-! ### The main statement -/

theorem params_of_compile {r : Registry} {body : List Stmt} {p : Program} (compiled : compile r body = .ok p) :
    p.params = r.staged := by
  obtain ⟨fs, start, _, rfl⟩ := compile_ok_iff.1 compiled
  rfl

/-- A program starts in a scope that declares its parameters, and wherever it comes the names of loops come to these. -/
theorem exists_opening {p : Program} {context : Context} (bound : ∀ n ∈ p.params, ∃ v, context.get? n = some v)
    {host : Host} (fuel : Nat) (s : State) (hosted : ∀ id args, Along (KeepsNames s.frames.size none) (host id args)) :
    ∃ env s₀, opening context p.params { toState := { s with depth := 0 }, out := "" } = .ok ([s.frames.size], env) s₀
      ∧ runMain (evaluator host fuel) p context { toState := { s with depth := 0 }, out := "" }
        = (runAll (evaluator host fuel) p.instructions env >>= fun _ => pure ()) s₀
      ∧ ∀ around m env' t, Arrives (evaluator host fuel) p.instructions env s₀ around m env' t →
        ∃ scopes, env' = scopes ++ [s.frames.size]
          ∧ Declaring s.frames.size scopes t.toState (p.params ++ around.flatMap Instruction.loopNames) := by
  have obeys := (conserves_keepsNames s.frames.size).evaluator_obeys hosted fuel
  obtain ⟨k, s₀, opens, declaring⟩ := opening_ok bound { toState := { s with depth := 0 }, out := "" }
  refine ⟨_, s₀, opens, ?_, fun around m env' t arrives => arrives.declaring obeys rfl declaring⟩
  rw [runMain_eq_opening, bind_of_ok opens]

/--
**The scopes of a run are those of its compilation.** If every staged parameter has a value, the program gets a scope
with its parameters inside of globals of its own, and the rest of the run is that of its instructions there. Whenever it
comes to an instruction, the names declared in the scopes above the globals are those that were staged where the
instruction was compiled. So the declarations at the start, a name on its own that is inlined and a name that gets a
declaration in a round can be looked up, and none of them is a reference error. Functions of the host program may do
what they like, as long as they declare names in globals and in scopes of their own only.
-/
theorem scopes_coincide {r : Registry} {body : List Stmt} {p : Program} (compiled : compile r body = .ok p)
    {context : Context} (bound : ∀ n ∈ r.staged, ∃ v, context.get? n = some v) {host : Host} (fuel : Nat) (s : State)
    (hosted : ∀ id args, Along (KeepsNames s.frames.size none) (host id args)) :
    ∃ globals env s₀, opening context p.params { toState := { s with depth := 0 }, out := "" } = .ok (globals, env) s₀
      ∧ runMain (evaluator host fuel) p context { toState := { s with depth := 0 }, out := "" }
        = (runAll (evaluator host fuel) p.instructions env >>= fun _ => pure ()) s₀
      ∧ ∀ around m env' t, Arrives (evaluator host fuel) p.instructions env s₀ around m env' t →
        ∃ pl scopes, Reaches (.top r) around pl ∧ m.CompiledAt r pl around ∧ env' = scopes ++ globals
          ∧ (∀ n, t.toHeap.Declares scopes n ↔ n ∈ pl.registry.staged)
          ∧ (r.Nested → ∀ n, m.bareName? = some n → (∃ v, getVar env' n t.toState = .ok v t.toState)
            ∧ ∀ other u, m.act (evaluator host fuel) env' t ≠ .error (.refused (.runtime (.reference other))) u) := by
  rw [← params_of_compile compiled] at bound
  obtain ⟨env, s₀, opens, runs, moments⟩ := exists_opening bound fuel s hosted
  refine ⟨_, env, s₀, opens, runs, fun around m env' t arrives => ?_⟩
  obtain ⟨pl, reach, compiledAt⟩ := exists_compiledAt compiled arrives.standsIn
  obtain ⟨scopes, rfl, declaring⟩ := moments around m env' t arrives
  have same : ∀ n, t.toHeap.Declares scopes n ↔ n ∈ pl.registry.staged := by
    intro n
    rw [declaring.declares n, params_of_compile compiled, reach.registry, Registry.mem_staged_bindNames, List.mem_append]
    rfl
  refine ⟨pl, scopes, reach, compiledAt, rfl, same, fun nested n asks => ?_⟩
  obtain ⟨j, inside, declared⟩ := (same n).2 (compiledAt.staged nested reach asks)
  have declared : t.toHeap.Declares (scopes ++ [s.frames.size]) n := ⟨j, List.mem_append_left _ inside, declared⟩
  exact ⟨getVar_of_declared declared, Moment.act_of_declared asks declared⟩

/-- A loop that binds a name of the loop around it again: `for (const $x of $a) $a;`. -/
def inwardLoop : Stmt :=
  .forEach ⟨0, 0⟩ .of (some .const) (.name "$x") (.ident ⟨0, 0⟩ "$a") (.expr ⟨0, 0⟩ (.ident ⟨0, 0⟩ "$a"))

/-- The loop around it, which takes pairs apart and binds a parameter again: `for (const [$x, $a] of $xs)`. -/
def pairsLoop : Stmt :=
  .forEach ⟨0, 0⟩ .of (some .const) (.array [.name "$x", .name "$a"]) (.ident ⟨0, 0⟩ "$xs") inwardLoop

/-- Two inlined parameters; the names that loops bind are not inlined on their own account. -/
def pairsRegistry : Registry := ⟨["$xs", "$a"], ["$xs", "$a"], [], false⟩

/-- What is compiled from `inwardLoop`. -/
def inwardEach : Instruction :=
  .each none .of (.name "$x") (.ident ⟨0, 0⟩ "$a") ["$x"] [.inline (.ident ⟨0, 0⟩ "$a") .lowest true, .literal ";"]

/-- What is compiled from `pairsLoop`. -/
def pairsEach : Instruction :=
  .each none .of (.array [.name "$x", .name "$a"]) (.ident ⟨0, 0⟩ "$xs") ["$x"] [inwardEach]

def pairsProgram : Program := ⟨["$xs", "$a"], [pairsEach]⟩

theorem compile_pairsLoop : compile pairsRegistry [pairsLoop] = .ok pairsProgram := by
  have outer : (Place.top pairsRegistry).plan pairsLoop
      = .unroll none .of (.array [.name "$x", .name "$a"]) (.ident ⟨0, 0⟩ "$xs") inwardLoop := by cbv
  have inner : ((Place.top pairsRegistry).inRound none ["$x", "$a"]).plan inwardLoop
      = .unroll none .of (.name "$x") (.ident ⟨0, 0⟩ "$a") (.expr ⟨0, 0⟩ (.ident ⟨0, 0⟩ "$a")) := by cbv
  have name : planExpr (((Place.top pairsRegistry).inRound none ["$x", "$a"]).inRound none ["$x"]).registry
      (.ident ⟨0, 0⟩ "$a") .lowest = .inline := by cbv
  have body : Emits (((Place.top pairsRegistry).inRound none ["$x", "$a"]).inRound none ["$x"]) false
      (bodyParts (.expr ⟨0, 0⟩ (.ident ⟨0, 0⟩ "$a"))) _ _ := .keepStmt rfl (.inline name (.text .nil)) .nil
  exact compile_ok_iff.2 ⟨_, false, .unroll outer (.unroll inner body .nil) .nil, by cbv⟩

/-- The array `[[true, [false]]]` for one parameter, and `null` for the other. -/
def pairsState : State where
  arrays := #[#[.array 1], #[.bool true, .array 2], #[.bool false]]

def pairsContext : Context := [("$xs", .array 0), ("$a", .null)]

/-- The names in the rounds of both loops are those of the parameters and `$x`. -/
theorem scopes_coincide_pairs : compile pairsRegistry [pairsLoop] = .ok pairsProgram
    ∧ ∃ globals env s₀, opening pairsContext pairsProgram.params { toState := pairsState, out := "" }
        = .ok (globals, env) s₀
      ∧ (∃ env' t,
        Arrives (evaluator Host.none 1) pairsProgram.instructions env s₀ [pairsEach] (.run inwardEach) env' t)
      ∧ ∀ inner m env' t, inner = [] ∨ inner = [inwardEach] →
        Arrives (evaluator Host.none 1) pairsProgram.instructions env s₀ (pairsEach :: inner) m env' t →
        (∃ scopes, env' = scopes ++ globals ∧ ∀ n, t.toHeap.Declares scopes n ↔ n ∈ ["$xs", "$a", "$x"])
        ∧ ∀ n, m.bareName? = some n → ∃ v, getVar env' n t.toState = .ok v t.toState := by
  have bound : ∀ n ∈ pairsRegistry.staged, ∃ v, pairsContext.get? n = some v := by
    intro n inside
    simp only [pairsRegistry, List.mem_cons, List.not_mem_nil, or_false] at inside
    rcases inside with rfl | rfl
    · exact ⟨.array 0, rfl⟩
    · exact ⟨.null, rfl⟩
  have hosted : ∀ id args, Along (KeepsNames pairsState.frames.size none) (Host.none id args) :=
    fun _ _ => (conserves_keepsNames _).pure _
  have nested : pairsRegistry.Nested := ⟨fun _ inside => inside, nofun⟩
  obtain ⟨globals, env, s₀, opens, -, moments⟩ := scopes_coincide compile_pairsLoop bound 1 pairsState hosted
  refine ⟨compile_pairsLoop, globals, env, s₀, opens, ?_, fun inner m env' t within arrives => ?_⟩
  · have concrete : ∃ globals env s₀ env' t,
        opening pairsContext pairsProgram.params { toState := pairsState, out := "" } = .ok (globals, env) s₀
        ∧ Arrives (evaluator Host.none 1) pairsProgram.instructions env s₀ [pairsEach] (.run inwardEach) env' t := by
      refine ⟨_, _, _, ?env, ?state, by with_unfolding_all rfl, ?arrives⟩
      case arrives =>
        exact .round (.round (by with_unfolding_all rfl) (by with_unfolding_all rfl) .now) (by with_unfolding_all rfl)
          (by with_unfolding_all rfl) .here
    obtain ⟨globals', env', s₀', scope, t, opens', arrives⟩ := concrete
    obtain ⟨⟩ := opens'.symm.trans opens
    exact ⟨scope, t, arrives⟩
  · obtain ⟨pl, scopes, reach, _, rfl, same, known⟩ := moments _ m env' t arrives
    have staged : pl.registry.staged = ["$xs", "$a", "$x"] := by
      rw [reach.registry]
      rcases within with rfl | rfl
      · decide
      · decide
    exact ⟨⟨scopes, rfl, staged ▸ same⟩, fun n asks => (known nested n asks).1⟩

end Staging.Template
