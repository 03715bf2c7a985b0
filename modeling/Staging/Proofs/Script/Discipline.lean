import Staging.Proofs.Outcome
import Staging.Proofs.Script.Scope
import Staging.Proofs.Source.Jumps
import Staging.Script.Run

/-!
What runs of scripts are held to.

A `Discipline` says in which states a script may be, how it may move from one to the next, which failures it may end
in, and whether the jumps in its code are known to have targets. Two computations end alike under a discipline
(`Discipline.Ends`) when from every state in which the script may be they have the same outcome, and it is one that the
discipline allows. A computation that ends alike with itself just obeys the discipline; with a second one that looks
over its shoulder, nothing was ever seen that should not be.

All that scripts do comes down to a few primitive steps: to change the arrays and objects of the heap, to make a
function, to make a scope, to declare a name in it, to write a variable, and to open and close a call. A discipline is
lawful when it allows for each of these. What is done with no script inside obeys every lawful discipline; this module
shows it for variables, properties, patterns, builtins and methods.
-/

namespace Staging.Script

/-- The jumps in a function have targets. -/
def Callable.jumpsScoped : Callable → Bool
  | .closure func _ => func.jumpsScoped
  | .builtin _ | .host _ _ => true

/-- What runs are held to. -/
structure Discipline where
  /-- The states in which a script may be. -/
  allowed : State → Prop
  /-- How the state may change; in a given scope names may be declared. -/
  moves : Option Nat → State → State → Prop
  /-- How a script may fail. -/
  fails : RuntimeError → Prop
  /-- All jumps in the code are known to have targets. -/
  vetted : Prop

namespace Discipline

section

variable {α β : Type} (d : Discipline)

/-- The result is one of those meant, or the failure is allowed. -/
def Meets (Q : α → Prop) : EStateM.Result Fault State α → Prop
  | .ok a _ => Q a
  | .error (.error e) _ => d.fails e
  | .error .outOfFuel _ => True

/-- What came of a computation: a result that was meant, or an allowed failure. -/
def Came (Q : α → Prop) : Except RuntimeError α → Prop
  | .ok a => Q a
  | .error e => d.fails e

/-- From all allowed states two computations have the same outcome: an allowed move to a result that was meant. -/
def Ends (i : Option Nat) (Q : α → Prop) (x y : Eval α) : Prop :=
  ∀ s, d.allowed s → x s = y s ∧ d.moves i s (endOf (x s)) ∧ d.Meets Q (x s)

/-- Two computations have the same outcome and make an allowed move, whatever their result is. -/
abbrev Keeps (i : Option Nat) (x y : Eval α) : Prop := d.Ends i (fun _ => True) x y

end

/-- The primitive steps are allowed. -/
structure Lawful (d : Discipline) : Prop where
  connected : ∀ i, Connected (d.moves i)
  /-- In a scope that can be declared in nothing else is forbidden. -/
  inside : ∀ {i s t}, d.moves none s t → d.moves i s t
  stays : ∀ {i s t}, d.moves i s t → d.allowed s → d.allowed t
  /-- Only a program as a whole may fail because of a jump. -/
  failure : ∀ e, e ≠ .type .strayJump → d.fails e
  heap : ∀ (s : State) (h : Heap), h.frames = s.frames → h.functions = s.functions →
    d.moves none s { h with depth := s.depth }
  function : ∀ (s : State) (f : Callable), (d.vetted → f.jumpsScoped = true) →
    d.moves none s { (s.toHeap.newFunction f).2 with depth := s.depth }
  declare : ∀ (s : State) (i : Nat) (outer : Env) (name : String) (v : Value) (mutable : Bool),
    d.moves (some i) s { s.toHeap.declare (i :: outer) name v mutable with depth := s.depth }
  write : ∀ (s : State) (env : Env) (name : String) (i : Nat) (v : Value), s.toHeap.target env name = .ok i →
    d.moves none s { s.toHeap.write i name v with depth := s.depth }
  /-- What is declared in a new scope concerns no scope that was there before. -/
  child : ∀ (s t : State) (env : Env),
    d.moves (some s.frames.size) { (s.toHeap.child env).2 with depth := s.depth } t → d.moves none s t
  /-- A call may be opened below the limit. -/
  opened : ∀ s, d.allowed s → s.depth < maxCallDepth → d.allowed { s with depth := s.depth + 1 }
  closed : ∀ s t, d.moves none { s with depth := s.depth + 1 } t → d.moves none s { t with depth := t.depth - 1 }
  /-- The functions that are there have only jumps with targets, where this is known of the code. -/
  known : d.vetted → ∀ s, d.allowed s → ∀ ref f, s.function? ref = some f → f.jumpsScoped = true

namespace Ends

variable {d : Discipline} {α : Type} {i : Option Nat} {Q : α → Prop} {x y : Eval α}

theorem imp {Q' : α → Prop} (h : d.Ends i Q x y) (sub : ∀ a, Q a → Q' a) : d.Ends i Q' x y := by
  intro s may
  obtain ⟨same, moves, meets⟩ := h s may
  refine ⟨same, moves, ?_⟩
  cases ended : x s with
  | ok a t =>
    rw [ended] at meets
    exact sub a meets
  | error e t =>
    rw [ended] at meets
    cases e with
    | error e => exact meets
    | outOfFuel => trivial

theorem keeps (h : d.Ends i Q x y) : d.Keeps i x y := h.imp fun _ _ => trivial

end Ends

namespace Lawful

variable {d : Discipline} (l : d.Lawful)
include l

/-! ### Steps -/

section Steps

variable {α β : Type} {i : Option Nat} {Q : α → Prop}

theorem pureOf {a : α} (h : Q a) : d.Ends i Q (Pure.pure a) (Pure.pure a) :=
  fun s _ => ⟨rfl, (l.connected i).refl s, h⟩

theorem pure (a : α) : d.Keeps i (Pure.pure a : Eval α) (Pure.pure a) := l.pureOf trivial

theorem outOfFuel : d.Ends i Q (fun s => .error .outOfFuel s) (fun s => .error .outOfFuel s) :=
  fun s _ => ⟨rfl, (l.connected i).refl s, trivial⟩

theorem bindOf {P : β → Prop} {x y : Eval β} {f g : β → Eval α} (hx : d.Ends i P x y)
    (hf : ∀ a, P a → d.Ends i Q (f a) (g a)) : d.Ends i Q (x >>= f) (y >>= g) := by
  intro s may
  obtain ⟨same, moves, meets⟩ := hx s may
  simp only [Bind.bind, EStateM.bind]
  rw [← same]
  cases ended : x s with
  | ok a t =>
    rw [ended] at moves meets
    obtain ⟨next, further, reached⟩ := hf a meets t (l.stays moves may)
    exact ⟨next, (l.connected i).trans moves further, reached⟩
  | error e t =>
    rw [ended] at moves meets
    cases e with
    | error e => exact ⟨rfl, moves, meets⟩
    | outOfFuel => exact ⟨rfl, moves, trivial⟩

theorem bind {x y : Eval β} {f g : β → Eval α} (hx : d.Keeps i x y) (hf : ∀ a, d.Ends i Q (f a) (g a)) :
    d.Ends i Q (x >>= f) (y >>= g) :=
  l.bindOf hx fun a _ => hf a

theorem map {x y : Eval β} (f : β → α) (hx : d.Keeps i x y) : d.Keeps i (f <$> x) (f <$> y) := by
  rw [map_eq_pure_bind, map_eq_pure_bind]
  exact l.bind hx fun a => l.pure (f a)

theorem mapM {f g : β → Eval α} : ∀ as : List β, (∀ a ∈ as, d.Keeps i (f a) (g a)) →
    d.Keeps i (as.mapM f) (as.mapM g)
  | [], _ => l.pure _
  | a :: as, h => by
    rw [List.mapM_cons, List.mapM_cons]
    refine l.bind (h a List.mem_cons_self) fun _ => ?_
    exact l.bind (mapM as fun b inside => h b (List.mem_cons_of_mem _ inside)) fun _ => l.pure _

theorem raise {e : RuntimeError} (h : e ≠ .type .strayJump) : d.Ends i Q (raise e) (raise e) :=
  fun s _ => ⟨rfl, (l.connected i).refl s, l.failure e h⟩

/-- What declares nothing can be done in every scope. -/
theorem anywhere {x y : Eval α} (h : d.Ends none Q x y) : d.Ends i Q x y := by
  intro s may
  obtain ⟨same, moves, meets⟩ := h s may
  exact ⟨same, l.inside moves, meets⟩

theorem getHeap : d.Keeps i getHeap getHeap := fun s _ => ⟨rfl, (l.connected i).refl s, trivial⟩

theorem onHeap {f : Heap → α × Heap} (h : ∀ h, (f h).2.frames = h.frames ∧ (f h).2.functions = h.functions) :
    d.Keeps i (onHeap f) (onHeap f) :=
  fun s _ => ⟨rfl, l.inside (l.heap s (f s.toHeap).2 (h s.toHeap).1 (h s.toHeap).2), trivial⟩

theorem modifyHeap {f : Heap → Heap} (h : ∀ h, (f h).frames = h.frames ∧ (f h).functions = h.functions) :
    d.Keeps i (modifyHeap f) (modifyHeap f) :=
  fun s _ => ⟨rfl, l.inside (l.heap s (f s.toHeap) (h s.toHeap).1 (h s.toHeap).2), trivial⟩

theorem newFunction {f : Callable} (h : d.vetted → f.jumpsScoped = true) :
    d.Keeps i (Script.onHeap (·.newFunction f)) (Script.onHeap (·.newFunction f)) :=
  fun s _ => ⟨rfl, l.inside (l.function s f h), trivial⟩

theorem newArray (items : List Value) : d.Keeps i (newArray items) (newArray items) := l.onHeap fun _ => ⟨rfl, rfl⟩

theorem newObject (fields : Record Value) : d.Keeps i (newObject fields) (newObject fields) :=
  l.onHeap fun _ => ⟨rfl, rfl⟩

theorem displayOf (v : Value) : d.Keeps i (displayOf v) (displayOf v) := l.bind l.getHeap fun _ => l.pure _

theorem numberOf (v : Value) : d.Keeps i (numberOf v) (numberOf v) := l.bind l.getHeap fun _ => l.pure _

/-- What is done in a new scope. -/
theorem newScope {env : Env} {f g : Env → Eval α} (h : ∀ j, d.Ends (j :: env).head? Q (f (j :: env)) (g (j :: env))) :
    d.Ends i Q (newScope env >>= f) (newScope env >>= g) := by
  refine l.anywhere fun s may => ?_
  have made : d.allowed { (s.toHeap.child env).2 with depth := s.depth } :=
    l.stays (l.child s _ env ((l.connected _).refl _)) may
  obtain ⟨same, moves, meets⟩ := h s.frames.size _ made
  exact ⟨same, l.child s _ env moves, meets⟩

omit l in
/-- What is done may depend on the state. -/
theorem inspect {f g : State → Eval α}
    (h : ∀ s, d.allowed s → f s s = g s s ∧ d.moves i s (endOf (f s s)) ∧ d.Meets Q (f s s)) :
    d.Ends i Q (get >>= f) (get >>= g) := h

omit l in
theorem attempt {x y : Eval α} (h : d.Ends i Q x y) : d.Ends i (d.Came Q) (attempt x) (attempt y) := by
  intro s may
  obtain ⟨same, moves, meets⟩ := h s may
  unfold Script.attempt
  rw [← same]
  cases ended : x s with
  | ok a t =>
    rw [ended] at moves meets
    exact ⟨rfl, moves, meets⟩
  | error e t =>
    rw [ended] at moves meets
    cases e with
    | error e => exact ⟨rfl, moves, meets⟩
    | outOfFuel => exact ⟨rfl, moves, trivial⟩

theorem resume {r : Except RuntimeError α} (h : d.Came Q r) : d.Ends i Q (resume r) (resume r) := by
  cases r with
  | ok a => exact l.pureOf h
  | error e => exact fun s _ => ⟨rfl, (l.connected i).refl s, h⟩

/-- What runs as a call starts below the limit. -/
theorem nested {x y : Eval α} (h : d.Ends none Q x y) {s : State} (may : d.allowed s)
    (below : s.depth < maxCallDepth) : Script.nested x s = Script.nested y s ∧
      d.moves none s (endOf (Script.nested x s)) ∧ d.Meets Q (Script.nested x s) := by
  obtain ⟨same, moves, meets⟩ := h _ (l.opened s may below)
  have closed := l.closed s _ moves
  unfold Script.nested
  rw [← same]
  cases ended : x { s with depth := s.depth + 1 } with
  | ok a t =>
    rw [ended] at closed meets
    exact ⟨rfl, closed, meets⟩
  | error e t =>
    rw [ended] at closed meets
    cases e with
    | error e => exact ⟨rfl, closed, meets⟩
    | outOfFuel => exact ⟨rfl, closed, trivial⟩

end Steps

/-! ### Variables -/

variable {i : Option Nat} {env : Env}

theorem getVar (name : String) : d.Keeps i (getVar env name) (getVar env name) := by
  refine l.bind l.getHeap fun h => ?_
  cases h.lookup? env name with
  | some v => exact l.pure v
  | none => exact l.raise nofun

theorem setVar (name : String) (v : Value) : d.Keeps i (setVar env name v) (setVar env name v) := by
  refine l.anywhere fun s _ => ⟨rfl, ?_⟩
  rw [setVar_eq]
  cases found : s.toHeap.target env name with
  | ok index => exact ⟨l.write s env name index v found, trivial⟩
  | error e =>
    refine ⟨(l.connected none).refl s, l.failure e ?_⟩
    rintro rfl
    unfold Heap.target at found
    split at found
    · cases found
    · split at found <;> cases found

theorem declareVar (name : String) (v : Value) (mutable : Bool) :
    d.Keeps env.head? (declareVar env name v mutable) (declareVar env name v mutable) := by
  cases env with
  | nil => exact l.modifyHeap fun _ => ⟨rfl, rfl⟩
  | cons j outer => exact fun s _ => ⟨rfl, l.declare s j outer name v mutable, trivial⟩

/-! ### Properties and patterns -/

theorem getProperty (target : Value) (key : String) : d.Keeps i (getProperty target key) (getProperty target key) := by
  refine l.bind l.getHeap fun h => ?_
  split
  · exact l.raise nofun
  · exact l.pure _

theorem setProperty (target : Value) (key : String) (v : Value) :
    d.Keeps i (setProperty target key v) (setProperty target key v) := by
  unfold Script.setProperty
  split
  · exact l.modifyHeap fun _ => ⟨rfl, rfl⟩
  · split
    · refine l.bind (l.numberOf v) fun x => ?_
      split
      · exact l.modifyHeap fun _ => ⟨rfl, rfl⟩
      · exact l.raise nofun
    · split
      · exact l.raise nofun
      · split
        · exact l.raise nofun
        · exact l.modifyHeap fun _ => ⟨rfl, rfl⟩
  · exact l.raise nofun

theorem elementsOf (v : Value) : d.Keeps i (elementsOf v) (elementsOf v) := by
  unfold Script.elementsOf
  split
  · exact l.bind l.getHeap fun _ => l.pure _
  · exact l.pure _
  · exact l.raise nofun

theorem iterate (kind : IterKind) (source : Value) : d.Keeps i (iterate kind source) (iterate kind source) := by
  refine l.bind l.getHeap fun h => ?_
  split <;> first | exact l.pure _ | exact l.raise nofun

mutual

/-- Binding a pattern declares its names in the innermost scope, or assigns to them. -/
theorem bindPattern (mode : BindMode) :
    ∀ (p : Pattern) (v : Value), d.Keeps env.head? (bindPattern env mode p v) (bindPattern env mode p v)
  | .name n, v => by
    unfold Script.bindPattern
    cases mode with
    | declare mutable => exact l.declareVar n v mutable
    | assign => exact l.setVar n v
  | .array items, v => by
    unfold Script.bindPattern
    exact l.bind (l.elementsOf v) fun vs => bindItems mode items vs
  | .object props, v => by
    unfold Script.bindPattern
    split
    · exact l.bind (l.displayOf v) fun _ => l.raise nofun
    · exact bindProps mode props v

theorem bindItems (mode : BindMode) :
    ∀ (ps : List Pattern) (vs : List Value), d.Keeps env.head? (bindItems env mode ps vs) (bindItems env mode ps vs)
  | [], _ => l.pure ()
  | p :: rest, _ => l.bind (bindPattern mode p _) fun _ => bindItems mode rest _

theorem bindProps (mode : BindMode) :
    ∀ (ps : List PatternProperty) (v : Value), d.Keeps env.head? (bindProps env mode ps v) (bindProps env mode ps v)
  | [], _ => l.pure ()
  | ⟨key, p⟩ :: rest, v => by
    unfold Script.bindProps
    refine l.bind (l.getProperty v key) fun part => ?_
    exact l.bind (bindPattern mode p part) fun _ => bindProps mode rest v

end

/-! ### Builtins and methods -/

theorem makeDate (v : Value) : d.Keeps i (makeDate v) (makeDate v) := by
  unfold Script.makeDate
  split
  · split
    · exact l.pure _
    · exact l.raise nofun
  · exact l.pure _
  · refine l.bind (l.numberOf _) fun x => ?_
    split
    · exact l.pure _
    · exact l.raise nofun

theorem runBuiltin (b : Builtin) (now : Instant) (args : List Value) :
    d.Keeps i (b.run now args) (b.run now args) := by
  refine l.bind l.getHeap fun h => ?_
  cases b with
  | keys | values => exact l.newArray _
  | entries => exact l.bind (l.mapM _ fun _ _ => l.newArray _) fun _ => l.newArray _
  | isArray =>
    simp only
    split <;> exact l.pure _
  | date =>
    simp only
    split
    · exact l.pure _
    · exact l.makeDate _
  | error => exact l.newObject _
  | _ => exact l.pure _

theorem noMethod {α : Type} (kind key : String) : d.Keeps i (noMethod kind key : Eval α) (noMethod kind key) :=
  l.raise nofun

theorem dateMethod (t : Instant) (key : String) : d.Keeps i (dateMethod t key) (dateMethod t key) := by
  unfold Script.dateMethod
  split <;> first | exact l.pure _ | exact l.noMethod _ _

theorem numberMethod (x : Float) (key : String) (args : List Value) :
    d.Keeps i (numberMethod x key args) (numberMethod x key args) := by
  unfold Script.numberMethod
  split
  · exact l.pure _
  · exact l.bind (l.numberOf _) fun _ => l.pure _
  · exact l.noMethod _ _

theorem stringMethod (s key : String) (args : List Value) :
    d.Keeps i (stringMethod s key args) (stringMethod s key args) := by
  refine l.bind l.getHeap fun h => ?_
  simp only
  split
  case h_10 =>
    split
    · exact l.newArray _
    · split <;> exact l.newArray _
  all_goals first | exact l.pure _ | exact l.noMethod _ _

end Lawful

end Discipline

end Staging.Script
