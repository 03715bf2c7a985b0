import Staging.Proofs.Script.Twin
import Staging.Script.Run

/-!
Quiet code in two runs.

An expression is quiet when it calls nothing, makes no instance and assigns to nothing, outside the functions that are
written in it: evaluating it makes arrays, objects and functions, but changes none. From heaps that mirror each other,
quiet expressions have twins as their values, or fail with the same failure, and the heaps still mirror each other
(`evaluator_abreast`). The same holds for what a program does with the values: to bind the names of a pattern, to go
through the items of a collection, and to make scopes.

The rules are about two runs from given states (`Twin.Abreast`) that end alike (`Twin.Agree`). What was made before
still is when the runs go on, since their heaps only grow.
-/

namespace Staging

mutual

/-- Nothing is called, instantiated or assigned outside the functions in the expression. -/
def Expr.isQuiet : Expr → Bool
  | .literal _ _ | .ident _ _ | .function _ _ => true
  | .array _ items => Expr.allQuiet items
  | .object _ props => Property.allQuiet props
  | .unary _ _ e => e.isQuiet
  | .binary _ _ a b => a.isQuiet && b.isQuiet
  | .cond _ a b c => a.isQuiet && b.isQuiet && c.isQuiet
  | .member _ o k _ => o.isQuiet && k.isQuiet
  | .update _ _ _ _ | .assign _ _ _ _ | .call _ _ _ _ | .new _ _ _ => false

def Key.isQuiet : Key → Bool
  | .named _ => true
  | .computed e => e.isQuiet

def Expr.allQuiet : List Expr → Bool
  | [] => true
  | e :: es => e.isQuiet && Expr.allQuiet es

def Property.allQuiet : List Property → Bool
  | [] => true
  | ⟨k, v⟩ :: ps => k.isQuiet && v.isQuiet && Property.allQuiet ps

end

end Staging

namespace Staging.Script

open Twinned (twin Made)

/-! ### Changes to heaps -/

namespace Heap

theorem array_newArray (h : Heap) (items : Array Value) (ref : Nat) :
    (h.newArray items).2.array ref = if ref = h.arrays.size then items else h.array ref := by
  by_cases last : ref = h.arrays.size <;> simp [array, newArray, Array.getElem?_push, last]

theorem object_newObject (h : Heap) (fields : Record Value) (ref : Nat) :
    (h.newObject fields).2.object ref = if ref = h.objects.size then fields else h.object ref := by
  by_cases last : ref = h.objects.size <;> simp [object, newObject, Array.getElem?_push, last]

theorem function?_newFunction (h : Heap) (c : Callable) (ref : Nat) :
    (h.newFunction c).2.function? ref = if ref = h.functions.size then some c else h.function? ref := by
  by_cases last : ref = h.functions.size <;> simp [function?, newFunction, Array.getElem?_push, last]

theorem frame_declare_eq (h : Heap) {index : Nat} (inside : index < h.frames.size) (outer : Env) (name : String)
    (v : Value) (mutable : Bool) (i : Nat) : (h.declare (index :: outer) name v mutable).frame i =
      if i = index then (h.frame i).put name ⟨v, mutable⟩ else h.frame i := by
  by_cases here : i = index
  · rw [if_pos here, here, frame_declare inside]
  · rw [if_neg here, frame_declare_of_ne here]

end Heap

namespace Twin

variable {w : Twin}

namespace Mirror

variable {h h' : Heap} (m : w.Mirror h h')
include m

theorem newArray {items : Array Value} (made : Made w h items) :
    w.Mirror (h.newArray items).2 (h'.newArray (twin w items)).2 where
  part := m.part.trans (.newArray h items)
  part' := m.part'.trans (.newArray h' _)
  arrays := by simpa [Heap.newArray, Nat.add_right_comm] using m.arrays
  objects := m.objects
  functions := m.functions
  frames := m.frames
  array ref new := by
    have grows := (Heap.IsPartOf.newArray h items).grows
    simp only [Heap.array_newArray, m.arrays, Nat.add_right_cancel_iff]
    by_cases last : ref = h.arrays.size
    · rw [if_pos last, if_pos last]
      exact ⟨Twinned.grows grows made, rfl⟩
    · rw [if_neg last, if_neg last]
      exact (m.array ref new).imp_left (Twinned.grows grows)
  object ref new := (m.object ref new).imp_left (Twinned.grows (Heap.IsPartOf.newArray h items).grows)
  function := m.function
  frame i new := (m.frame i new).imp_left (Twinned.grows (Heap.IsPartOf.newArray h items).grows)

theorem newObject {fields : Record Value} (made : Made w h fields) :
    w.Mirror (h.newObject fields).2 (h'.newObject (twin w fields)).2 where
  part := m.part.trans (.newObject h fields)
  part' := m.part'.trans (.newObject h' _)
  arrays := m.arrays
  objects := by simpa [Heap.newObject, Nat.add_right_comm] using m.objects
  functions := m.functions
  frames := m.frames
  array ref new := (m.array ref new).imp_left (Twinned.grows (Heap.IsPartOf.newObject h fields).grows)
  object ref new := by
    have grows := (Heap.IsPartOf.newObject h fields).grows
    simp only [Heap.object_newObject, m.objects, Nat.add_right_cancel_iff]
    by_cases last : ref = h.objects.size
    · rw [if_pos last, if_pos last]
      exact ⟨Twinned.grows grows made, rfl⟩
    · rw [if_neg last, if_neg last]
      exact (m.object ref new).imp_left (Twinned.grows grows)
  function := m.function
  frame i new := (m.frame i new).imp_left (Twinned.grows (Heap.IsPartOf.newObject h fields).grows)

theorem newFunction (c : Callable) : w.Mirror (h.newFunction c).2 (h'.newFunction (w.callable c)).2 where
  part := m.part.trans (.newFunction h c)
  part' := m.part'.trans (.newFunction h' _)
  arrays := m.arrays
  objects := m.objects
  functions := by simpa [Heap.newFunction, Nat.add_right_comm] using m.functions
  frames := m.frames
  array ref new := (m.array ref new).imp_left (Twinned.grows (Heap.IsPartOf.newFunction h c).grows)
  object ref new := (m.object ref new).imp_left (Twinned.grows (Heap.IsPartOf.newFunction h c).grows)
  function ref new := by
    simp only [Heap.function?_newFunction, m.functions, Nat.add_right_cancel_iff]
    by_cases last : ref = h.functions.size
    · rw [if_pos last, if_pos last, Option.map_some]
    · rw [if_neg last, if_neg last]
      exact m.function ref new
  frame i new := (m.frame i new).imp_left (Twinned.grows (Heap.IsPartOf.newFunction h c).grows)

theorem child (env : Env) : w.Mirror (h.child env).2 (h'.child (w.env env)).2 where
  part := m.part.trans (.child h env)
  part' := m.part'.trans (.child h' _)
  arrays := m.arrays
  objects := m.objects
  functions := m.functions
  frames := by simpa [Heap.child, Nat.add_right_comm] using m.frames
  array ref new := (m.array ref new).imp_left (Twinned.grows (Heap.IsPartOf.child h env).grows)
  object ref new := (m.object ref new).imp_left (Twinned.grows (Heap.IsPartOf.child h env).grows)
  function := m.function
  frame i new := by
    rw [Heap.frame_child, Heap.frame_child]
    exact (m.frame i new).imp_left (Twinned.grows (Heap.IsPartOf.child h env).grows)

theorem declare {env : Env} (scope : Made w h env) (name : String) {v : Value} (built : w.Built h v) (mutable : Bool) :
    w.Mirror (h.declare env name v mutable) (h'.declare (w.env env) name (w.value v) mutable) := by
  cases env with
  | nil => exact m
  | cons index outer =>
    obtain ⟨new, inside⟩ := scope index List.mem_cons_self
    have grows := Heap.Grows.declare h (index :: outer) name v mutable
    exact {
      part := m.part.declare new outer name v mutable
      part' := m.part'.declare (Nat.le_add_right_of_le new) _ name _ mutable
      arrays := m.arrays
      objects := m.objects
      functions := m.functions
      frames := by simpa using m.frames
      array := fun ref new => (m.array ref new).imp_left (Twinned.grows grows)
      object := fun ref new => (m.object ref new).imp_left (Twinned.grows grows)
      function := m.function
      frame := by
        intro i new
        have inside' : index + w.frames < h'.frames.size := by
          rw [m.frames]
          omega
        obtain ⟨made, same⟩ := m.frame i new
        rw [Twin.env, List.map_cons, Heap.frame_declare_eq h inside, Heap.frame_declare_eq h' inside', same]
        simp only [Nat.add_right_cancel_iff]
        by_cases here : i = index
        · rw [if_pos here, if_pos here]
          exact ⟨Twinned.grows grows (made_put made name built), put_twin (h.frame i) name ⟨v, mutable⟩⟩
        · rw [if_neg here, if_neg here]
          exact ⟨Twinned.grows grows made, rfl⟩ }

theorem built_newArray {items : Array Value} (made : Made w h items) :
    w.Built (h.newArray items).2 (h.newArray items).1 ∧
      (h'.newArray (twin w items)).1 = w.value (h.newArray items).1 := by
  have new : w.base.arrays.size ≤ h.arrays.size := Heap.size_le_of_initial m.part.arrays
  constructor
  · refine .new new (by simp [Heap.Has, Heap.newArray]) fun x holds => ?_
    simp only [Heap.newArray, Heap.contents, Heap.array, Array.getElem?_push_size, Option.getD_some] at holds
    exact Twinned.grows (Heap.IsPartOf.newArray h items).grows (made x (Array.mem_toList_iff.1 holds))
  · simp only [Heap.newArray, value, arrayRef, movedRef_of_le new, m.arrays]

theorem built_newObject {fields : Record Value} (made : Made w h fields) :
    w.Built (h.newObject fields).2 (h.newObject fields).1 ∧
      (h'.newObject (twin w fields)).1 = w.value (h.newObject fields).1 := by
  have new : w.base.objects.size ≤ h.objects.size := Heap.size_le_of_initial m.part.objects
  constructor
  · refine .new new (by simp [Heap.Has, Heap.newObject]) fun x holds => ?_
    simp only [Heap.newObject, Heap.contents, Heap.object, Array.getElem?_push_size, Option.getD_some] at holds
    obtain ⟨e, inside, rfl⟩ := List.mem_map.1 holds
    exact Twinned.grows (Heap.IsPartOf.newObject h fields).grows (made e inside)
  · simp only [Heap.newObject, value, objectRef, movedRef_of_le new, m.objects]

theorem built_newFunction (c : Callable) : w.Built (h.newFunction c).2 (h.newFunction c).1 ∧
    (h'.newFunction (w.callable c)).1 = w.value (h.newFunction c).1 := by
  have new : w.base.functions.size ≤ h.functions.size := Heap.size_le_of_initial m.part.functions
  constructor
  · exact .new new (by simp [Heap.Has, Heap.newFunction]) nofun
  · simp only [Heap.newFunction, value, functionRef, movedRef_of_le new, m.functions]

theorem made_child {env : Env} (scope : Made w h env) :
    Made w (h.child env).2 (h.child env).1 ∧ (h'.child (w.env env)).1 = w.env (h.child env).1 := by
  constructor
  · refine List.forall_mem_cons.2 ⟨⟨Heap.size_le_of_initial m.part.frames, by simp [Heap.child]⟩, ?_⟩
    exact (Heap.IsPartOf.child h env).grows.scope scope
  · simp [Heap.child, Twin.env, m.frames]

/-- A name has the twin of its value as its value. -/
theorem lookup?_twin (name : String) : ∀ {env : Env}, Made w h env →
    Made w h (h.lookup? env name) ∧ h'.lookup? (w.env env) name = (h.lookup? env name).map w.value
  | [], _ => ⟨nofun, rfl⟩
  | i :: outer, scope => by
    obtain ⟨⟨new, -⟩, scope⟩ := List.forall_mem_cons.1 scope
    obtain ⟨made, same⟩ := m.frame i new
    have further := lookup?_twin name scope
    simp only [Heap.lookup?, Twin.env, List.map_cons, Heap.resolve?, same, get?_twin] at further ⊢
    cases found : (h.frame i).get? name with
    | none => exact further
    | some b =>
      have built : w.Built h b.value := made_get? made found
      refine ⟨?_, rfl⟩
      rintro _ ⟨⟩
      exact built

end Mirror

/-! ### Runs abreast -/

/-- A state of a run: a heap, and the text so far. -/
class Running (σ : Type) where
  heap : σ → Heap
  text : σ → String

instance : Running State := ⟨State.toHeap, fun _ => ""⟩

open Running (heap text)

/-- The heaps mirror each other, and the texts so far are the same. -/
structure Abreast {σ : Type} [Running σ] (w : Twin) (s s' : σ) : Prop where
  mirror : w.Mirror (heap s) (heap s')
  text : text s' = text s

/-- Both runs end with twins, or both with the same failure, and they are still abreast. -/
inductive Ends {ε σ α : Type} [Running σ] [Twinned α] (w : Twin) (h : Heap) :
    EStateM.Result ε σ α → EStateM.Result ε σ α → Prop
  | ok {a : α} {t t' : σ} : w.Abreast t t' → h.Grows (heap t) → Made w (heap t) a →
      Ends w h (.ok a t) (.ok (twin w a) t')
  | error {e : ε} {t t' : σ} : w.Abreast t t' → h.Grows (heap t) → Ends w h (.error e t) (.error e t')

/-- From two states the computations end alike. -/
def Agree {ε σ α : Type} [Running σ] [Twinned α] (w : Twin) (s s' : σ) (x x' : EStateM ε σ α) : Prop :=
  Ends w (heap s) (x s) (x' s')

section Steps

variable {ε σ α β γ : Type} [Running σ] [Twinned α] [Twinned β] {s s' : σ}

theorem Agree.pure (both : w.Abreast s s') {a a' : α} (made : Made w (heap s) a) (same : a' = twin w a) :
    w.Agree s s' (Pure.pure a : EStateM ε σ α) (Pure.pure a') :=
  same ▸ .ok both (.refl _) made

theorem Agree.throw (both : w.Abreast s s') (e : ε) : w.Agree s s' (throw e : EStateM ε σ α) (throw e) :=
  .error both (.refl _)

theorem Agree.bind {x x' : EStateM ε σ α} {f f' : α → EStateM ε σ β} (hx : w.Agree s s' x x')
    (hf : ∀ a t t', w.Abreast t t' → (heap s).Grows (heap t) → Made w (heap t) a →
      w.Agree t t' (f a) (f' (twin w a))) : w.Agree s s' (x >>= f) (x' >>= f') := by
  unfold Agree at hx ⊢
  simp only [Bind.bind, EStateM.bind]
  generalize x s = r, x' s' = r' at hx
  cases hx with
  | ok both grows made =>
    have further := hf _ _ _ both grows made
    unfold Agree at further
    simp only
    generalize f _ _ = q, f' _ _ = q' at further
    cases further with
    | ok both later made => exact .ok both (grows.trans later) made
    | error both later => exact .error both (grows.trans later)
  | error both grows => exact .error both grows

theorem Agree.forM {f f' : γ → EStateM ε σ Unit} : ∀ (xs : List γ) {s s' : σ}, w.Abreast s s' →
    (∀ x ∈ xs, ∀ t t', w.Abreast t t' → (heap s).Grows (heap t) → w.Agree t t' (f x) (f' x)) →
    w.Agree s s' (xs.forM f) (xs.forM f')
  | [], _, _, both, _ => .pure both trivial rfl
  | x :: xs, _, _, both, each => by
    refine .bind (α := Unit) (each x List.mem_cons_self _ _ both (.refl _)) fun _ _ _ both grows _ => ?_
    refine .forM xs both fun y inside t t' both later => ?_
    exact each y (List.mem_cons_of_mem _ inside) t t' both (grows.trans later)

end Steps

/-! ### Variables, properties and patterns -/

section Eval

variable {α : Type} [Twinned α] {s s' : State}

theorem Abreast.heaps (both : w.Abreast s s') : w.Mirror s.toHeap s'.toHeap := both.mirror

theorem Agree.inspect {f f' : Heap → Eval α} (h : w.Agree s s' (f s.toHeap) (f' s'.toHeap)) :
    w.Agree s s' (getHeap >>= f) (getHeap >>= f') := h

theorem Agree.onHeap {f f' : Heap → α × Heap} (mirror : w.Mirror (f s.toHeap).2 (f' s'.toHeap).2)
    (part : s.toHeap.IsPartOf (f s.toHeap).2)
    (made : Made w (f s.toHeap).2 (f s.toHeap).1 ∧ (f' s'.toHeap).1 = twin w (f s.toHeap).1) :
    w.Agree s s' (onHeap f) (onHeap f') := by
  have ends : Ends w s.toHeap (.ok (f s.toHeap).1 { (f s.toHeap).2 with depth := s.depth })
      (.ok (twin w (f s.toHeap).1) { (f' s'.toHeap).2 with depth := s'.depth } : EStateM.Result Fault State α) :=
    .ok ⟨mirror, rfl⟩ part.grows made.1
  rw [← made.2] at ends
  exact ends

variable (both : w.Abreast s s')
include both

theorem getVar_agree {env : Env} (scope : Made w s.toHeap env) (name : String) :
    w.Agree s s' (getVar env name) (getVar (w.env env) name) := by
  obtain ⟨made, same⟩ := both.heaps.lookup?_twin name scope
  refine .inspect ?_
  simp only [same]
  cases found : s.toHeap.lookup? env name with
  | none => exact .throw both _
  | some v => exact .pure both (made v found) rfl

theorem declareVar_agree {env : Env} (scope : Made w s.toHeap env) (name : String) {v : Value}
    (built : w.Built s.toHeap v) (mutable : Bool) :
    w.Agree s s' (declareVar env name v mutable) (declareVar (w.env env) name (w.value v) mutable) := by
  have declared : w.Abreast (σ := State) { s.toHeap.declare env name v mutable with depth := s.depth }
      { s'.toHeap.declare (w.env env) name (w.value v) mutable with depth := s'.depth } :=
    ⟨both.heaps.declare scope name built mutable, rfl⟩
  exact .ok declared (.declare ..) (trivial : Made w (heap s) ())

theorem newScope_agree {env : Env} (scope : Made w s.toHeap env) :
    w.Agree s s' (newScope env) (newScope (w.env env)) :=
  .onHeap (both.heaps.child env) (.child ..) (both.heaps.made_child scope)

theorem newArray_agree {items : List Value} (made : Made w s.toHeap items) :
    w.Agree s s' (newArray items) (newArray (items.map w.value)) := by
  have made : Made w s.toHeap items.toArray := fun v inside => made v (by simpa using inside)
  have moved : (items.map w.value).toArray = twin w items.toArray := by simp
  unfold newArray
  rw [moved]
  exact .onHeap (both.heaps.newArray made) (.newArray ..) (both.heaps.built_newArray made)

theorem newObject_agree {fields : Record Value} (made : Made w s.toHeap fields) :
    w.Agree s s' (newObject fields) (newObject (twin w fields)) :=
  .onHeap (both.heaps.newObject made) (.newObject ..) (both.heaps.built_newObject made)

theorem newFunction_agree (c : Callable) :
    w.Agree s s' (Script.onHeap (·.newFunction c)) (Script.onHeap (·.newFunction (w.callable c))) :=
  .onHeap (both.heaps.newFunction c) (.newFunction ..) (both.heaps.built_newFunction c)

theorem displayOf_agree {v : Value} (built : w.Built s.toHeap v) :
    w.Agree s s' (displayOf v) (displayOf (w.value v)) :=
  .inspect (.pure both trivial (display_twin both.heaps built))

theorem getProperty_agree {target : Value} (built : w.Built s.toHeap target) (key : String) :
    w.Agree s s' (getProperty target key) (getProperty (w.value target) key) := by
  refine .inspect ?_
  rw [isNullish_value, display_twin both.heaps built]
  split
  · exact .throw both _
  · have property := property_twin both.heaps built key
    exact .pure both property.1 property.2

omit both in
theorem atoms_charValues (t : String) : ∀ v ∈ charValues t, v.IsAtom := by
  intro v inside
  obtain ⟨c, -, rfl⟩ := List.mem_map.1 inside
  trivial

theorem elementsOf_agree {v : Value} (built : w.Built s.toHeap v) :
    w.Agree s s' (elementsOf v) (elementsOf (w.value v)) := by
  have m := both.heaps
  cases v with
  | array ref =>
    obtain ⟨made, same⟩ := m.array_of_built built
    refine .inspect (.pure both (fun x holds => made x (Array.mem_toList_iff.1 holds)) ?_)
    rw [twin_list, same, Array.toList_map]
    rfl
  | string t =>
    obtain ⟨made, same⟩ := twin_atoms (atoms_charValues t)
    exact .pure both made same
  | _ => exact .throw both _

theorem iterate_agree (kind : IterKind) {source : Value} (built : w.Built s.toHeap source) :
    w.Agree s s' (iterate kind source) (iterate kind (w.value source)) := by
  have m := both.heaps
  have texts {vs : List Value} (atoms : ∀ v ∈ vs, v.IsAtom) : w.Agree s s' (pure vs : Eval (List Value)) (pure vs) := by
    obtain ⟨made, same⟩ := twin_atoms atoms
    exact .pure both made same
  refine .inspect ?_
  cases kind with
  | of =>
    cases source with
    | array ref =>
      obtain ⟨made, same⟩ := m.array_of_built built
      refine .pure both (fun x holds => made x (Array.mem_toList_iff.1 holds)) ?_
      rw [twin_list, same, Array.toList_map]
      rfl
    | string t => exact texts (atoms_charValues t)
    | _ => exact .throw both _
  | in_ =>
    cases source with
    | array ref =>
      simp only [value, (m.array_of_built built).2, Array.size_map]
      exact texts (by simp [Value.IsAtom])
    | string t => exact texts (by simp [Value.IsAtom])
    | object ref =>
      simp only [value, (m.object_of_built built).2, names_twin]
      exact texts (by simp [Value.IsAtom])
    | _ => exact texts (List.forall_mem_nil _)

end Eval

/-! ### Globals -/

theorem builtinFields_agree : ∀ (bs : List Builtin) {s s' : State}, w.Abreast s s' →
    w.Agree s s' (onHeap (·.builtinFields bs)) (onHeap (·.builtinFields bs))
  | [], _, _, both => .pure both nofun rfl
  | b :: rest, s, s', both => by
    have steps : onHeap (·.builtinFields (b :: rest)) = do
        let f ← onHeap (·.builtin b)
        let fields ← onHeap (·.builtinFields rest)
        return (b.name, f) :: fields := rfl
    rw [steps]
    refine .bind (newFunction_agree both (.builtin b)) fun f _ _ both _ built => ?_
    refine .bind (builtinFields_agree rest both) fun fields _ _ both grows made => ?_
    exact .pure both (List.forall_mem_cons.2 ⟨grows.built built, made⟩) rfl

theorem declareModule_agree {s s' : State} (both : w.Abreast s s') {env : Env} (scope : Made w s.toHeap env)
    (name : String) {fields : Record Value} (made : Made w s.toHeap fields) (bs : List Builtin) :
    w.Agree s s' (modifyHeap (·.declareModule env name fields bs))
      (modifyHeap (·.declareModule (w.env env) name (twin w fields) bs)) := by
  have steps (env : Env) (fields : Record Value) : modifyHeap (·.declareModule env name fields bs) = (do
      let more ← onHeap (·.builtinFields bs)
      let object ← newObject (fields ++ more)
      declareVar env name object false) := rfl
  rw [steps, steps]
  refine .bind (builtinFields_agree bs both) fun more _ _ both grows made' => ?_
  have scope := grows.scope scope
  have all : Made w _ (fields ++ more) := List.forall_mem_append.2 ⟨Twinned.grows grows made, made'⟩
  have moved : twin w fields ++ twin w more = twin w (fields ++ more) := by simp
  rw [moved]
  refine .bind (newObject_agree both all) fun object _ _ both grows built => ?_
  exact declareVar_agree both (grows.scope scope) name built false

theorem freshGlobals_agree {s s' : State} (both : w.Abreast s s') : w.Agree s s' freshGlobals freshGlobals := by
  have steps : freshGlobals = do
      let env ← newScope []
      modifyHeap (·.declareModule env "Math" [("PI", .number pi)]
        [.floor, .ceil, .round, .abs, .sqrt, .pow, .max, .min])
      modifyHeap (·.declareModule env "Object" [] [.keys, .values, .entries])
      modifyHeap (·.declareModule env "Array" [] [.isArray])
      [Builtin.string, .number, .date, .error].forM fun b => do
        declareVar env b.name (← onHeap (·.builtin b)) false
      return env := rfl
  rw [steps]
  have noScope : Made w s.toHeap ([] : Env) := nofun
  have noFields {h : Heap} : Made w h ([] : Record Value) := nofun
  refine .bind (newScope_agree both noScope) fun env _ _ both _ scope => ?_
  refine .bind (declareModule_agree both scope "Math" ?_ _) fun _ _ _ both grows _ => ?_
  · exact List.forall_mem_singleton.2 (built_atom trivial)
  have scope := grows.scope scope
  refine .bind (declareModule_agree both scope "Object" noFields _) fun _ _ _ both grows _ => ?_
  have scope := grows.scope scope
  refine .bind (declareModule_agree both scope "Array" noFields _) fun _ _ _ both grows _ => ?_
  have scope := grows.scope scope
  refine .bind (α := Unit) (.forM _ both fun b _ _ _ both grows => ?_) fun _ _ _ both grows _ => ?_
  · have scope := grows.scope scope
    refine .bind (newFunction_agree both (.builtin b)) fun f _ _ both grows built => ?_
    exact declareVar_agree both (grows.scope scope) b.name built false
  · exact .pure both (grows.scope scope) rfl

mutual

/-- Binding the names of a pattern gives them twins as values. -/
theorem bindPattern_agree {env : Env} (mutable : Bool) : ∀ (p : Pattern) {s s' : State} (v : Value), w.Abreast s s' →
    Made w s.toHeap env → w.Built s.toHeap v →
    w.Agree s s' (bindPattern env (.declare mutable) p v) (bindPattern (w.env env) (.declare mutable) p (w.value v))
  | .name n, _, _, v, both, scope, built => by
    unfold bindPattern
    exact declareVar_agree both scope n built mutable
  | .array items, _, _, v, both, scope, built => by
    unfold bindPattern
    refine .bind (elementsOf_agree both built) fun vs _ _ both grows made => ?_
    exact bindItems_agree mutable items vs both (grows.scope scope) made
  | .object props, _, _, v, both, scope, built => by
    unfold bindPattern
    rw [isNullish_value]
    split
    · exact .bind (displayOf_agree both built) fun shown _ _ both _ _ => .throw both _
    · exact bindProps_agree mutable props v both scope built

theorem bindItems_agree {env : Env} (mutable : Bool) : ∀ (ps : List Pattern) {s s' : State} (vs : List Value),
    w.Abreast s s' → Made w s.toHeap env → Made w s.toHeap vs →
    w.Agree s s' (bindItems env (.declare mutable) ps vs)
      (bindItems (w.env env) (.declare mutable) ps (vs.map w.value))
  | [], _, _, _, both, _, _ => .pure both trivial rfl
  | p :: rest, _, _, vs, both, scope, made => by
    have moved : (vs.map w.value).head?.getD .undefined = w.value (vs.head?.getD .undefined) := by cases vs <;> rfl
    unfold bindItems
    rw [moved, ← List.map_tail]
    refine .bind (bindPattern_agree mutable p _ both scope ?_) fun _ _ _ both grows _ => ?_
    · cases vs with
      | nil => exact built_atom trivial
      | cons v vs => exact made v List.mem_cons_self
    refine bindItems_agree mutable rest vs.tail both (grows.scope scope) fun v inside => ?_
    exact grows.built (made v (List.mem_of_mem_tail inside))

theorem bindProps_agree {env : Env} (mutable : Bool) : ∀ (ps : List PatternProperty) {s s' : State} (v : Value),
    w.Abreast s s' → Made w s.toHeap env → w.Built s.toHeap v →
    w.Agree s s' (bindProps env (.declare mutable) ps v) (bindProps (w.env env) (.declare mutable) ps (w.value v))
  | [], _, _, _, both, _, _ => .pure both trivial rfl
  | ⟨key, p⟩ :: rest, _, _, v, both, scope, built => by
    unfold bindProps
    refine .bind (getProperty_agree both built key) fun part _ _ both grows made => ?_
    have scope := grows.scope scope
    have built := grows.built built
    refine .bind (bindPattern_agree mutable p part both scope made) fun _ _ _ both grows _ => ?_
    exact bindProps_agree mutable rest v both (grows.scope scope)
      (grows.built built)

end

/-! ### Expressions -/

/-- Quiet expressions inside are evaluated alike. -/
def Follows (w : Twin) (ev : Evaluator) : Prop :=
  ∀ (e : Expr) {s s' : State} {env : Env}, e.isQuiet = true → w.Abreast s s' → Made w s.toHeap env →
    w.Agree s s' (ev.expr env e) (ev.expr (w.env env) e)

section Rules

variable {ev : Evaluator} (inner : w.Follows ev) {s s' : State} {env : Env}
include inner

theorem evalKey_agree {k : Key} (quiet : k.isQuiet = true) (both : w.Abreast s s') (scope : Made w s.toHeap env) :
    w.Agree s s' (evalKey ev env k) (evalKey ev (w.env env) k) := by
  cases k with
  | named name => exact .pure both trivial rfl
  | computed e =>
    rw [Key.isQuiet] at quiet
    exact .bind (inner e quiet both scope) fun v _ _ both _ built => displayOf_agree both built

theorem evalArgs_agree : ∀ {args : List Expr} {s s' : State}, Expr.allQuiet args = true → w.Abreast s s' →
    Made w s.toHeap env → w.Agree s s' (evalArgs ev env args) (evalArgs ev (w.env env) args)
  | [], _, _, _, both, _ => .pure both nofun rfl
  | e :: rest, _, _, quiet, both, scope => by
    rw [Expr.allQuiet, Bool.and_eq_true] at quiet
    unfold evalArgs
    rw [List.mapM_cons, List.mapM_cons]
    refine .bind (inner e quiet.1 both scope) fun v _ _ both grows built => ?_
    refine .bind (evalArgs_agree quiet.2 both (grows.scope scope)) fun vs _ _ both grows made => ?_
    exact .pure both (List.forall_mem_cons.2 ⟨grows.built built, made⟩) rfl

theorem evalProps_agree : ∀ {props : List Property} {s s' : State} {fields : Record Value},
    Property.allQuiet props = true → w.Abreast s s' → Made w s.toHeap env → Made w s.toHeap fields →
    w.Agree s s' (evalProps ev env fields props) (evalProps ev (w.env env) (twin w fields) props)
  | [], _, _, _, _, both, _, made => .pure both made rfl
  | ⟨key, value⟩ :: rest, _, _, fields, quiet, both, scope, made => by
    simp only [Property.allQuiet, Bool.and_eq_true] at quiet
    unfold evalProps
    refine .bind (evalKey_agree inner quiet.1.1 both scope) fun k _ _ both grows _ => ?_
    have scope := grows.scope scope
    refine .bind (inner value quiet.1.2 both scope) fun v _ _ both later built => ?_
    have made := made_put (Twinned.grows (grows.trans later) made) k built
    exact put_twin fields k v ▸ evalProps_agree quiet.2 both (later.scope scope) made

theorem evalChain_agree (e : Expr) : ∀ {s s' : State}, e.isQuiet = true → w.Abreast s s' → Made w s.toHeap env →
    w.Agree s s' (evalChain ev env e) (evalChain ev (w.env env) e) := by
  induction e using evalChain.induct with
  | case1 span object key optional ih =>
    intro s s' quiet both scope
    rw [Expr.isQuiet, Bool.and_eq_true] at quiet
    rw [evalChain.eq_1, evalChain.eq_1]
    refine .bind (ih quiet.1 both scope) fun found _ _ both grows made => ?_
    have scope := grows.scope scope
    cases found with
    | none => exact .pure both nofun rfl
    | some target =>
      have built : w.Built _ target := made target rfl
      simp only [twin, Option.map_some, isNullish_value]
      split
      · exact .pure both nofun rfl
      · refine .bind (evalKey_agree inner quiet.2 both scope) fun k _ _ both grows _ => ?_
        refine .bind (getProperty_agree both (grows.built built) k) fun v _ _ both _ built => ?_
        refine .pure both ?_ rfl
        rintro _ ⟨⟩
        exact built
  | case2 | case3 =>
    intro s s' quiet
    cases quiet
  | case4 e noMember noMethod noCall =>
    intro s s' quiet both scope
    rw [evalChain.eq_4 _ _ _ noMember noMethod noCall, evalChain.eq_4 _ _ _ noMember noMethod noCall]
    refine .bind (inner e quiet both scope) fun v _ _ both _ built => .pure both ?_ rfl
    rintro _ ⟨⟩
    exact built

theorem evalUnary_agree (op : UnaryOp) {operand : Expr} (quiet : operand.isQuiet = true) (both : w.Abreast s s')
    (scope : Made w s.toHeap env) :
    w.Agree s s' (evalUnary ev env op operand) (evalUnary ev (w.env env) op operand) := by
  have known : ∀ undeclared : Bool, w.Agree s s' (do
      if undeclared then return .string "undefined"
      else
        let v ← ev.expr env operand
        return unaryOp (← getHeap) op v) (do
      if undeclared then return .string "undefined"
      else
        let v ← ev.expr (w.env env) operand
        return unaryOp (← getHeap) op v) := by
    intro undeclared
    split
    · exact .pure both (built_atom trivial) rfl
    · refine .bind (inner operand quiet both scope) fun v _ _ both _ built => ?_
      exact .inspect (.pure both (built_unaryOp op v) (unaryOp_twin both.heaps op built))
  unfold evalUnary
  split
  · rename_i span name
    refine .inspect ?_
    rw [(both.heaps.lookup?_twin name scope).2, Option.isNone_map]
    exact known _
  · exact known false

theorem evalBinary_agree (op : BinaryOp) {left right : Expr} (quiet : left.isQuiet = true)
    (quiet' : right.isQuiet = true) (both : w.Abreast s s') (scope : Made w s.toHeap env) :
    w.Agree s s' (evalBinary ev env op left right) (evalBinary ev (w.env env) op left right) := by
  refine .bind (inner left quiet both scope) fun a _ _ both grows builtA => ?_
  have scope := grows.scope scope
  have settled : BinaryOp.settledBy op (w.value a) = BinaryOp.settledBy op a := by
    cases op <;> simp [BinaryOp.settledBy]
  simp only [twin_value, settled]
  split
  · exact .pure both builtA rfl
  · refine .bind (inner right quiet' both scope) fun b _ _ both grows builtB => ?_
    have builtA := grows.built builtA
    split
    · exact .pure both builtB rfl
    · refine .inspect (.pure both (built_binaryOp op builtA builtB) ?_)
      exact binaryOp_twin both.heaps op builtA builtB

/-- One level of evaluation. -/
theorem evalRule_agree {e : Expr} (quiet : e.isQuiet = true) (both : w.Abreast s s') (scope : Made w s.toHeap env) :
    w.Agree s s' (evalRule ev env e) (evalRule ev (w.env env) e) := by
  cases e with
  | literal span value =>
    have atom : (literalValue value).IsAtom := by cases value <;> trivial
    exact .pure both (built_atom atom) (value_atom atom).symm
  | ident span name => exact getVar_agree both scope name
  | array span items =>
    rw [Expr.isQuiet] at quiet
    exact .bind (evalArgs_agree inner quiet both scope) fun vs _ _ both _ made => newArray_agree both made
  | object span props =>
    rw [Expr.isQuiet] at quiet
    have noFields : Made w s.toHeap ([] : Record Value) := nofun
    refine .bind (evalProps_agree inner quiet both scope noFields) fun fields _ _ both _ made => ?_
    exact newObject_agree both made
  | function span func => exact newFunction_agree both (.closure func env)
  | unary span op operand =>
    rw [Expr.isQuiet] at quiet
    exact evalUnary_agree inner op quiet both scope
  | binary span op left right =>
    rw [Expr.isQuiet, Bool.and_eq_true] at quiet
    exact evalBinary_agree inner op quiet.1 quiet.2 both scope
  | cond span test yes no =>
    simp only [Expr.isQuiet, Bool.and_eq_true] at quiet
    refine .bind (inner test quiet.1.1 both scope) fun v _ _ both grows _ => ?_
    simp only [twin_value, truthy_value]
    split
    · exact inner yes quiet.1.2 both (grows.scope scope)
    · exact inner no quiet.2 both (grows.scope scope)
  | member span object key optional =>
    refine .bind (evalChain_agree inner _ quiet both scope) fun found _ _ both _ made => ?_
    cases found with
    | none => exact .pure both (built_atom trivial) rfl
    | some v => exact .pure both (made v rfl) rfl
  | update | assign | call | new => cases quiet

end Rules

/-- **Quiet expressions have twins as their values, and the heaps stay abreast.** -/
theorem evaluator_abreast (host : Host) (fuel : Nat) : w.Follows (evaluator host fuel) := by
  induction fuel with
  | zero => exact fun e _ _ _ _ both _ => .throw both _
  | succ fuel ih => exact fun e _ _ _ quiet both scope => evalRule_agree ih quiet both scope

end Twin

end Staging.Script
