import Staging.Script.Builtin

/-!
Laws of scopes and of the heap they live in.

A heap extends another when it has the arrays and objects of the other under the same references. Work on
scopes extends the heap. Declaring a name changes what that name stands for and nothing else.
-/

namespace Staging.Script.Heap

/-! ### Heaps that extend others -/

/-- The arrays and objects of one heap are there in the other, under the same references. -/
structure Extends (h h' : Heap) : Prop where
  arrays : h.arrays.toList <+: h'.arrays.toList
  objects : h.objects.toList <+: h'.objects.toList

theorem Extends.trans {h h' h'' : Heap} (a : h.Extends h') (b : h'.Extends h'') : h.Extends h'' :=
  ⟨a.arrays.trans b.arrays, a.objects.trans b.objects⟩

theorem Extends.of_eq {h h' : Heap} (arrays : h.arrays = h'.arrays) (objects : h.objects = h'.objects) :
    h.Extends h' :=
  ⟨arrays ▸ List.prefix_rfl, objects ▸ List.prefix_rfl⟩

theorem extends_child (h : Heap) (env : Env) : h.Extends (h.child env).2 := .of_eq rfl rfl

theorem extends_declare (h : Heap) (env : Env) (name : String) (v : Value) (mutable : Bool) :
    h.Extends (h.declare env name v mutable) := by
  cases env <;> exact .of_eq rfl rfl

theorem extends_newObject (h : Heap) (fields : Record Value) : h.Extends (h.newObject fields).2 :=
  ⟨List.prefix_rfl, by simp [newObject]⟩

theorem extends_builtin (h : Heap) (b : Builtin) : h.Extends (h.builtin b).2 := .of_eq rfl rfl

theorem extends_builtinFields (h : Heap) (bs : List Builtin) : h.Extends (h.builtinFields bs).2 := by
  induction bs generalizing h with
  | nil => exact .of_eq rfl rfl
  | cons b rest ih => exact (h.extends_builtin b).trans (ih (h.builtin b).2)

theorem extends_declareModule (h : Heap) (env : Env) (name : String) (fields : Record Value)
    (bs : List Builtin) : h.Extends (h.declareModule env name fields bs) :=
  (h.extends_builtinFields bs).trans ((extends_newObject _ _).trans (extends_declare ..))

theorem extends_globals (h : Heap) : h.Extends h.globals.2 := by
  have functions : ∀ (bs : List Builtin) (env : Env) (h : Heap), h.Extends
      (bs.foldl (fun h b => (h.builtin b).2.declare env b.name (h.builtin b).1 false) h) := by
    intro bs env
    induction bs with
    | nil => exact fun h => .of_eq rfl rfl
    | cons b rest ih =>
      exact fun h => (h.extends_builtin b).trans ((extends_declare ..).trans (ih _))
  have root : h.Extends h.rootScope.2 := .of_eq rfl rfl
  exact root.trans ((extends_declareModule ..).trans
    ((extends_declareModule ..).trans ((extends_declareModule ..).trans (functions ..))))

/-! ### The number of scopes -/

@[simp] theorem size_declare (h : Heap) (env : Env) (name : String) (v : Value) (mutable : Bool) :
    (h.declare env name v mutable).frames.size = h.frames.size := by
  cases env <;> simp [declare]

@[simp] theorem size_builtinFields (h : Heap) (bs : List Builtin) :
    (h.builtinFields bs).2.frames.size = h.frames.size := by
  induction bs generalizing h with
  | nil => rfl
  | cons b rest ih => exact ih (h.builtin b).2

@[simp] theorem size_declareModule (h : Heap) (env : Env) (name : String) (fields : Record Value)
    (bs : List Builtin) : (h.declareModule env name fields bs).frames.size = h.frames.size := by
  simp [declareModule, newObject]

@[simp] theorem size_globals (h : Heap) : h.globals.2.frames.size = h.frames.size + 1 := by
  simp [globals, rootScope, builtin, newFunction]

/-! ### Looking names up -/

section Lookup

variable {h : Heap} {index : Nat} {outer : Env} {name : String} {v : Value} {mutable : Bool}

theorem frame_size (h : Heap) : h.frame h.frames.size = [] := by simp [frame]

/-- A new scope declares nothing, and the others are as they were. -/
theorem frame_child (h : Heap) (env : Env) (i : Nat) : (h.child env).2.frame i = h.frame i := by
  by_cases last : i = h.frames.size <;> simp [frame, child, Array.getElem?_push, last]

theorem frame_declare (hi : index < h.frames.size) :
    (h.declare (index :: outer) name v mutable).frame index = (h.frame index).put name ⟨v, mutable⟩ := by
  simp [declare, frame, Array.getElem_modify_self, hi]

theorem frame_declare_of_ne {other : Nat} (ho : other ≠ index) :
    (h.declare (index :: outer) name v mutable).frame other = h.frame other := by
  simp [declare, frame, Array.getElem?_modify, ho.symm]

/-- A name stands for what it was last declared as. -/
theorem lookup?_declare_self (hi : index < h.frames.size) :
    (h.declare (index :: outer) name v mutable).lookup? (index :: outer) name = some v := by
  simp [lookup?, resolve?, frame_declare hi]

/-- Declaring another name in an innermost scope that is no outer one changes nothing. -/
theorem lookup?_declare_of_ne (hi : index < h.frames.size) (ho : index ∉ outer) {other : String}
    (hn : other ≠ name) :
    (h.declare (index :: outer) name v mutable).lookup? (index :: outer) other
      = h.lookup? (index :: outer) other := by
  have below : ∀ env : Env, index ∉ env →
      (h.declare (index :: outer) name v mutable).resolve? env other = h.resolve? env other := by
    intro env he
    induction env with
    | nil => rfl
    | cons i rest ih =>
      have hi : i ≠ index := fun e => he (by simp [e])
      simp only [resolve?, frame_declare_of_ne hi, ih fun e => he (by simp [e])]
  simp only [lookup?, resolve?, frame_declare hi, Record.get?_put_of_ne _ _ hn, below outer ho]

end Lookup

end Staging.Script.Heap

namespace Staging.Script

/-- An assignment writes to its target, and it fails where there is none. -/
theorem setVar_eq (env : Env) (name : String) (v : Value) (s : State) :
    setVar env name v s = match s.toHeap.target env name with
      | .ok i => .ok () { s.toHeap.write i name v with depth := s.depth }
      | .error e => .error (.error e) s := by
  show (match s.toHeap.target env name with
    | .ok i => modifyHeap (·.write i name v)
    | .error e => raise e : Eval Unit) s = _
  cases s.toHeap.target env name <;> rfl

end Staging.Script
