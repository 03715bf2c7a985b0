import Staging.Proofs.Script.Scope
import Staging.Proofs.Template.Grounded

/-!
Two runs side by side.

The same code runs twice: once from a heap, the base, and once from a heap that has more in it, which came after the
base. What the second run makes comes later in its heap than what the first run makes by just as much as there was more
at its start. So a value of the first run has a twin in the second (`Twin.value`): what was in the base is its own twin,
and what is new has a greater reference. Two heaps mirror each other (`Twin.Mirror`) when both have all of the base and
what is new in the first has its twin in the second. Operators, keys and texts do not tell a value from its twin.

Nothing that was there is changed: both heaps have the base as a part (`Heap.IsPartOf`).
-/

namespace Staging.Record

variable {α : Type} {r : Record α} {name : String}

theorem mem_of_get? {v : α} (found : get? r name = some v) : (name, v) ∈ r := by
  induction r with
  | nil => cases found
  | cons e rest ih =>
    obtain ⟨k, u⟩ := e
    by_cases here : k = name
    · rw [get?, if_pos here, Option.some.injEq] at found
      rw [here, found]
      exact List.mem_cons_self
    · rw [get?, if_neg here] at found
      exact List.mem_cons_of_mem _ (ih found)

theorem mem_of_mem_put {v : α} {e : String × α} (inside : e ∈ put r name v) : e ∈ r ∨ e = (name, v) := by
  induction r with
  | nil => exact .inr (List.mem_singleton.1 inside)
  | cons f rest ih =>
    obtain ⟨k, u⟩ := f
    by_cases here : k = name
    · rw [put, if_pos here, here] at inside
      rcases List.mem_cons.1 inside with rfl | later
      · exact .inr rfl
      · exact .inl (List.mem_cons_of_mem _ later)
    · rw [put, if_neg here] at inside
      rcases List.mem_cons.1 inside with rfl | later
      · exact .inl List.mem_cons_self
      · exact (ih later).imp_left (List.mem_cons_of_mem _)

end Staging.Record

namespace Staging.Script

/-! ### Heaps that grow -/

namespace Heap

/-- All that is in one heap is in the other, unchanged: its arrays, objects, functions and scopes. -/
structure IsPartOf (h t : Heap) : Prop extends h.Extends t where
  functions : h.functions.toList <+: t.functions.toList
  frames : h.frames.toList <+: t.frames.toList

/-- All values of one heap are the same in the other. The contents of scopes may differ. -/
structure Grows (h t : Heap) : Prop extends h.Extends t where
  functions : h.functions.toList <+: t.functions.toList
  frames : h.frames.size ≤ t.frames.size

variable {h t u : Heap}

theorem getElem?_of_initial {α : Type} {xs ys : Array α} (initial : xs.toList <+: ys.toList) {i : Nat}
    (inside : i < xs.size) : ys[i]? = xs[i]? := by
  rw [← Array.getElem?_toList, ← Array.getElem?_toList]
  obtain ⟨more, same⟩ := initial
  rw [← same, List.getElem?_append_left (by simpa using inside)]

theorem size_le_of_initial {α : Type} {xs ys : Array α} (initial : xs.toList <+: ys.toList) : xs.size ≤ ys.size := by
  simpa using initial.length_le

theorem Extends.array_eq (ext : h.Extends t) {ref : Nat} (inside : ref < h.arrays.size) :
    t.array ref = h.array ref := by
  rw [array, array, getElem?_of_initial ext.arrays inside]

theorem Extends.object_eq (ext : h.Extends t) {ref : Nat} (inside : ref < h.objects.size) :
    t.object ref = h.object ref := by
  rw [object, object, getElem?_of_initial ext.objects inside]

namespace IsPartOf

theorem refl (h : Heap) : h.IsPartOf h := ⟨.of_eq rfl rfl, List.prefix_rfl, List.prefix_rfl⟩

theorem trans (a : h.IsPartOf t) (b : t.IsPartOf u) : h.IsPartOf u :=
  ⟨a.toExtends.trans b.toExtends, a.functions.trans b.functions, a.frames.trans b.frames⟩

theorem grows (part : h.IsPartOf t) : h.Grows t :=
  ⟨part.toExtends, part.functions, size_le_of_initial part.frames⟩

theorem newArray (h : Heap) (items : Array Value) : h.IsPartOf (h.newArray items).2 :=
  ⟨⟨by simp [Heap.newArray], List.prefix_rfl⟩, List.prefix_rfl, List.prefix_rfl⟩

theorem newObject (h : Heap) (fields : Record Value) : h.IsPartOf (h.newObject fields).2 :=
  ⟨extends_newObject h fields, List.prefix_rfl, List.prefix_rfl⟩

theorem newFunction (h : Heap) (c : Callable) : h.IsPartOf (h.newFunction c).2 :=
  ⟨.of_eq rfl rfl, by simp [Heap.newFunction], List.prefix_rfl⟩

theorem child (h : Heap) (env : Env) : h.IsPartOf (h.child env).2 :=
  ⟨extends_child h env, List.prefix_rfl, by simp [Heap.child]⟩

/-- Declaring in a scope that came later concerns no scope that was there. -/
theorem declare (part : h.IsPartOf t) {index : Nat} (new : h.frames.size ≤ index) (outer : Env) (name : String)
    (v : Value) (mutable : Bool) : h.IsPartOf (t.declare (index :: outer) name v mutable) := by
  refine ⟨part.toExtends.trans (extends_declare ..), part.functions, ?_⟩
  rw [List.prefix_iff_getElem?]
  intro i inside
  have other : index ≠ i := by
    rw [Array.length_toList] at inside
    omega
  rw [Heap.declare, Array.getElem?_toList, Array.getElem?_modify, if_neg other, ← Array.getElem?_toList]
  exact List.prefix_iff_getElem?.1 part.frames i inside

end IsPartOf

namespace Grows

theorem refl (h : Heap) : h.Grows h := (IsPartOf.refl h).grows

theorem trans (a : h.Grows t) (b : t.Grows u) : h.Grows u :=
  ⟨a.toExtends.trans b.toExtends, a.functions.trans b.functions, a.frames.trans b.frames⟩

theorem declare (h : Heap) (env : Env) (name : String) (v : Value) (mutable : Bool) :
    h.Grows (h.declare env name v mutable) :=
  ⟨extends_declare h env name v mutable, by cases env <;> exact List.prefix_rfl, by simp⟩

theorem has (grows : h.Grows t) {v : Value} (there : h.Has v) : t.Has v := by
  cases v with
  | array ref => exact Nat.lt_of_lt_of_le there (size_le_of_initial grows.arrays)
  | object ref => exact Nat.lt_of_lt_of_le there (size_le_of_initial grows.objects)
  | function ref => exact Nat.lt_of_lt_of_le there (size_le_of_initial grows.functions)
  | _ => trivial

theorem contents_eq (grows : h.Grows t) {v : Value} (there : h.Has v) : t.contents v = h.contents v := by
  cases v with
  | array ref => rw [contents, grows.array_eq there, contents]
  | object ref => rw [contents, grows.object_eq there, contents]
  | _ => rfl

theorem grounded (grows : h.Grows t) {v : Value} (grounded : h.Grounded v) : t.Grounded v := by
  induction grounded with
  | intro there _ ih =>
    refine .intro (grows.has there) fun w holds => ih w ?_
    rwa [grows.contents_eq there] at holds

end Grows

end Heap

/-! ### Twins -/

/-- The value has no reference. -/
def Value.IsAtom : Value → Prop
  | array _ | object _ | function _ => False
  | _ => True

/-- The heap that two runs start from, and how much more the second one has at its start. -/
structure Twin where
  base : Heap
  arrays : Nat
  objects : Nat
  functions : Nat
  frames : Nat

/-- What was there keeps its reference, and what is new has a greater one. -/
def movedRef (size offset ref : Nat) : Nat := if ref < size then ref else ref + offset

theorem movedRef_of_lt {size offset ref : Nat} (old : ref < size) : movedRef size offset ref = ref := if_pos old

theorem movedRef_of_le {size offset ref : Nat} (new : size ≤ ref) : movedRef size offset ref = ref + offset :=
  if_neg (Nat.not_lt.2 new)

@[simp] theorem movedRef_inj {size offset a b : Nat} : movedRef size offset a = movedRef size offset b ↔ a = b := by
  unfold movedRef
  constructor
  · intro same
    split at same <;> split at same <;> omega
  · rintro rfl
    rfl

namespace Twin

variable (w : Twin)

def arrayRef (ref : Nat) : Nat := movedRef w.base.arrays.size w.arrays ref

def objectRef (ref : Nat) : Nat := movedRef w.base.objects.size w.objects ref

def functionRef (ref : Nat) : Nat := movedRef w.base.functions.size w.functions ref

/-- The twin of a value. -/
def value : Value → Value
  | .array ref => .array (w.arrayRef ref)
  | .object ref => .object (w.objectRef ref)
  | .function ref => .function (w.functionRef ref)
  | v => v

/-- The twin of the scopes of a run. All of them are new. -/
def env (env : Env) : Env := env.map (· + w.frames)

/-- The twin of a function that the run has made. -/
def callable : Callable → Callable
  | .closure func captured => .closure func (w.env captured)
  | c => c

/-- The value refers to what is not in the base. -/
def IsNew : Value → Prop
  | .array ref => w.base.arrays.size ≤ ref
  | .object ref => w.base.objects.size ≤ ref
  | .function ref => w.base.functions.size ≤ ref
  | _ => False

/--
A value of a run: grounded in the base, or built up from such values. What is old holds nothing new, so it is its own
twin with all that it holds.
-/
inductive Built (w : Twin) (h : Heap) : Value → Prop
  | old {v : Value} : w.base.Grounded v → Built w h v
  | new {v : Value} : w.IsNew v → h.Has v → (∀ x ∈ h.contents v, Built w h x) → Built w h v

end Twin

/-- What a run deals with: it has a twin in the other run, and it stays well made when the heap grows. -/
class Twinned (α : Type) where
  twin : Twin → α → α
  Made : Twin → Heap → α → Prop
  grows : ∀ {w : Twin} {h t : Heap} {a : α}, h.Grows t → Made w h a → Made w t a

namespace Twinned

instance : Twinned Value where
  twin := Twin.value
  Made := Twin.Built
  grows := by
    intro w h t v grows made
    induction made with
    | old grounded => exact .old grounded
    | new isNew there _ ih =>
      refine .new isNew (grows.has there) fun x holds => ih x ?_
      rwa [grows.contents_eq there] at holds

/-- The scopes that a run sees are its own. -/
instance : Twinned Env where
  twin := Twin.env
  Made w h env := ∀ i ∈ env, w.base.frames.size ≤ i ∧ i < h.frames.size
  grows grows made i inside := ⟨(made i inside).1, Nat.lt_of_lt_of_le (made i inside).2 grows.frames⟩

instance : Twinned Binding where
  twin w b := { b with value := w.value b.value }
  Made w h b := Twin.Built w h b.value
  grows := Twinned.grows (α := Value)

section

variable {α : Type} [Twinned α]

instance : Twinned (String × α) where
  twin w e := (e.1, twin w e.2)
  Made w h e := Made w h e.2
  grows grows made := Twinned.grows (α := α) grows made

instance : Twinned (List α) where
  twin w := List.map (twin w)
  Made w h as := ∀ a ∈ as, Made w h a
  grows grows made a inside := Twinned.grows grows (made a inside)

instance : Twinned (Array α) where
  twin w := Array.map (twin w)
  Made w h as := ∀ a ∈ as, Made w h a
  grows grows made a inside := Twinned.grows grows (made a inside)

instance : Twinned (Option α) where
  twin w := Option.map (twin w)
  Made w h a := ∀ b ∈ a, Made w h b
  grows grows made b inside := Twinned.grows grows (made b inside)

end

/-- What has nothing to do with the heap is its own twin. -/
@[reducible]
def plain (α : Type) : Twinned α where
  twin _ a := a
  Made _ _ _ := True
  grows _ _ := trivial

instance : Twinned Unit := plain Unit

instance : Twinned Bool := plain Bool

instance : Twinned String := plain String

end Twinned

open Twinned (twin Made)

namespace Heap.Grows

variable {w : Twin} {h t : Heap} (grows : h.Grows t)
include grows

theorem built {v : Value} (built : w.Built h v) : w.Built t v := Twinned.grows (α := Value) grows built

theorem scope {env : Env} (scope : Made w h env) : Made w t env := Twinned.grows (α := Env) grows scope

end Heap.Grows

@[simp] theorem twin_value (w : Twin) (v : Value) : twin w v = w.value v := rfl

@[simp] theorem twin_list {α : Type} [Twinned α] (w : Twin) (as : List α) : twin w as = as.map (twin w) := rfl

@[simp] theorem twin_array {α : Type} [Twinned α] (w : Twin) (as : Array α) : twin w as = as.map (twin w) := rfl

namespace Twin

variable {w : Twin} {h h' : Heap}

theorem value_of_has {v : Value} (there : w.base.Has v) : w.value v = v := by
  cases v with
  | array ref => rw [value, arrayRef, movedRef_of_lt there]
  | object ref => rw [value, objectRef, movedRef_of_lt there]
  | function ref => rw [value, functionRef, movedRef_of_lt there]
  | _ => rfl

theorem built_atom {v : Value} (atom : v.IsAtom) : w.Built h v := by
  cases v with
  | array ref | object ref | function ref => exact atom.elim
  | _ => exact .old (.intro trivial nofun)

theorem value_atom {v : Value} (atom : v.IsAtom) : w.value v = v := by
  cases v with
  | array ref | object ref | function ref => exact atom.elim
  | _ => rfl

/-- Values without references are their own twins. -/
theorem twin_atoms {vs : List Value} (atoms : ∀ v ∈ vs, v.IsAtom) : Made w h vs ∧ vs = twin w vs := by
  refine ⟨fun v inside => built_atom (atoms v inside), ?_⟩
  conv_lhs => rw [← List.map_id' vs]
  exact List.map_congr_left fun v inside => (value_atom (atoms v inside)).symm

/-! ### Records -/

section Records

variable {α : Type} [Twinned α]

theorem names_twin (r : Record α) : (twin w r).names = r.names := by
  rw [Record.names, twin_list, List.map_map]
  rfl

theorem get?_twin (r : Record α) (name : String) : Record.get? (twin w r) name = (Record.get? r name).map (twin w) := by
  induction r with
  | nil => rfl
  | cons e rest ih =>
    obtain ⟨k, v⟩ := e
    by_cases here : k = name
    · simp [Record.get?, twin, here]
    · simpa [Record.get?, twin, here] using ih

theorem put_twin (r : Record α) (name : String) (v : α) :
    Record.put (twin w r) name (twin w v) = twin w (Record.put r name v) := by
  induction r with
  | nil => rfl
  | cons e rest ih =>
    obtain ⟨k, v⟩ := e
    by_cases here : k = name
    · simp [Record.put, twin, here]
    · simpa [Record.put, twin, here] using ih

theorem made_get? {r : Record α} (made : Made w h r) {name : String} {v : α}
    (found : Record.get? r name = some v) : Made w h v :=
  made (name, v) (Record.mem_of_get? found)

theorem made_put {r : Record α} (made : Made w h r) (name : String) {v : α} (new : Made w h v) :
    Made w h (Record.put r name v) := by
  intro e inside
  rcases Record.mem_of_mem_put inside with there | rfl
  · exact made e there
  · exact new

end Records

/-! ### Heaps that mirror each other -/

/-- Both heaps have all of the base, and what is new in the first has its twin in the second. -/
structure Mirror (w : Twin) (h h' : Heap) : Prop where
  part : w.base.IsPartOf h
  part' : w.base.IsPartOf h'
  arrays : h'.arrays.size = h.arrays.size + w.arrays
  objects : h'.objects.size = h.objects.size + w.objects
  functions : h'.functions.size = h.functions.size + w.functions
  frames : h'.frames.size = h.frames.size + w.frames
  array : ∀ ref, w.base.arrays.size ≤ ref → Made w h (h.array ref) ∧ h'.array (ref + w.arrays) = twin w (h.array ref)
  object : ∀ ref, w.base.objects.size ≤ ref →
    Made w h (h.object ref) ∧ h'.object (ref + w.objects) = twin w (h.object ref)
  function : ∀ ref, w.base.functions.size ≤ ref →
    h'.function? (ref + w.functions) = (h.function? ref).map w.callable
  frame : ∀ i, w.base.frames.size ≤ i → Made w h (h.frame i) ∧ h'.frame (i + w.frames) = twin w (h.frame i)

/-- The twin of a run that starts from a heap that has the base as a part. -/
def between (h t : Heap) : Twin where
  base := h
  arrays := t.arrays.size - h.arrays.size
  objects := t.objects.size - h.objects.size
  functions := t.functions.size - h.functions.size
  frames := t.frames.size - h.frames.size

theorem getElem?_beyond {α : Type} {xs ys : Array α} (initial : xs.toList <+: ys.toList) {i : Nat} (new : xs.size ≤ i) :
    ys[i + (ys.size - xs.size)]? = none := by
  have size := Heap.size_le_of_initial initial
  rw [Array.getElem?_eq_none_iff]
  omega

theorem mirror_between {t : Heap} (part : h.IsPartOf t) : (between h t).Mirror h t where
  part := .refl h
  part' := part
  arrays := (Nat.add_sub_cancel' (Heap.size_le_of_initial part.arrays)).symm
  objects := (Nat.add_sub_cancel' (Heap.size_le_of_initial part.objects)).symm
  functions := (Nat.add_sub_cancel' (Heap.size_le_of_initial part.functions)).symm
  frames := (Nat.add_sub_cancel' (Heap.size_le_of_initial part.frames)).symm
  array ref new := by
    simp only [between] at new ⊢
    simp [Heap.array, new, getElem?_beyond part.arrays new, Made, twin]
  object ref new := by
    simp only [between] at new ⊢
    simp [Heap.object, new, getElem?_beyond part.objects new, Made, twin]
  function ref new := by
    simp only [between] at new ⊢
    simp [Heap.function?, new, getElem?_beyond part.functions new]
  frame i new := by
    simp only [between] at new ⊢
    simp [Heap.frame, new, getElem?_beyond part.frames new, Made, twin]

/-! ### Contents of twins -/

section Contents

/-- Everything in a heap that grew from the base and is built up in the run is grounded there. -/
theorem Built.grounded (part : w.base.IsPartOf h) {v : Value} (built : w.Built h v) : h.Grounded v := by
  induction built with
  | old grounded => exact part.grows.grounded grounded
  | new _ there _ ih => exact .intro there ih

variable (m : w.Mirror h h')
include m

theorem Mirror.array_of_built {ref : Nat} (built : w.Built h (.array ref)) :
    Made w h (h.array ref) ∧ h'.array (w.arrayRef ref) = (h.array ref).map w.value := by
  cases built with
  | old grounded =>
    have there : ref < w.base.arrays.size := grounded.has
    have inner : ∀ x ∈ w.base.array ref, w.base.Grounded x := fun x holds =>
      grounded.of_holds (Array.mem_toList_iff.2 holds)
    rw [arrayRef, movedRef_of_lt there, m.part.array_eq there, m.part'.array_eq there]
    refine ⟨fun x holds => .old (inner x holds), ?_⟩
    conv_lhs => rw [← Array.map_id' (w.base.array ref)]
    exact Array.map_congr_left fun x holds => (value_of_has (inner x holds).has).symm
  | new isNew _ _ =>
    rw [arrayRef, movedRef_of_le isNew]
    exact m.array ref isNew

theorem Mirror.object_of_built {ref : Nat} (built : w.Built h (.object ref)) :
    Made w h (h.object ref) ∧ h'.object (w.objectRef ref) = twin w (h.object ref) := by
  cases built with
  | old grounded =>
    have there : ref < w.base.objects.size := grounded.has
    have inner : ∀ e ∈ w.base.object ref, w.base.Grounded e.2 := fun e inside =>
      grounded.of_holds (List.mem_map_of_mem inside)
    rw [objectRef, movedRef_of_lt there, m.part.object_eq there, m.part'.object_eq there]
    refine ⟨fun e inside => .old (inner e inside), ?_⟩
    conv_lhs => rw [← List.map_id' (w.base.object ref)]
    exact List.map_congr_left fun e inside => Prod.ext rfl (value_of_has (inner e inside).has).symm
  | new isNew _ _ =>
    rw [objectRef, movedRef_of_le isNew]
    exact m.object ref isNew

theorem Mirror.function_of_built {ref : Nat} (built : w.Built h (.function ref)) :
    ∃ c c', h.function? ref = some c ∧ h'.function? (w.functionRef ref) = some c' ∧
      c'.text = c.text ∧ c'.name = c.name := by
  cases built with
  | old grounded =>
    have there : ref < w.base.functions.size := grounded.has
    rw [functionRef, movedRef_of_lt there, Heap.function?, Heap.function?,
      Heap.getElem?_of_initial m.part.functions there, Heap.getElem?_of_initial m.part'.functions there,
      Array.getElem?_eq_getElem there]
    exact ⟨_, _, rfl, rfl, rfl, rfl⟩
  | new isNew there _ =>
    have found : h.function? ref = some h.functions[ref] := Array.getElem?_eq_getElem there
    rw [functionRef, movedRef_of_le isNew, m.function ref isNew, found]
    refine ⟨_, _, rfl, rfl, ?_⟩
    cases h.functions[ref] <;> exact ⟨rfl, rfl⟩

end Contents

/-! ### What does not tell a value from its twin -/

@[simp] theorem value_bool (b : Bool) : w.value (.bool b) = .bool b := rfl

@[simp] theorem value_number (x : Float) : w.value (.number x) = .number x := rfl

@[simp] theorem value_string (s : String) : w.value (.string s) = .string s := rfl

@[simp] theorem isNullish_value (v : Value) : (w.value v).isNullish = v.isNullish := by cases v <;> rfl

@[simp] theorem truthy_value (v : Value) : (w.value v).truthy = v.truthy := by cases v <;> rfl

@[simp] theorem typeName_value (v : Value) : (w.value v).typeName = v.typeName := by cases v <;> rfl

@[simp] theorem isTextual_value (v : Value) : (w.value v).isTextual = v.isTextual := by cases v <;> rfl

@[simp] theorem strictEquals_value (a b : Value) : (w.value a).strictEquals (w.value b) = a.strictEquals b := by
  cases a <;> cases b <;> simp [value, Value.strictEquals, arrayRef, objectRef, functionRef]

section Coerce

variable (m : w.Mirror h h')
include m

theorem displayTo_function {ref : Nat} (built : w.Built h (.function ref)) (n : Nat) :
    h'.displayTo n (w.value (.function ref)) = h.displayTo n (.function ref) := by
  obtain ⟨c, c', found, found', text, -⟩ := m.function_of_built built
  rw [value, Heap.displayTo_of_function found, Heap.displayTo_of_function found']
  exact text

theorem displayTo_twin (n : Nat) : ∀ {v : Value}, w.Built h v → h'.displayTo n (w.value v) = h.displayTo n v := by
  induction n with
  | zero =>
    intro v built
    cases v with
    | function ref => exact displayTo_function m built 0
    | _ => rfl
  | succ n ih =>
    intro v built
    cases v with
    | function ref => exact displayTo_function m built (n + 1)
    | array ref =>
      obtain ⟨made, same⟩ := m.array_of_built built
      rw [value, Heap.displayTo_array, Heap.displayTo_array, same, Array.toList_map, List.map_map]
      congr 1
      refine List.map_congr_left fun x holds => ?_
      rw [Function.comp_apply, isNullish_value, ih (made x (Array.mem_toList_iff.1 holds))]
    | _ => rfl

theorem display_twin {v : Value} (built : w.Built h v) : h'.display (w.value v) = h.display v := by
  -- the second heap allows for more arrays, and the first one for enough
  rw [Heap.display, displayTo_twin m _ built]
  apply Heap.display_eq (built.grounded m.part)
  rw [m.arrays]
  omega

theorem toNumber_twin {v : Value} (built : w.Built h v) : h'.toNumber (w.value v) = h.toNumber v := by
  cases v with
  | array ref =>
    obtain ⟨made, same⟩ := m.array_of_built built
    simp only [value, Heap.toNumber, same, Array.toList_map]
    match items : (h.array ref).toList with
    | [] => rfl
    | [x] =>
      have inside : x ∈ h.array ref := by
        rw [← Array.mem_toList_iff, items]
        exact List.mem_singleton_self x
      simp only [List.map_cons, List.map_nil, display_twin m (made x inside)]
    | _ :: _ :: _ => rfl
  | _ => rfl

theorem looseEquals_twin {a b : Value} (ha : w.Built h a) (hb : w.Built h b) :
    h'.looseEquals (w.value a) (w.value b) = h.looseEquals a b := by
  have left := toNumber_twin m ha
  have right := toNumber_twin m hb
  simp only [Heap.looseEquals, isNullish_value, strictEquals_value, left, right]
  cases a <;> cases b <;> rfl

theorem order?_twin {a b : Value} (ha : w.Built h a) (hb : w.Built h b) :
    h'.order? (w.value a) (w.value b) = h.order? a b := by
  have left := toNumber_twin m ha
  have right := toNumber_twin m hb
  unfold Heap.order?
  rw [left, right]
  cases a <;> cases b <;> rfl

theorem unaryOp_twin (op : UnaryOp) {v : Value} (built : w.Built h v) :
    unaryOp h' op (w.value v) = w.value (unaryOp h op v) := by
  cases op <;> simp [unaryOp, toNumber_twin m built]

theorem binaryOp_twin (op : BinaryOp) {a b : Value} (ha : w.Built h a) (hb : w.Built h b) :
    binaryOp h' op (w.value a) (w.value b) = w.value (binaryOp h op a b) := by
  have left := toNumber_twin m ha
  have right := toNumber_twin m hb
  cases op with
  | add => simp [binaryOp, left, right, display_twin m ha, display_twin m hb, apply_ite w.value]
  | eq | notEq => simp [binaryOp, looseEquals_twin m ha hb]
  | strictEq | strictNotEq => simp [binaryOp]
  | lt | gt | le | ge => simp [binaryOp, order?_twin m ha hb]
  | and | or | nullish => simp [binaryOp, apply_ite w.value]
  | _ => simp [binaryOp, left, right]

end Coerce

theorem built_unaryOp (op : UnaryOp) (v : Value) : w.Built h (unaryOp h op v) := by
  cases op <;> exact built_atom trivial

theorem built_binaryOp (op : BinaryOp) {a b : Value} (ha : w.Built h a) (hb : w.Built h b) :
    w.Built h (binaryOp h op a b) := by
  cases op with
  | add | and | or | nullish =>
    simp only [binaryOp]
    split <;> first | exact ha | exact hb | exact built_atom trivial
  | _ => exact built_atom trivial

theorem property_twin (m : w.Mirror h h') {target : Value} (built : w.Built h target) (key : String) :
    w.Built h (h.property target key) ∧ h'.property (w.value target) key = w.value (h.property target key) := by
  cases target with
  | array ref =>
    obtain ⟨made, same⟩ := m.array_of_built built
    simp only [value, Heap.property, same, Array.size_map]
    split
    · exact ⟨built_atom trivial, rfl⟩
    · cases indexOfKey? key with
      | none => exact ⟨built_atom trivial, rfl⟩
      | some i =>
        simp only [Option.bind_some, Array.getElem?_map]
        cases found : (h.array ref)[i]? with
        | none => exact ⟨built_atom trivial, rfl⟩
        | some x => exact ⟨made x (Array.mem_of_getElem? found), rfl⟩
  | object ref =>
    obtain ⟨made, same⟩ := m.object_of_built built
    simp only [value, Heap.property, same, get?_twin]
    cases found : (h.object ref).get? key with
    | none => exact ⟨built_atom trivial, rfl⟩
    | some x => exact ⟨made_get? made found, rfl⟩
  | function ref =>
    obtain ⟨c, c', found, found', -, name⟩ := m.function_of_built built
    simp only [value, Heap.property, found, found', Option.map_some, name]
    split <;> exact ⟨built_atom trivial, rfl⟩
  | string s =>
    simp only [value, Heap.property]
    split
    · exact ⟨built_atom trivial, rfl⟩
    · cases (indexOfKey? key).bind (s.toList[·]?) <;> exact ⟨built_atom trivial, rfl⟩
  | _ => exact ⟨built_atom trivial, rfl⟩

end Twin

end Staging.Script
