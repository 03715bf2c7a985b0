import Mathlib.Data.List.Range
import Mathlib.Data.List.Perm.Subperm
import Mathlib.Logic.Relation
import Staging.Proofs.Script.Scope

/-!
Contents of values.

A value holds what is in its array or under the names of its object, and through these all that they hold.
`Datum` is a value together with all of its contents, taken out of the heap as a tree; `Heap.Unfolds` says which
datum a value is in a heap. The tree exists when no value it is made from holds itself:

* `Heap.IsData.unfolds`: a value without cycles, dates and raw code unfolds to a datum, which is nested no deeper
  than there are containers in the heap.
* `Heap.same_of_unfolds`: values whose data are the same are equal in the sense of the script language.
-/

namespace Staging.Script

open Relation

/-- A value with all its contents. -/
inductive Datum where
  | undefined
  | null
  | bool (b : Bool)
  | number (x : Float)
  | string (s : String)
  | function (ref : Nat)
  | array (items : List Datum)
  | object (fields : List (String × Datum))

namespace Datum

/-- Induction on data: a container is reached after all that it contains. -/
@[elab_as_elim, induction_eliminator]
theorem induction {motive : Datum → Prop} (undefined : motive .undefined) (null : motive .null)
    (bool : ∀ b, motive (.bool b)) (number : ∀ x, motive (.number x)) (string : ∀ s, motive (.string s))
    (function : ∀ ref, motive (.function ref))
    (array : ∀ items, (∀ d ∈ items, motive d) → motive (.array items))
    (object : ∀ fields, (∀ f ∈ fields, motive f.2) → motive (.object fields)) : ∀ d, motive d
  | .undefined => undefined
  | .null => null
  | .bool b => bool b
  | .number x => number x
  | .string s => string s
  | .function ref => function ref
  | .array items => array items fun d _ =>
    induction undefined null bool number string function array object d
  | .object fields => object fields fun f _ =>
    induction undefined null bool number string function array object f.2
termination_by d => sizeOf d
decreasing_by
  · have := List.sizeOf_lt_of_mem ‹d ∈ items›
    simp only [Datum.array.sizeOf_spec]
    omega
  · have := List.sizeOf_lt_of_mem ‹f ∈ fields›
    obtain ⟨k, d⟩ := f
    simp only [Prod.mk.sizeOf_spec, Datum.object.sizeOf_spec] at *
    omega

/-! ### Depth -/

mutual

/-- How deep containers are nested. -/
def depth : Datum → Nat
  | array items => depthOfItems items + 1
  | object fields => depthOfFields fields + 1
  | undefined | null | bool _ | number _ | string _ | function _ => 0

def depthOfItems : List Datum → Nat
  | [] => 0
  | d :: rest => max d.depth (depthOfItems rest)

def depthOfFields : List (String × Datum) → Nat
  | [] => 0
  | (_, d) :: rest => max d.depth (depthOfFields rest)

end

theorem depthOfItems_le {n : Nat} (ds : List Datum) : depthOfItems ds ≤ n ↔ ∀ d ∈ ds, d.depth ≤ n := by
  induction ds with
  | nil => simp [depthOfItems]
  | cons d rest ih => rw [depthOfItems, Nat.max_le, ih, List.forall_mem_cons]

theorem depthOfFields_le {n : Nat} (fs : List (String × Datum)) :
    depthOfFields fs ≤ n ↔ ∀ f ∈ fs, f.2.depth ≤ n := by
  induction fs with
  | nil => simp [depthOfFields]
  | cons f rest ih =>
    obtain ⟨k, d⟩ := f
    rw [depthOfFields, Nat.max_le, ih, List.forall_mem_cons]

theorem depth_array_le {n : Nat} (ds : List Datum) : (array ds).depth ≤ n + 1 ↔ ∀ d ∈ ds, d.depth ≤ n := by
  simp [depth, depthOfItems_le]

theorem depth_object_le {n : Nat} (fs : List (String × Datum)) :
    (object fs).depth ≤ n + 1 ↔ ∀ f ∈ fs, f.2.depth ≤ n := by
  simp only [depth, Nat.add_le_add_iff_right, depthOfFields_le]

/-! ### Equality -/

mutual

/-- Equality of contents, with names in the same order. The two zeros are equal. -/
def same : Datum → Datum → Bool
  | undefined, undefined | null, null => true
  | bool a, bool b => a == b
  | number x, number y => x == y
  | string s, string t => s == t
  | function f, function g => f == g
  | array ds, array es => sameItems ds es
  | object fs, object gs => sameFields fs gs
  | _, _ => false

def sameItems : List Datum → List Datum → Bool
  | [], [] => true
  | d :: ds, e :: es => d.same e && sameItems ds es
  | _, _ => false

def sameFields : List (String × Datum) → List (String × Datum) → Bool
  | [], [] => true
  | (j, d) :: fs, (k, e) :: gs => j == k && d.same e && sameFields fs gs
  | _, _ => false

end

theorem sameItems_iff : ∀ {ds es : List Datum},
    sameItems ds es = true ↔ List.Forall₂ (fun d e => d.same e = true) ds es
  | [], [] => by simp [sameItems]
  | [], _ :: _ | _ :: _, [] => by simp [sameItems]
  | _ :: _, _ :: _ => by simp [sameItems, sameItems_iff]

theorem sameFields_iff : ∀ {fs gs : List (String × Datum)},
    sameFields fs gs = true ↔ List.Forall₂ (fun f g => f.1 = g.1 ∧ f.2.same g.2 = true) fs gs
  | [], [] => by simp [sameFields]
  | [], _ :: _ | _ :: _, [] => by simp [sameFields]
  | (_, _) :: _, (_, _) :: _ => by simp [sameFields, sameFields_iff]

end Datum

/-! ### Lists that are related member by member -/

section Members

variable {α β : Type} {R : α → β → Prop} {xs : List α} {ys : List β}

theorem exists_of_forall₂ (h : List.Forall₂ R xs ys) : ∀ x ∈ xs, ∃ y ∈ ys, R x y := by
  induction h with
  | nil => exact nofun
  | cons related _ ih =>
    rw [List.forall_mem_cons]
    refine ⟨⟨_, List.mem_cons_self, related⟩, fun x hx => ?_⟩
    obtain ⟨y, hy, related⟩ := ih x hx
    exact ⟨y, List.mem_cons_of_mem _ hy, related⟩

theorem forall₂_imp_of_mem {S : α → β → Prop} (h : List.Forall₂ R xs ys)
    (imp : ∀ x ∈ xs, ∀ y ∈ ys, R x y → S x y) : List.Forall₂ S xs ys := by
  induction h with
  | nil => exact .nil
  | cons related _ ih =>
    refine .cons (imp _ List.mem_cons_self _ List.mem_cons_self related) (ih fun x hx y hy => ?_)
    exact imp x (List.mem_cons_of_mem _ hx) y (List.mem_cons_of_mem _ hy)

theorem forall₂_unique {zs : List β} (h : List.Forall₂ R xs ys) (h' : List.Forall₂ R xs zs)
    (unique : ∀ y ∈ ys, ∀ x z, R x y → R x z → y = z) : ys = zs := by
  induction h generalizing zs with
  | nil =>
    cases h'
    rfl
  | cons related _ ih =>
    cases h' with
    | cons related' rest =>
      rw [List.forall_mem_cons] at unique
      rw [unique.1 _ _ related related', ih rest unique.2]

end Members

/-- Neither a date nor raw code. -/
def Value.isPlain : Value → Bool
  | date _ | raw _ => false
  | _ => true

namespace Heap

variable (h : Heap)

/-! ### Contents in the heap -/

/-- What a value holds. -/
def contents : Value → List Value
  | .array ref => (h.array ref).toList
  | .object ref => (h.object ref).map (·.2)
  | _ => []

/-- One value holds another. -/
def Holds (v w : Value) : Prop := w ∈ h.contents v

mutual

/-- The datum a value is in the heap. -/
def Unfolds : Value → Datum → Prop
  | v, .undefined => v = .undefined
  | v, .null => v = .null
  | v, .bool b => v = .bool b
  | v, .number x => v = .number x
  | v, .string s => v = .string s
  | v, .function ref => v = .function ref
  | v, .array items => ∃ ref, v = .array ref ∧ UnfoldsItems (h.array ref).toList items
  | v, .object fields =>
    ∃ ref, v = .object ref ∧ (h.object ref).names.Nodup ∧ UnfoldsFields (h.object ref) fields

def UnfoldsItems : List Value → List Datum → Prop
  | [], [] => True
  | v :: vs, d :: ds => Unfolds v d ∧ UnfoldsItems vs ds
  | _, _ => False

def UnfoldsFields : Record Value → List (String × Datum) → Prop
  | [], [] => True
  | (j, v) :: r, (k, d) :: fs => j = k ∧ Unfolds v d ∧ UnfoldsFields r fs
  | _, _ => False

end

variable {h}

theorem unfoldsItems_iff : ∀ {vs : List Value} {ds : List Datum},
    h.UnfoldsItems vs ds ↔ List.Forall₂ h.Unfolds vs ds
  | [], [] => by simp [UnfoldsItems]
  | [], _ :: _ | _ :: _, [] => by simp [UnfoldsItems]
  | _ :: _, _ :: _ => by simp [UnfoldsItems, unfoldsItems_iff]

theorem unfoldsFields_iff : ∀ {r : Record Value} {fs : List (String × Datum)},
    h.UnfoldsFields r fs ↔ List.Forall₂ (fun x f => x.1 = f.1 ∧ h.Unfolds x.2 f.2) r fs
  | [], [] => by simp [UnfoldsFields]
  | [], _ :: _ | _ :: _, [] => by simp [UnfoldsFields]
  | (_, _) :: _, (_, _) :: _ => by simp [UnfoldsFields, unfoldsFields_iff, and_assoc]

/-- A value is one datum only. -/
theorem unfolds_unique (d : Datum) : ∀ (v : Value) (e : Datum), h.Unfolds v d → h.Unfolds v e → d = e := by
  induction d with
  | array ds ih =>
    rintro _ e ⟨ref, rfl, items⟩ other
    cases e with
    | array es =>
      obtain ⟨_, ⟨⟩, items'⟩ := other
      rw [forall₂_unique (unfoldsItems_iff.1 items) (unfoldsItems_iff.1 items') ih]
    | object _ => obtain ⟨_, ⟨⟩, -⟩ := other
    | _ => cases other
  | object fs ih =>
    rintro _ e ⟨ref, rfl, -, fields⟩ other
    cases e with
    | object gs =>
      obtain ⟨_, ⟨⟩, -, fields'⟩ := other
      have unique : ∀ f ∈ fs, ∀ (x : String × Value) g, (x.1 = f.1 ∧ h.Unfolds x.2 f.2) →
          (x.1 = g.1 ∧ h.Unfolds x.2 g.2) → f = g := by
        rintro f hf x g ⟨name, unfolds⟩ ⟨name', unfolds'⟩
        exact Prod.ext (name.symm.trans name') (ih f hf x.2 g.2 unfolds unfolds')
      rw [forall₂_unique (unfoldsFields_iff.1 fields) (unfoldsFields_iff.1 fields') unique]
    | array _ => obtain ⟨_, ⟨⟩, -⟩ := other
    | _ => cases other
  | _ =>
    rintro _ e rfl other
    cases e with
    | array _ | object _ => obtain ⟨_, ⟨⟩, -⟩ := other
    | _ => cases other <;> rfl

/-- Entries that are related one by one have the same names. -/
theorem names_eq_of_forall₂ {α β : Type} {R : α → β → Prop} {r : Record α} {s : Record β}
    (h : List.Forall₂ (fun x y => x.1 = y.1 ∧ R x.2 y.2) r s) : r.names = s.names := by
  induction h with
  | nil => rfl
  | cons first _ ih => simp only [Record.names, List.map_cons, first.1] at ih ⊢; rw [ih]

/-! ### Values without cycles -/

/-- Nothing in the value holds itself or is a date or raw code, and every object in it is a record. -/
structure IsData (h : Heap) (v : Value) : Prop where
  acyclic : ∀ w, ReflTransGen h.Holds v w → ¬ TransGen h.Holds w w
  plain : ∀ w, ReflTransGen h.Holds v w → w.isPlain = true
  distinct : ∀ ref, ReflTransGen h.Holds v (.object ref) → (h.object ref).names.Nodup

theorem IsData.of_holds {v w : Value} (data : h.IsData v) (holds : h.Holds v w) : h.IsData w where
  acyclic _ reach := data.acyclic _ (.head holds reach)
  plain _ reach := data.plain _ (.head holds reach)
  distinct _ reach := data.distinct _ (.head holds reach)

/-- A value is data when all that it holds is. -/
theorem IsData.of_contents {v : Value} (plain : v.isPlain = true)
    (distinct : ∀ ref, v = .object ref → (h.object ref).names.Nodup) (each : ∀ w ∈ h.contents v, h.IsData w) :
    h.IsData v where
  acyclic w reach cycle := by
    rcases reach.cases_head with rfl | ⟨c, holds, reach⟩
    · obtain ⟨c, holds, back⟩ := TransGen.head'_iff.1 cycle
      exact (each c holds).acyclic v back cycle
    · exact (each c holds).acyclic w reach cycle
  plain w reach := by
    rcases reach.cases_head with rfl | ⟨c, holds, reach⟩
    · exact plain
    · exact (each c holds).plain w reach
  distinct ref reach := by
    rcases reach.cases_head with rfl | ⟨c, holds, reach⟩
    · exact distinct ref rfl
    · exact (each c holds).distinct ref reach

/-- The arrays and objects of the heap. -/
def containers (h : Heap) : List Value :=
  (List.range h.arrays.size).map .array ++ (List.range h.objects.size).map .object

theorem length_containers : h.containers.length = h.arrays.size + h.objects.size := by
  simp [containers]

/-- What holds something is in the heap. -/
theorem mem_containers_of_holds {v w : Value} (holds : h.Holds v w) : v ∈ h.containers := by
  cases v with
  | array ref =>
    have inside : ref < h.arrays.size := by
      by_contra outside
      simp [Holds, contents, Heap.array, outside] at holds
    simp [containers, inside]
  | object ref =>
    have inside : ref < h.objects.size := by
      by_contra outside
      simp [Holds, contents, Heap.object, outside] at holds
    simp [containers, inside]
  | _ => cases holds

theorem unfoldsItems_of_forall {n : Nat} {vs : List Value}
    (each : ∀ w ∈ vs, ∃ d, h.Unfolds w d ∧ d.depth ≤ n) :
    ∃ ds, h.UnfoldsItems vs ds ∧ ∀ d ∈ ds, d.depth ≤ n := by
  induction vs with
  | nil => exact ⟨[], trivial, nofun⟩
  | cons v vs ih =>
    obtain ⟨d, hd, shallow⟩ := each v (by simp)
    obtain ⟨ds, hds, shallows⟩ := ih fun w hw => each w (by simp [hw])
    exact ⟨d :: ds, ⟨hd, hds⟩, List.forall_mem_cons.2 ⟨shallow, shallows⟩⟩

theorem unfoldsFields_of_forall {n : Nat} {r : Record Value}
    (each : ∀ w ∈ r.map (·.2), ∃ d, h.Unfolds w d ∧ d.depth ≤ n) :
    ∃ fs, h.UnfoldsFields r fs ∧ ∀ f ∈ fs, f.2.depth ≤ n := by
  induction r with
  | nil => exact ⟨[], trivial, nofun⟩
  | cons x r ih =>
    obtain ⟨k, v⟩ := x
    obtain ⟨d, hd, shallow⟩ := each v (by simp)
    obtain ⟨fs, hfs, shallows⟩ := ih fun w hw => each w (List.mem_cons_of_mem _ hw)
    exact ⟨(k, d) :: fs, ⟨rfl, hd, hfs⟩, List.forall_mem_cons.2 ⟨shallow, shallows⟩⟩

/--
A value unfolds below the containers of `path`. These are distinct and each holds something, so there are not more
of them than containers in the heap; `n` counts how many more there can be, and one that holds nothing.
-/
theorem IsData.unfolds_below : ∀ (n : Nat) (path : List Value) (v : Value),
    path.length + n = h.containers.length + 1 → path.Nodup → (∀ c ∈ path, TransGen h.Holds c v) → h.IsData v →
    ∃ d, h.Unfolds v d ∧ d.depth ≤ n := by
  intro n
  induction n with
  | zero =>
    intro path v size distinct above _
    have inside : path ⊆ h.containers := fun c hc => by
      obtain ⟨w, holds, -⟩ := TransGen.head'_iff.1 (above c hc)
      exact mem_containers_of_holds holds
    have := (List.subperm_of_subset distinct inside).length_le
    omega
  | succ n ih =>
    intro path v size distinct above data
    have fresh : v ∉ path := fun inside => data.acyclic v .refl (above v inside)
    have below : ∀ w ∈ h.contents v, ∃ d, h.Unfolds w d ∧ d.depth ≤ n := by
      intro w holds
      apply ih (v :: path) w
      · rw [List.length_cons]
        omega
      · exact List.nodup_cons.2 ⟨fresh, distinct⟩
      · intro c hc
        rcases List.mem_cons.1 hc with rfl | hc
        · exact .single holds
        · exact (above c hc).tail holds
      · exact data.of_holds holds
    cases v with
    | array ref =>
      obtain ⟨ds, items, shallow⟩ := unfoldsItems_of_forall below
      exact ⟨.array ds, ⟨ref, rfl, items⟩, (Datum.depth_array_le ds).2 shallow⟩
    | object ref =>
      obtain ⟨fs, fields, shallow⟩ := unfoldsFields_of_forall below
      exact ⟨.object fs, ⟨ref, rfl, data.distinct ref .refl, fields⟩, (Datum.depth_object_le fs).2 shallow⟩
    | undefined => exact ⟨.undefined, rfl, Nat.zero_le _⟩
    | null => exact ⟨.null, rfl, Nat.zero_le _⟩
    | bool b => exact ⟨.bool b, rfl, Nat.zero_le _⟩
    | number x => exact ⟨.number x, rfl, Nat.zero_le _⟩
    | string s => exact ⟨.string s, rfl, Nat.zero_le _⟩
    | function ref => exact ⟨.function ref, rfl, Nat.zero_le _⟩
    | date t => cases data.plain _ .refl
    | raw code => cases data.plain _ .refl

/-- **Values without cycles, dates and raw code unfold.** -/
theorem IsData.unfolds {v : Value} (data : h.IsData v) :
    ∃ d, h.Unfolds v d ∧ d.depth ≤ h.arrays.size + h.objects.size + 1 := by
  rw [← length_containers]
  exact IsData.unfolds_below _ [] v (by simp) .nil nofun data

/-! ### Values with the same contents -/

theorem sameTo_array {n a b : Nat}
    (items : List.Forall₂ (fun v w => h.sameTo n v w = true) (h.array a).toList (h.array b).toList) :
    h.sameTo (n + 1) (.array a) (.array b) = true := by
  have all : ∀ p ∈ (h.array a).toList.zip (h.array b).toList, h.sameTo n p.1 p.2 = true :=
    fun p hp => (List.forall₂_iff_zip.1 items).2 hp
  simp only [sameTo, Bool.or_eq_true, Bool.and_eq_true, beq_iff_eq, List.all_eq_true]
  exact .inr ⟨items.length_eq, all⟩

theorem sameTo_object {n a b : Nat} (distinct : (h.object b).names.Nodup)
    (fields : List.Forall₂ (fun x y => x.1 = y.1 ∧ h.sameTo n x.2 y.2 = true) (h.object a) (h.object b)) :
    h.sameTo (n + 1) (.object a) (.object b) = true := by
  simp only [sameTo, Bool.or_eq_true, Bool.and_eq_true, beq_iff_eq, List.all_eq_true]
  refine .inr ⟨fields.length_eq, ?_⟩
  rintro ⟨k, v⟩ hx
  obtain ⟨⟨_, w⟩, hy, rfl, equal⟩ := exists_of_forall₂ fields _ hx
  simpa [Record.get?_of_mem distinct hy] using equal

theorem sameTo_items {n : Nat} {vs ws : List Value} {ds es : List Datum} (hvs : List.Forall₂ h.Unfolds vs ds)
    (hws : List.Forall₂ h.Unfolds ws es) (equal : List.Forall₂ (fun d e => d.same e = true) ds es)
    (each : ∀ d ∈ ds, ∀ v w e, h.Unfolds v d → h.Unfolds w e → d.same e = true → e.depth ≤ n → h.sameTo n v w = true)
    (shallow : ∀ e ∈ es, e.depth ≤ n) : List.Forall₂ (fun v w => h.sameTo n v w = true) vs ws := by
  induction hvs generalizing ws es with
  | nil =>
    cases equal
    cases hws
    exact .nil
  | cons hv _ ih =>
    cases equal with
    | cons first rest =>
      cases hws with
      | cons hw hws =>
        rw [List.forall_mem_cons] at each shallow
        exact .cons (each.1 _ _ _ hv hw first shallow.1) (ih hws rest each.2 shallow.2)

theorem sameTo_fields {n : Nat} {r s : Record Value} {fs gs : List (String × Datum)}
    (hr : List.Forall₂ (fun x f => x.1 = f.1 ∧ h.Unfolds x.2 f.2) r fs)
    (hs : List.Forall₂ (fun y g => y.1 = g.1 ∧ h.Unfolds y.2 g.2) s gs)
    (equal : List.Forall₂ (fun f g => f.1 = g.1 ∧ f.2.same g.2 = true) fs gs)
    (each : ∀ f ∈ fs, ∀ v w e, h.Unfolds v f.2 → h.Unfolds w e → f.2.same e = true → e.depth ≤ n →
      h.sameTo n v w = true)
    (shallow : ∀ g ∈ gs, g.2.depth ≤ n) :
    List.Forall₂ (fun x y => x.1 = y.1 ∧ h.sameTo n x.2 y.2 = true) r s := by
  induction hr generalizing s gs with
  | nil =>
    cases equal
    cases hs
    exact .nil
  | cons hv _ ih =>
    cases equal with
    | cons first rest =>
      cases hs with
      | cons hw hs =>
        rw [List.forall_mem_cons] at each shallow
        have names := (hv.1.trans first.1).trans hw.1.symm
        exact .cons ⟨names, each.1 _ _ _ hv.2 hw.2 first.2 shallow.1⟩ (ih hs rest each.2 shallow.2)

/-- Values whose data are the same are equal, if nesting is followed deep enough. -/
theorem sameTo_of_unfolds (d : Datum) : ∀ (n : Nat) (v w : Value) (e : Datum), h.Unfolds v d → h.Unfolds w e →
    d.same e = true → e.depth ≤ n → h.sameTo n v w = true := by
  induction d with
  | array ds ih =>
    intro n v w e hv hw equal shallow
    cases e with
    | array es =>
      obtain ⟨a, rfl, items⟩ := hv
      obtain ⟨b, rfl, items'⟩ := hw
      cases n with
      | zero => cases shallow
      | succ n =>
        exact sameTo_array (sameTo_items (unfoldsItems_iff.1 items) (unfoldsItems_iff.1 items')
          (Datum.sameItems_iff.1 equal) (fun d hd => ih d hd n) ((Datum.depth_array_le es).1 shallow))
    | _ => cases equal
  | object fs ih =>
    intro n v w e hv hw equal shallow
    cases e with
    | object gs =>
      obtain ⟨a, rfl, -, fields⟩ := hv
      obtain ⟨b, rfl, distinct, fields'⟩ := hw
      cases n with
      | zero => cases shallow
      | succ n =>
        exact sameTo_object distinct (sameTo_fields (unfoldsFields_iff.1 fields) (unfoldsFields_iff.1 fields')
          (Datum.sameFields_iff.1 equal) (fun f hf => ih f hf n) ((Datum.depth_object_le gs).1 shallow))
    | _ => cases equal
  -- what is no container is compared in the same way at every depth
  | _ =>
    rintro n _ w e rfl hw equal -
    cases e <;> first
      | exact absurd equal Bool.false_ne_true
      | cases hw
        revert equal
        cases n <;> simp [sameTo, Value.strictEquals, Datum.same]

/-- **Values whose data are the same are equal.** -/
theorem same_of_unfolds {v w : Value} {d e : Datum} (hv : h.Unfolds v d) (hw : h.Unfolds w e)
    (equal : d.same e = true) (shallow : e.depth ≤ h.arrays.size + h.objects.size + 1) : h.same v w = true :=
  sameTo_of_unfolds d _ v w e hv hw equal shallow

end Heap

end Staging.Script
