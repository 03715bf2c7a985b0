import Staging.Proofs.Script.Datum
import Staging.Proofs.Template.Specialize

/-!
The tree that a value is written as.

`treeOf` finds its way through the heap and watches out for cycles. For a value without cycles all of this comes
down to its datum: `Datum.normal` is what is left of it in writing, and the tree is that of what is left
(`treeOf_of_unfolds`).
-/

namespace Staging.Script

/-! ### What can be written of a value -/

namespace Datum

/-- Values that only exist while a script runs. -/
def isOmitted : Datum → Bool
  | undefined | function _ => true
  | _ => false

mutual

/-- What is left of a value: a number that is not finite becomes `null`, a function `undefined`. -/
def normal : Datum → Datum
  | undefined | function _ => undefined
  | null => null
  | bool b => bool b
  | number x => if x.isFinite then number x else null
  | string s => string s
  | array items => array (normalItems items)
  | object fields => object (normalFields fields)

/-- An item that is omitted leaves `null` in its place. -/
def normalItems : List Datum → List Datum
  | [] => []
  | d :: rest => (if d.isOmitted then null else d.normal) :: normalItems rest

/-- A property that is omitted leaves nothing. -/
def normalFields : List (String × Datum) → List (String × Datum)
  | [] => []
  | (key, d) :: rest => if d.isOmitted then normalFields rest else (key, d.normal) :: normalFields rest

end

mutual

/-- The tree that a value is written as. -/
def tree : Datum → Expr
  | undefined | function _ => .literal nowhere .undefined
  | null => .literal nowhere .null
  | bool b => .literal nowhere (.bool b)
  | number x => Template.numberTree x
  | string s => .literal nowhere (.string s)
  | array items => .array nowhere (treesOfItems items)
  | object fields => .object nowhere (treesOfFields fields)

def treesOfItems : List Datum → List Expr
  | [] => []
  | d :: rest => d.tree :: treesOfItems rest

def treesOfFields : List (String × Datum) → List Property
  | [] => []
  | (key, d) :: rest => ⟨.named key, d.tree⟩ :: treesOfFields rest

end

theorem normalItems_eq (ds : List Datum) :
    normalItems ds = ds.map fun d => if d.isOmitted then null else d.normal := by
  induction ds with
  | nil => rfl
  | cons d rest ih => rw [normalItems, ih, List.map_cons]

theorem normalFields_eq (fs : List (String × Datum)) :
    normalFields fs = fs.filterMap fun f => if f.2.isOmitted then none else some (f.1, f.2.normal) := by
  induction fs with
  | nil => rfl
  | cons f rest ih =>
    obtain ⟨key, d⟩ := f
    by_cases omitted : d.isOmitted = true <;> simp [normalFields, omitted, ih]

theorem treesOfItems_eq (ds : List Datum) : treesOfItems ds = ds.map tree := by
  induction ds with
  | nil => rfl
  | cons d rest ih => rw [treesOfItems, ih, List.map_cons]

theorem treesOfFields_eq (fs : List (String × Datum)) :
    treesOfFields fs = fs.map fun f => ⟨.named f.1, f.2.tree⟩ := by
  induction fs with
  | nil => rfl
  | cons f rest ih => rw [treesOfFields, ih, List.map_cons]

/-- What is left is nested no deeper. -/
theorem depth_normal_le (d : Datum) : ∀ {n : Nat}, d.depth ≤ n → d.normal.depth ≤ n := by
  induction d with
  | array ds ih =>
    intro n shallow
    cases n with
    | zero => cases shallow
    | succ n =>
      rw [depth_array_le] at shallow
      simp only [normal, normalItems_eq, depth_array_le, List.forall_mem_map]
      intro d hd
      split
      · exact Nat.zero_le n
      · exact ih d hd (shallow d hd)
  | object fs ih =>
    intro n shallow
    cases n with
    | zero => cases shallow
    | succ n =>
      rw [depth_object_le] at shallow
      simp only [normal, normalFields_eq, depth_object_le, List.mem_filterMap]
      rintro f ⟨g, hg, kept⟩
      split at kept
      · cases kept
      · cases kept
        exact ih g hg (shallow g hg)
  | number x =>
    intro n _
    simp only [normal]
    split <;> exact Nat.zero_le n
  | _ => exact fun _ => Nat.zero_le _

theorem names_normalFields (fs : List (String × Datum)) :
    ((normalFields fs).map (·.1)).Sublist (fs.map (·.1)) := by
  induction fs with
  | nil => exact .slnil
  | cons f rest ih =>
    obtain ⟨key, d⟩ := f
    rw [normalFields]
    split
    · exact ih.cons key
    · exact ih.cons_cons key

end Datum

end Staging.Script

namespace Staging.Template

open Script Relation

/-! ### The tree of a value -/

/-- A container as a value. -/
def Container.value : Container → Value
  | array ref => .array ref
  | object ref => .object ref

theorem mapM_ok_of_forall₂ {ε α β : Type} {f : α → Except ε β} {as : List α} {bs : List β}
    (h : List.Forall₂ (fun a b => f a = .ok b) as bs) : as.mapM f = .ok bs := by
  induction h with
  | nil => rfl
  | cons first _ ih =>
    rw [List.mapM_cons, first, ih]
    rfl

theorem entering_ok {h : Heap} {path : List Container} {c : Container} (data : h.IsData c.value)
    (above : ∀ b ∈ path, TransGen h.Holds b.value c.value) : entering path c = .ok (c :: path) :=
  if_neg fun inside => data.acyclic _ .refl (above c inside)

theorem above_item {h : Heap} {path : List Container} {c : Container} {w : Value}
    (above : ∀ b ∈ path, TransGen h.Holds b.value c.value) (holds : h.Holds c.value w) :
    ∀ b ∈ c :: path, TransGen h.Holds b.value w := by
  rw [List.forall_mem_cons]
  exact ⟨.single holds, fun b hb => (above b hb).tail holds⟩

theorem normal_array (ds : List Datum) :
    arrayTree (ds.map fun d => if d.isOmitted then none else some d.normal.tree) = (Datum.array ds).normal.tree := by
  simp only [arrayTree, Datum.normal, Datum.tree, Datum.normalItems_eq, Datum.treesOfItems_eq, List.map_map]
  congr 1
  refine List.map_congr_left fun d _ => ?_
  simp only [Function.comp_apply]
  split <;> rfl

theorem normal_object (fs : List (String × Datum)) :
    objectTree (fs.map fun f => (f.1, if f.2.isOmitted then none else some f.2.normal.tree))
      = (Datum.object fs).normal.tree := by
  simp only [objectTree, Datum.normal, Datum.tree, Datum.normalFields_eq, Datum.treesOfFields_eq, List.filterMap_map,
    List.map_filterMap]
  congr 1
  refine List.filterMap_congr fun f _ => ?_
  simp only [Function.comp_apply]
  split <;> rfl

/-- **The tree of a value is that of its datum.** -/
theorem treeOf_of_unfolds {h : Heap} (d : Datum) : ∀ (fuel : Nat) (path : List Container) (v : Value),
    h.Unfolds v d → d.depth ≤ fuel → h.IsData v → (∀ c ∈ path, TransGen h.Holds c.value v) →
    treeOf h fuel path v = .ok (if d.isOmitted then none else some d.normal.tree) := by
  induction d with
  | array ds ih =>
    rintro fuel path _ ⟨ref, rfl, items⟩ shallow data above
    cases fuel with
    | zero => cases shallow
    | succ fuel =>
      rw [Datum.depth_array_le] at shallow
      have entered : entering path (.array ref) = .ok (.array ref :: path) := entering_ok data above
      have trees : (h.array ref).toList.mapM (treeOf h fuel (.array ref :: path))
          = .ok (ds.map fun d => if d.isOmitted then none else some d.normal.tree) := by
        apply mapM_ok_of_forall₂
        rw [List.forall₂_map_right_iff]
        refine forall₂_imp_of_mem (Heap.unfoldsItems_iff.1 items) fun v hv d hd unfolds => ?_
        exact ih d hd fuel _ v unfolds (shallow d hd) (data.of_holds hv) (above_item (c := .array ref) above hv)
      calc treeOf h (fuel + 1) path (.array ref)
        _ = (h.array ref).toList.mapM (treeOf h fuel (.array ref :: path)) >>= fun items =>
              pure (some (arrayTree items)) := by rw [treeOf, entered]; rfl
        _ = .ok (some (Datum.array ds).normal.tree) := by rw [trees, ← normal_array]; rfl
  | object fs ih =>
    rintro fuel path _ ⟨ref, rfl, -, fields⟩ shallow data above
    cases fuel with
    | zero => cases shallow
    | succ fuel =>
      rw [Datum.depth_object_le] at shallow
      have entered : entering path (.object ref) = .ok (.object ref :: path) := entering_ok data above
      have trees : (h.object ref).mapM (fun x => do return (x.1, ← treeOf h fuel (.object ref :: path) x.2))
          = .ok (fs.map fun f => (f.1, if f.2.isOmitted then none else some f.2.normal.tree)) := by
        apply mapM_ok_of_forall₂
        rw [List.forall₂_map_right_iff]
        refine forall₂_imp_of_mem (Heap.unfoldsFields_iff.1 fields) fun x hx f hf unfolds => ?_
        have holds : h.Holds (.object ref) x.2 := List.mem_map_of_mem hx
        have above := above_item (c := .object ref) above holds
        rw [ih f hf fuel _ x.2 unfolds.2 (shallow f hf) (data.of_holds holds) above, unfolds.1]
        rfl
      calc treeOf h (fuel + 1) path (.object ref)
        _ = (h.object ref).mapM (fun x => do return (x.1, ← treeOf h fuel (.object ref :: path) x.2)) >>= fun fields =>
              pure (some (objectTree fields)) := by rw [treeOf, entered]; rfl
        _ = .ok (some (Datum.object fs).normal.tree) := by rw [trees, ← normal_object]; rfl
  | number x =>
    rintro fuel path _ rfl - - -
    by_cases finite : x.isFinite = true
    · cases fuel <;> simp [treeOf, Datum.isOmitted, Datum.normal, Datum.tree, finite]
    · cases fuel <;> simp [treeOf, Datum.isOmitted, Datum.normal, Datum.tree, finite]
  | _ =>
    rintro fuel path _ rfl - - -
    cases fuel <;> rfl

end Staging.Template
