import Staging.Proofs.Template.Circular

/-!
Values that are built up from what is in the heap.

A value is grounded when it and all that it holds is in the heap and nothing in it holds itself: it is built up from
values that hold nothing. These are the values without cycles and without references to nowhere (`grounded_iff`).

The text of a grounded value and the written form of any value are computed with a bound that depends on the size of
the heap. The bound is never reached, so both are the same with every larger one (`displayTo_enough`, `codeOf_enough`).
-/

namespace Staging.Script

open Relation

namespace Heap

variable {h : Heap}

/-- What a value refers to is in the heap. -/
def Has (h : Heap) : Value → Prop
  | .array ref => ref < h.arrays.size
  | .object ref => ref < h.objects.size
  | .function ref => ref < h.functions.size
  | _ => True

/-- The value is in the heap, and it is built up from what is in the heap. -/
inductive Grounded (h : Heap) : Value → Prop
  | intro {v : Value} : h.Has v → (∀ w ∈ h.contents v, Grounded h w) → Grounded h v

namespace Grounded

variable {v : Value}

theorem has (grounded : h.Grounded v) : h.Has v := by
  cases grounded with
  | intro there _ => exact there

theorem of_holds {w : Value} (grounded : h.Grounded v) (holds : h.Holds v w) : h.Grounded w := by
  cases grounded with
  | intro _ inner => exact inner w holds

theorem of_reach {w : Value} (grounded : h.Grounded v) (reach : ReflTransGen h.Holds v w) : h.Grounded w := by
  induction reach with
  | refl => exact grounded
  | tail _ holds ih => exact ih.of_holds holds

/-- Nothing grounded holds itself. -/
theorem not_cycle (grounded : h.Grounded v) : ¬ TransGen h.Holds v v := by
  induction grounded with
  | intro _ _ ih =>
    intro cycle
    obtain ⟨w, holds, back⟩ := TransGen.head'_iff.1 cycle
    exact ih w holds (.tail' back holds)

theorem not_circular (grounded : h.Grounded v) : ¬ h.Circular v := by
  rintro ⟨w, reach, cycle⟩
  exact (grounded.of_reach reach).not_cycle cycle

end Grounded

/-- What is inside open containers is grounded, if it is in the heap and does not return to any of them. -/
theorem grounded_of_not_returns (fuel : Nat) : ∀ (path : List Template.Container) (v : Value),
    Template.Room h path fuel → (∀ w, ReflTransGen h.Holds v w → h.Has w) → ¬ Template.Returns h path v →
    h.Grounded v := by
  induction fuel with
  | zero =>
    intro path v room
    obtain ⟨_, none⟩ := room.exists_succ
    cases none
  | succ fuel ih =>
    intro path v room there straight
    refine .intro (there v .refl) fun w holds => ?_
    cases is : Template.Container.ofValue? v with
    | none =>
      cases v with
      | array ref | object ref => cases is
      | _ => cases holds
    | some c =>
      have fresh := Template.not_mem_of_not_returns is straight
      apply ih (c :: path) w (room.entered is fresh holds)
      · exact fun u reach => there u (.head holds reach)
      · exact (Template.not_returns_iff is fresh).1 straight w holds

/-- Grounded values are those that reach no cycle and nothing that is not in the heap. -/
theorem grounded_iff {v : Value} :
    h.Grounded v ↔ ¬ h.Circular v ∧ ∀ w, ReflTransGen h.Holds v w → h.Has w := by
  constructor
  · intro grounded
    exact ⟨grounded.not_circular, fun w reach => (grounded.of_reach reach).has⟩
  · rintro ⟨straight, there⟩
    rw [← Template.returns_nil] at straight
    exact grounded_of_not_returns _ [] v (.start h) there straight

/-! ### Bounds -/

theorem displayTo_array (h : Heap) (n ref : Nat) : h.displayTo (n + 1) (.array ref) =
    ",".intercalate ((h.array ref).toList.map fun v => if v.isNullish then "" else h.displayTo n v) := rfl

/--
The text of a value within arrays that hold it is the same with every bound that leaves room for all other arrays.
-/
theorem displayTo_enough {v : Value} (grounded : h.Grounded v) :
    ∀ (path : List Nat) {m n : Nat}, path.Nodup → (∀ ref ∈ path, ref < h.arrays.size) →
      (∀ ref ∈ path, TransGen h.Holds (.array ref) v) →
      h.arrays.size < path.length + m → h.arrays.size < path.length + n → h.displayTo m v = h.displayTo n v := by
  induction grounded with
  | @intro v there inner ih =>
    intro path m n distinct inside around roomM roomN
    cases v with
    | array ref =>
      -- no array is entered twice, so no more are open than there are
      have fresh : ref ∉ path := fun again =>
        (Grounded.intro there inner).not_cycle (around ref again)
      have few : (ref :: path).length ≤ (List.range h.arrays.size).length := by
        refine (List.subperm_of_subset (List.nodup_cons.2 ⟨fresh, distinct⟩) ?_).length_le
        simpa [List.subset_def] using ⟨there, inside⟩
      rw [List.length_cons, List.length_range] at few
      obtain ⟨m, rfl⟩ : ∃ k, m = k + 1 := ⟨m - 1, by omega⟩
      obtain ⟨n, rfl⟩ : ∃ k, n = k + 1 := ⟨n - 1, by omega⟩
      rw [displayTo_array, displayTo_array]
      congr 1
      refine List.map_congr_left fun w holds => ?_
      rw [ih w holds (ref :: path) (List.nodup_cons.2 ⟨fresh, distinct⟩)]
      · simpa using ⟨there, inside⟩
      · rw [List.forall_mem_cons]
        exact ⟨.single holds, fun r opened => (around r opened).tail holds⟩
      · rw [List.length_cons]
        omega
      · rw [List.length_cons]
        omega
    | _ => cases m <;> cases n <;> rfl

/-- The text of a grounded value needs no larger bound than the number of arrays allows for. -/
theorem display_eq {v : Value} (grounded : h.Grounded v) {n : Nat} (enough : h.arrays.size < n) :
    h.displayTo n v = h.display v :=
  displayTo_enough grounded [] .nil nofun nofun (by simpa using enough) (by simp)

end Heap

end Staging.Script

namespace Staging.Template

open Script

/-- The code for a value is the same with every bound that leaves room for all containers. -/
theorem codeOf_enough {h : Heap} {n : Nat} (enough : h.arrays.size + h.objects.size < n) (v : Value) :
    written h v = (codeOf h n [] v).map (·.getD "undefined") := by
  have room : Room h [] n := ⟨.nil, nofun, by simpa [Heap.length_containers] using enough⟩
  rw [written, codeOf_of_writesOut (writesOut_codeOf n [] v room) (.start h)]

end Staging.Template
