import Staging.Proofs.Number.Whole
import Staging.Proofs.Script.Contents
import Staging.Proofs.Template.DatumTree

/-!
Data that are written as they are.

The tree of a datum is an expression, and has a meaning. Mostly this is the datum again: `Datum.Plain` leaves out what
is written as something else or as nothing, and the zero with a sign, whose sign is lost. A plain datum in a heap is
written as its tree (`Heap.Carries.treeOf_eq`), and its tree means what it is (`Datum.Plain.outcome_tree`).

What stands under a key of a plain datum is plain, if there is anything.
-/

namespace Staging

namespace Number

/-- The counts of things that there can be are numbers without a sign. -/
theorem plain_ofNat {n : Nat} (small : n ≤ 2 ^ 53) :
    (Float.ofNat n).isFinite = true ∧ isNegative (Float.ofNat n) = false := by
  obtain ⟨negative, mant, exp, seen, value⟩ := value?_eq_some_iff.1 (value?_ofNat small)
  refine ⟨isFinite_iff.2 ⟨negative, mant, exp, seen⟩, ?_⟩
  rw [isNegative_eq seen]
  cases negative with
  | false => rfl
  | true =>
    exfalso
    have magnitude : (0 : ℚ) ≤ mant * 2 ^ exp := by positivity
    have count : (0 : ℚ) ≤ n := Nat.cast_nonneg n
    have none : n = 0 := by
      rw [if_pos rfl] at value
      exact_mod_cast (by linarith : (n : ℚ) = 0)
    subst none
    rw [view_ofNat_zero] at seen
    cases seen

end Number

namespace Script

/-- Nothing has more parts than this. -/
def maxCount : Nat := Nat.pow 2 53

namespace Datum

/--
It is written as it is: there is no `undefined` and no function in it, its numbers are finite and none of them is the zero
with a sign, and the names of an object are distinct. Texts and arrays are no longer than there is memory for.
-/
inductive Plain : Datum → Prop
  | null : Plain null
  | bool (b : Bool) : Plain (bool b)
  | number {x : Float} : x.isFinite = true → (Number.isNegative x = true → (x == 0.0) = false) → Plain (number x)
  | string {s : String} : s.length ≤ maxCount → Plain (string s)
  | array {ds : List Datum} : ds.length ≤ maxCount → (∀ d ∈ ds, Plain d) → Plain (array ds)
  | object {fs : Record Datum} : fs.names.Nodup → (∀ f ∈ fs, Plain f.2) → Plain (object fs)

/-- It is plain, or it is `undefined`, which is written out where it stands alone. -/
def Writable (d : Datum) : Prop := d = undefined ∨ d.Plain

namespace Plain

variable {d : Datum} {data : String → Option Datum}

theorem isOmitted (plain : d.Plain) : d.isOmitted = false := by
  cases plain <;> rfl

theorem normal_eq (plain : d.Plain) : d.normal = d := by
  induction plain with
  | number finite _ => rw [normal, if_pos finite]
  | @array ds _ plain ih =>
    rw [normal, normalItems_eq, List.map_congr_left (g := id), List.map_id]
    intro d among
    rw [(plain d among).isOmitted, ih d among]
    rfl
  | @object fs _ plain ih =>
    rw [normal, normalFields_eq, List.filterMap_congr (g := some), List.filterMap_some]
    intro f among
    rw [(plain f among).isOmitted, ih f among]
    rfl
  | _ => rfl

/-! ### The tree -/

/-- A minus sign in front of a plain number is an operator; what it is applied to has none. -/
theorem numberTree_eq {x : Float} (finite : x.isFinite = true) (nonzero : Number.isNegative x = true → (x == 0.0) = false) :
    (Template.numberTree x = .literal nowhere (.number x) ∧ Number.isNegative x = false) ∨
      (Template.numberTree x = .unary nowhere .neg (.literal nowhere (.number (-x))) ∧ Number.isNegative (-x) = false) := by
  rw [Template.numberTree, Literal.isSigned]
  cases negative : Number.isNegative x with
  | false => exact .inl ⟨rfl, rfl⟩
  | true =>
    obtain ⟨sign, mant, exp, seen⟩ := Number.isFinite_iff.1 finite
    obtain rfl : sign = true := (Number.isNegative_eq seen).symm.trans negative
    refine .inr ⟨?_, Number.isNegative_eq (Number.view_neg seen)⟩
    rw [bne, nonzero negative]
    rfl

theorem isPure_tree (known : String → Bool) (d : Datum) : d.tree.isPure known = true := by
  induction d with
  | number x =>
    rw [tree, Template.numberTree]
    split <;> rfl
  | array ds ih =>
    show Expr.allPure known (treesOfItems ds) = true
    induction ds with
    | nil => rfl
    | cons d ds rest =>
      rw [List.forall_mem_cons] at ih
      rw [treesOfItems, Expr.allPure, ih.1, rest ih.2]
      rfl
  | object fs ih =>
    show Property.allPure known (treesOfFields fs) = true
    induction fs with
    | nil => rfl
    | cons f fs rest =>
      rw [List.forall_mem_cons] at ih
      rw [treesOfFields, Property.allPure, ih.1, rest ih.2]
      rfl
  | _ => rfl

theorem isSignless_tree (plain : d.Plain) : d.tree.isSignless = true := by
  induction plain with
  | @number x finite nonzero =>
    obtain ⟨same, positive⟩ | ⟨same, positive⟩ := numberTree_eq finite nonzero
    · simp only [tree, same, Expr.isSignless, Literal.isSignless, positive, Bool.not_false]
    · simp only [tree, same, Expr.isSignless, Literal.isSignless, positive, Bool.not_false]
  | @array ds _ _ ih =>
    show Expr.allSignless (treesOfItems ds) = true
    rw [treesOfItems_eq, Expr.allSignless_iff, List.forall_mem_map]
    exact ih
  | @object fs _ _ ih =>
    show Property.allSignless (treesOfFields fs) = true
    rw [treesOfFields_eq, Property.allSignless_iff, List.forall_mem_map]
    exact fun f among => ⟨rfl, ih f among⟩
  | _ => rfl

/-- The tree of a plain datum means the datum. -/
theorem outcome_tree (plain : d.Plain) : outcome data d.tree = .ok (some d) := by
  induction plain with
  | @number x finite nonzero =>
    obtain ⟨same, -⟩ | ⟨same, -⟩ := numberTree_eq finite nonzero
    · rw [tree, same]
      rfl
    · rw [tree, same]
      exact congrArg (fun x => Except.ok (some (Datum.number x))) (Number.neg_neg_of_isFinite finite)
  | @array ds _ _ ih =>
    have items : outcomes data (treesOfItems ds) = .ok ds := by
      clear * - ih
      induction ds with
      | nil => rfl
      | cons d ds rest =>
        rw [List.forall_mem_cons] at ih
        rw [treesOfItems, outcomes, ih.1, rest ih.2]
        rfl
    rw [tree, outcome, items]
    rfl
  | @object fs distinct _ ih =>
    have fields : ∀ before : Record Datum, (before ++ fs).names.Nodup →
        outcomeFields data before (treesOfFields fs) = .ok (before ++ fs) := by
      clear * - ih
      induction fs with
      | nil =>
        intro before _
        rw [List.append_nil]
        rfl
      | cons f fs rest =>
        obtain ⟨name, d⟩ := f
        intro before distinct
        rw [List.forall_mem_cons] at ih
        have new : name ∉ before.names := by
          rw [Record.names, List.map_append, List.nodup_append] at distinct
          exact fun there => distinct.2.2 name there name List.mem_cons_self rfl
        calc outcomeFields data before (treesOfFields ((name, d) :: fs))
          _ = outcomeFields data (before.put name d) (treesOfFields fs) := by
            rw [treesOfFields, outcomeFields, outcomeKey, ih.1]
            rfl
          _ = .ok (before ++ (name, d) :: fs) := by
            rw [Record.put_of_notMem d new, rest ih.2, List.append_assoc, List.singleton_append]
            rwa [List.append_assoc, List.singleton_append]
    rw [tree, outcome, fields [] distinct]
    rfl
  | _ => rfl

/-! ### Parts -/

theorem char (c : Char) : (Datum.string c.toString).Plain :=
  .string (by rw [Char.toString, String.length_singleton]; decide)

theorem count {n : Nat} (small : n ≤ maxCount) : (Datum.number (Float.ofNat n)).Plain := by
  obtain ⟨finite, positive⟩ := Number.plain_ofNat small
  exact .number finite fun negative => absurd (positive.symm.trans negative) Bool.false_ne_true

end Plain

namespace Writable

variable {d : Datum} {data : String → Option Datum}

theorem isSignless_tree (writable : d.Writable) : d.tree.isSignless = true := by
  obtain rfl | plain := writable
  · rfl
  · exact plain.isSignless_tree

/-- What is written means what it is. -/
theorem outcome_tree (writable : d.Writable) : outcome data d.tree = .ok (some d) := by
  obtain rfl | plain := writable
  · rfl
  · exact plain.outcome_tree

/-- What stands under a key of a plain datum is plain, if there is anything. -/
theorem property (writable : d.Writable) (key : String) : (d.property key).Writable := by
  obtain rfl | plain := writable
  · exact .inl rfl
  cases plain with
  | @array ds short plain =>
    rw [Datum.property]
    split
    · exact .inr (.count short)
    · cases indexOfKey? key with
      | none => exact .inl rfl
      | some i =>
        rw [Option.bind_some]
        cases there : ds[i]? with
        | none => exact .inl rfl
        | some d => exact .inr (plain d (List.mem_of_getElem? there))
  | @string s short =>
    rw [Datum.property]
    split
    · exact .inr (.count short)
    · cases (indexOfKey? key).bind (s.toList[·]?) with
      | none => exact .inl rfl
      | some c => exact .inr (.char c)
  | @object fs _ plain =>
    rw [Datum.property]
    cases there : Record.get? fs key with
    | none => exact .inl rfl
    | some d => exact .inr (plain _ (Record.mem_of_get? there))
  | _ => exact .inl rfl

end Writable

end Datum

/-! ### In a heap -/

namespace Heap.Carries

variable {h : Heap} {v : Value} {d : Datum}

/-- A value that is a datum does not hold itself, and there is nothing else in it. -/
theorem isData (c : h.Carries v d) : h.IsData v := by
  induction d generalizing v with
  | array ds ih =>
    obtain ⟨ref, rfl, -, items⟩ := c.of_array
    refine .of_contents rfl nofun fun w holds => ?_
    obtain ⟨d, among, carried⟩ := exists_of_forall₂ items w holds
    exact ih d among carried
  | object fs ih =>
    obtain ⟨ref, rfl, -, distinct, fields⟩ := c.of_object
    refine .of_contents rfl ?_ fun w holds => ?_
    · rintro _ ⟨⟩
      exact distinct
    · obtain ⟨x, among, rfl⟩ := List.mem_map.1 holds
      obtain ⟨f, among', -, carried⟩ := exists_of_forall₂ fields x among
      exact ih f among' carried
  | function _ => cases c.inert
  | _ =>
    rw [c.of_face rfl]
    exact .of_contents rfl nofun nofun

/-- **A value that is a plain datum is written as the tree of the datum.** -/
theorem treeOf_eq (c : h.Carries v d) (writable : d.Writable) :
    ∃ e, Template.treeOf h (h.arrays.size + h.objects.size + 2) [] v = .ok e ∧
      e.getD (.literal nowhere .undefined) = d.tree := by
  have data := c.isData
  obtain ⟨e, unfolds, shallow⟩ := data.unfolds
  obtain rfl := unfolds_unique e v d unfolds c.unfolds
  refine ⟨_, Template.treeOf_of_unfolds e _ [] v unfolds (Nat.le_succ_of_le shallow) data nofun, ?_⟩
  obtain rfl | plain := writable
  · rfl
  · rw [plain.isOmitted, plain.normal_eq]
    rfl

end Heap.Carries

end Script

end Staging
