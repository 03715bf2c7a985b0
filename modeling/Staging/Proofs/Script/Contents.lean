import Staging.Proofs.Script.Meaning
import Staging.Proofs.Script.Twin

/-!
Values and the data they are.

`Heap.Carries` says that a value in a heap is a datum: it is in the heap with all that it holds, and it unfolds to the
datum, in which there is no function. What a value counts as, its properties and its items are those of its datum, so
operators and properties can be computed on data.
-/

namespace Staging.Script

namespace Datum

/-- There is no function in the datum. -/
inductive Inert : Datum → Prop
  | undefined : Inert undefined
  | null : Inert null
  | bool (b : Bool) : Inert (bool b)
  | number (x : Float) : Inert (number x)
  | string (s : String) : Inert (string s)
  | array {ds : List Datum} : (∀ d ∈ ds, Inert d) → Inert (array ds)
  | object {fs : List (String × Datum)} : (∀ f ∈ fs, Inert f.2) → Inert (object fs)

theorem textsOfItems_eq (ds : List Datum) :
    textsOfItems ds = ds.map fun d => if d.face.isNullish then "" else d.text := by
  induction ds with
  | nil => rfl
  | cons d ds ih => rw [textsOfItems, ih, List.map_cons]

end Datum

section Members

variable {α β γ : Type} {R : α → β → Prop} {xs : List α} {ys : List β}

/-- Lists that are related item by item look the same through functions that do not tell related items apart. -/
theorem map_eq_of_forall₂ {f : α → γ} {g : β → γ} (h : List.Forall₂ R xs ys)
    (alike : ∀ x ∈ xs, ∀ y ∈ ys, R x y → f x = g y) : xs.map f = ys.map g := by
  rw [← List.forall₂_eq_eq_eq, List.forall₂_map_left_iff, List.forall₂_map_right_iff]
  exact forall₂_imp_of_mem h alike

theorem getElem?_of_forall₂ (h : List.Forall₂ R xs ys) (i : Nat) :
    (xs[i]? = none ∧ ys[i]? = none) ∨ ∃ x y, xs[i]? = some x ∧ ys[i]? = some y ∧ R x y := by
  induction h generalizing i with
  | nil => exact .inl ⟨rfl, rfl⟩
  | cons first _ ih =>
    cases i with
    | zero => exact .inr ⟨_, _, rfl, rfl, first⟩
    | succ i => exact ih i

end Members

/-- The text that a value is. -/
def Value.text? : Value → Option String
  | string s => some s
  | _ => none

namespace Heap

variable {h t : Heap} {v : Value} {d : Datum} {ref : Nat}

/-- The value is the datum, and both are all there. -/
structure Carries (h : Heap) (v : Value) (d : Datum) : Prop where
  grounded : h.Grounded v
  unfolds : h.Unfolds v d
  inert : d.Inert

/-- Fields under the same names that are the data. -/
def CarriesFields (h : Heap) (r : Record Value) (fs : List (String × Datum)) : Prop :=
  List.Forall₂ (fun x f => x.1 = f.1 ∧ h.Carries x.2 f.2) r fs

namespace Carries

/-! ### Containers -/

theorem of_array {ds : List Datum} (c : h.Carries v (.array ds)) :
    ∃ ref, v = .array ref ∧ ref < h.arrays.size ∧ List.Forall₂ h.Carries (h.array ref).toList ds := by
  obtain ⟨grounded, ⟨ref, rfl, items⟩, inert⟩ := c
  cases inert with
  | array inert =>
    refine ⟨ref, rfl, grounded.has, forall₂_imp_of_mem (unfoldsItems_iff.1 items) ?_⟩
    exact fun w inside d among unfolds => ⟨grounded.of_holds inside, unfolds, inert d among⟩

theorem of_object {fs : List (String × Datum)} (c : h.Carries v (.object fs)) :
    ∃ ref, v = .object ref ∧ ref < h.objects.size ∧ (h.object ref).names.Nodup ∧
      h.CarriesFields (h.object ref) fs := by
  obtain ⟨grounded, ⟨ref, rfl, distinct, fields⟩, inert⟩ := c
  cases inert with
  | object inert =>
    refine ⟨ref, rfl, grounded.has, distinct, forall₂_imp_of_mem (unfoldsFields_iff.1 fields) ?_⟩
    rintro x inside f among ⟨name, unfolds⟩
    exact ⟨name, grounded.of_holds (List.mem_map_of_mem inside), unfolds, inert f among⟩

theorem array {ds : List Datum} (inside : ref < h.arrays.size)
    (items : List.Forall₂ h.Carries (h.array ref).toList ds) : h.Carries (.array ref) (.array ds) where
  grounded := .intro inside fun w holds => by
    obtain ⟨d, -, carried⟩ := exists_of_forall₂ items w holds
    exact carried.grounded
  unfolds := ⟨ref, rfl, unfoldsItems_iff.2 (items.imp fun _ _ carried => carried.unfolds)⟩
  inert := .array fun d among => by
    obtain ⟨w, -, carried⟩ := exists_of_forall₂ items.flip d among
    exact carried.inert

theorem object {fs : List (String × Datum)} (inside : ref < h.objects.size) (distinct : (h.object ref).names.Nodup)
    (fields : h.CarriesFields (h.object ref) fs) : h.Carries (.object ref) (.object fs) where
  grounded := .intro inside fun w holds => by
    obtain ⟨x, among, rfl⟩ := List.mem_map.1 holds
    obtain ⟨f, -, -, carried⟩ := exists_of_forall₂ fields x among
    exact carried.grounded
  unfolds := ⟨ref, rfl, distinct,
    unfoldsFields_iff.2 (fields.imp fun _ _ carried => ⟨carried.1, carried.2.unfolds⟩)⟩
  inert := .object fun f among => by
    obtain ⟨x, -, -, carried⟩ := exists_of_forall₂ fields.flip f among
    exact carried.inert

/-- A value without contents. -/
theorem of_face (c : h.Carries v d) (atomic : d.isContainer = false) : v = d.face := by
  obtain ⟨-, unfolds, inert⟩ := c
  cases d with
  | array _ | object _ => cases atomic
  | function _ => cases inert
  | _ => exact unfolds

theorem atom (inert : d.Inert) (atomic : d.isContainer = false) : h.Carries d.face d := by
  cases d with
  | array _ | object _ => cases atomic
  | function _ => cases inert
  | _ => exact ⟨.intro trivial fun _ none => absurd none List.not_mem_nil, rfl, inert⟩

/-- A value stays what it is when there are more arrays and objects. -/
theorem extend (c : h.Carries v d) (more : h.Extends t) : t.Carries v d := by
  induction d generalizing v with
  | array ds ih =>
    obtain ⟨ref, rfl, inside, items⟩ := c.of_array
    refine array (Nat.lt_of_lt_of_le inside (size_le_of_initial more.arrays)) ?_
    rw [more.array_eq inside]
    exact forall₂_imp_of_mem items fun w _ d among carried => ih d among carried
  | object fs ih =>
    obtain ⟨ref, rfl, inside, distinct, fields⟩ := c.of_object
    refine object (Nat.lt_of_lt_of_le inside (size_le_of_initial more.objects)) ?_ ?_
    · rwa [more.object_eq inside]
    · rw [CarriesFields, more.object_eq inside]
      exact forall₂_imp_of_mem fields fun x _ f among carried => ⟨carried.1, ih f among carried.2⟩
  | function _ => cases c.inert
  | _ =>
    rw [c.of_face rfl]
    exact atom c.inert rfl

theorem undefined : h.Carries .undefined .undefined := .atom .undefined rfl

theorem bool (b : Bool) : h.Carries (.bool b) (.bool b) := .atom (.bool b) rfl

theorem number (x : Float) : h.Carries (.number x) (.number x) := .atom (.number x) rfl

theorem string (s : String) : h.Carries (.string s) (.string s) := .atom (.string s) rfl

theorem literal (l : Literal) : h.Carries (literalValue l) (.ofLiteral l) := by
  cases l with
  | null => exact .atom .null rfl
  | undefined => exact undefined
  | bool b => exact bool b
  | number x => exact number x
  | string s => exact string s

/-! ### What values count as -/

/-- What does not depend on contents is the same for the value and for its datum. -/
theorem face {α : Type} (c : h.Carries v d) (f : Value → α) (array : ∀ ref, f (.array ref) = f (.array 0))
    (object : ∀ ref, f (.object ref) = f (.object 0)) : f v = f d.face := by
  cases d with
  | array ds =>
    obtain ⟨ref, rfl, -⟩ := c.of_array
    exact array ref
  | object fs =>
    obtain ⟨ref, rfl, -⟩ := c.of_object
    exact object ref
  | _ => rw [c.of_face rfl]

theorem typeName (c : h.Carries v d) : v.typeName = d.face.typeName := c.face _ (fun _ => rfl) fun _ => rfl

theorem truthy (c : h.Carries v d) : v.truthy = d.face.truthy := c.face _ (fun _ => rfl) fun _ => rfl

theorem isNullish (c : h.Carries v d) : v.isNullish = d.face.isNullish := c.face _ (fun _ => rfl) fun _ => rfl

theorem isTextual (c : h.Carries v d) : v.isTextual = d.face.isTextual := c.face _ (fun _ => rfl) fun _ => rfl

theorem isFunction (c : h.Carries v d) : v.isFunction = false := by
  obtain ⟨-, unfolds, inert⟩ := c
  cases inert with
  | array _ | object _ =>
    obtain ⟨_, rfl, _⟩ := unfolds
    rfl
  | _ =>
    obtain rfl := unfolds
    rfl

theorem settledBy (c : h.Carries v d) (op : BinaryOp) : BinaryOp.settledBy op v = BinaryOp.settledBy op d.face :=
  c.face _ (fun _ => rfl) fun _ => rfl

/-- The text of a value, with a bound that leaves room for its contents. -/
theorem displayTo_eq {n : Nat} (c : h.Carries v d) (enough : d.depth ≤ n) : h.displayTo n v = d.text := by
  induction d generalizing v n with
  | array ds ih =>
    obtain ⟨ref, rfl, -, items⟩ := c.of_array
    cases n with
    | zero => cases enough
    | succ n =>
      rw [Datum.depth_array_le] at enough
      rw [displayTo_array, Datum.text, Datum.textsOfItems_eq, map_eq_of_forall₂ items]
      intro w _ d among carried
      rw [carried.isNullish, ih d among carried (enough d among)]
  | object fs =>
    obtain ⟨ref, rfl, -⟩ := c.of_object
    cases n <;> rfl
  | function _ => cases c.inert
  | _ =>
    rw [c.of_face rfl]
    cases n <;> rfl

theorem display (c : h.Carries v d) : h.display v = d.text := by
  rw [← display_eq c.grounded (n := h.arrays.size + 1 + d.depth) (by omega)]
  exact c.displayTo_eq (Nat.le_add_left ..)

theorem toNumber (c : h.Carries v d) : h.toNumber v = d.toNumber := by
  cases d with
  | array ds =>
    obtain ⟨ref, rfl, -, items⟩ := c.of_array
    rw [Heap.toNumber]
    generalize (h.array ref).toList = vs at items
    cases items with
    | nil => rfl
    | cons first rest =>
      cases rest with
      | nil => exact congrArg numberOfText first.display
      | cons _ _ => rfl
  | object fs =>
    obtain ⟨ref, rfl, -⟩ := c.of_object
    rfl
  | _ =>
    rw [c.of_face rfl]
    rfl

/-! ### Operators -/

theorem unaryOp (c : h.Carries v d) (op : UnaryOp) : h.Carries (unaryOp h op v) (.unary op d) := by
  cases op with
  | neg =>
    rw [Script.unaryOp, c.toNumber]
    exact number _
  | plus =>
    rw [Script.unaryOp, c.toNumber]
    exact number _
  | not =>
    rw [Script.unaryOp, c.truthy]
    exact bool _
  | typeof =>
    rw [Script.unaryOp, c.typeName]
    exact string _

end Carries

/-- How two numbers compare. -/
def orderOf (x y : Float) : Option Ordering :=
  if x < y then some .lt else if x == y then some .eq else if y < x then some .gt else none

theorem order?_eq (h : Heap) (a b : Value) : h.order? a b =
    match a.text?, b.text? with
    | some s, some t => some (compare s t)
    | _, _ => orderOf (h.toNumber a) (h.toNumber b) := by
  cases a with
  | string s => cases b <;> rfl
  | _ => rfl

namespace Carries

variable {w : Value} {e : Datum} {op : BinaryOp}

theorem toNumber_operand (other : op ≠ .add) (d : Datum) : ({} : Heap).toNumber (d.operand op) = d.toNumber := by
  cases op with
  | add => exact absurd rfl other
  | _ => cases d <;> rfl

theorem text?_operand (other : op ≠ .add) (d : Datum) : (d.operand op).text? = d.face.text? := by
  cases op with
  | add => exact absurd rfl other
  | _ => cases d <;> rfl

theorem order? (c : h.Carries v d) (c' : h.Carries w e) (op : BinaryOp) (other : op ≠ .add) :
    h.order? v w = ({} : Heap).order? (d.operand op) (e.operand op) := by
  rw [order?_eq, order?_eq, text?_operand other, text?_operand other, toNumber_operand other, toNumber_operand other,
    c.toNumber, c'.toNumber, c.face Value.text? (fun _ => rfl) fun _ => rfl,
    c'.face Value.text? (fun _ => rfl) fun _ => rfl]

/-- A sum is a text if one of the operands is textual. -/
theorem add (c : h.Carries v d) (c' : h.Carries w e) :
    binaryOp h .add v w = binaryOp {} .add (d.operand .add) (e.operand .add) := by
  have textual : ∀ d : Datum, (d.operand .add).isTextual = d.face.isTextual := by
    intro d
    by_cases is : d.face.isTextual = true
    · rw [Datum.operand, if_pos is, is]
      rfl
    · rw [Datum.operand, if_neg is]
  have text : ∀ d : Datum, ({} : Heap).display (d.operand .add) = d.text := by
    intro d
    by_cases is : d.face.isTextual = true
    · rw [Datum.operand, if_pos is]
      rfl
    · rw [Datum.operand, if_neg is]
      cases d with
      | array ds => exact absurd rfl is
      | _ => rfl
  have number : ∀ d : Datum, d.face.isTextual = false → ({} : Heap).toNumber (d.operand .add) = d.toNumber := by
    intro d no
    rw [Datum.operand, if_neg (Bool.eq_false_iff.1 no)]
    cases d with
    | array ds => cases no
    | _ => rfl
  simp only [binaryOp, textual, text, c.isTextual, c'.isTextual, c.display, c'.display, c.toNumber, c'.toNumber]
  by_cases is : (d.face.isTextual || e.face.isTextual) = true
  · rw [if_pos is, if_pos is]
  · rw [if_neg is, if_neg is]
    obtain ⟨first, second⟩ := Bool.or_eq_false_iff.1 (Bool.eq_false_iff.2 is)
    rw [number d first, number e second]

theorem binaryOp (c : h.Carries v d) (c' : h.Carries w e) (contents : op.isEquality = false)
    (decided : BinaryOp.isLogical op = false) : h.Carries (binaryOp h op v w) (.binary op d e) := by
  have same : Script.binaryOp h op v w = Script.binaryOp {} op (d.operand op) (e.operand op) := by
    cases op with
    | eq | notEq | strictEq | strictNotEq => cases contents
    | and | or | nullish => cases decided
    | add => exact c.add c'
    | sub | mul | div | mod | pow =>
      simp only [Script.binaryOp, c.toNumber, c'.toNumber, toNumber_operand, ne_eq, reduceCtorEq, not_false_eq_true]
    | lt => simp only [Script.binaryOp, c.order? c' .lt (by decide)]
    | gt => simp only [Script.binaryOp, c.order? c' .gt (by decide)]
    | le => simp only [Script.binaryOp, c.order? c' .le (by decide)]
    | ge => simp only [Script.binaryOp, c.order? c' .ge (by decide)]
  rw [same, Datum.binary]
  cases op with
  | eq | notEq | strictEq | strictNotEq => cases contents
  | and | or | nullish => cases decided
  | add =>
    simp only [Script.binaryOp]
    split
    · exact string _
    · exact number _
  | sub | mul | div | mod | pow => exact number _
  | lt | gt | le | ge => exact bool _

/-! ### Properties -/

theorem of_mem {r : Record Value} {fs : List (String × Datum)} (fields : h.CarriesFields r fs) (key : String) :
    h.Carries ((r.get? key).getD .undefined) ((Record.get? fs key).getD .undefined) := by
  induction fields with
  | nil => exact undefined
  | @cons x f r fs first _ ih =>
    obtain ⟨name, v⟩ := x
    obtain ⟨name', d⟩ := f
    obtain ⟨rfl, carried⟩ := first
    by_cases here : name = key
    · rw [Record.get?, if_pos here, Record.get?, if_pos here]
      exact carried
    · rw [Record.get?, if_neg here, Record.get?, if_neg here]
      exact ih

theorem property (c : h.Carries v d) (key : String) : h.Carries (h.property v key) (d.property key) := by
  cases d with
  | array ds =>
    obtain ⟨ref, rfl, -, items⟩ := c.of_array
    rw [Heap.property, Datum.property]
    split
    · rw [← Array.length_toList, items.length_eq]
      exact number _
    · cases indexOfKey? key with
      | none => exact undefined
      | some i =>
        simp only [Option.bind_some, ← Array.getElem?_toList]
        obtain ⟨none, none'⟩ | ⟨w, e, some, some', carried⟩ := getElem?_of_forall₂ items i
        · rw [none, none']
          exact undefined
        · rw [some, some']
          exact carried
  | string s =>
    obtain rfl := c.of_face rfl
    rw [Datum.face, Heap.property, Datum.property]
    split
    · exact number _
    · cases (indexOfKey? key).bind (s.toList[·]?) with
      | none => exact undefined
      | some x => exact string _
  | object fs =>
    obtain ⟨ref, rfl, -, -, fields⟩ := c.of_object
    exact of_mem fields key
  | function _ => cases c.inert
  | _ =>
    obtain rfl := c.of_face rfl
    exact undefined

end Carries

/-- A field that is written is the datum that is written. -/
theorem CarriesFields.put {r : Record Value} {fs : List (String × Datum)} (fields : h.CarriesFields r fs)
    (c : h.Carries v d) (key : String) : h.CarriesFields (r.put key v) (Record.put fs key d) := by
  induction fields with
  | nil => exact .cons ⟨rfl, c⟩ .nil
  | @cons x f r fs first rest ih =>
    obtain ⟨name, w⟩ := x
    obtain ⟨name', e⟩ := f
    obtain ⟨rfl, carried⟩ := first
    by_cases here : name = key
    · rw [Record.put, if_pos here, Record.put, if_pos here]
      exact .cons ⟨rfl, c⟩ rest
    · rw [Record.put, if_neg here, Record.put, if_neg here]
      exact .cons ⟨rfl, carried⟩ ih

theorem CarriesFields.extend {r : Record Value} {fs : List (String × Datum)} (fields : h.CarriesFields r fs)
    (more : h.Extends t) : t.CarriesFields r fs :=
  fields.imp fun _ _ carried => ⟨carried.1, carried.2.extend more⟩

end Heap

/-- Writing an entry leaves the names distinct. -/
theorem nodup_names_put {α : Type} {r : Record α} (distinct : r.names.Nodup) (key : String) (a : α) :
    (r.put key a).names.Nodup := by
  by_cases there : key ∈ r.names
  · rwa [Record.names_put_of_mem a there]
  · rw [Record.put_of_notMem a there, Record.names, List.map_append]
    refine List.nodup_append.2 ⟨distinct, List.nodup_singleton _, fun n inside m new same => ?_⟩
    obtain rfl : m = key := List.mem_singleton.1 new
    exact there (same ▸ inside)

end Staging.Script
