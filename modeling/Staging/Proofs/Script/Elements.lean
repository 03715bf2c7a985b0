import Staging.Proofs.Number.ReadBack
import Staging.Proofs.Outcome
import Staging.Script.Property

/-!
Elements of arrays and texts.

An element stands under the decimal text of its index. Digits without a leading zero are the decimal text of the number
they denote (`Number.toDigits_digitsValue`), so a key without a sign denotes an index when it is its decimal text
(`indexOfKey?_unsigned`). A key may also have a plus sign with any digits after it (`indexOfKey?_signed`). It is the
decimal text of nothing then, and an element is found under it all the same (`signed_key_found`).

For keys without a sign, `elements_under_decimal_keys` says what is read under a key of an array or a text, and what
writing under a key of an array does.
-/

namespace Staging.Number

/-! ### Decimal texts -/

theorem digitChar_of_isDigit {c : Char} (digit : c.isDigit = true) : Nat.digitChar (c.toNat - 48) = c := by
  have bounds := digit_bounds digit
  apply Char.toNat_inj.1
  rw [Nat.toNat_digitChar_of_lt_ten (by omega)]
  omega

/-- Digits that do not begin with a zero, a single one apart. -/
def Canonical (ds : List Char) : Prop := ds ≠ [] ∧ ∀ rest, ds = '0' :: rest → rest = []

/-- **Digits without a leading zero are the decimal text of the number they denote.** -/
theorem toDigits_digitsValue {ds : List Char} (digits : ∀ c ∈ ds, c.isDigit = true) (canonical : Canonical ds) :
    Nat.toDigits 10 (digitsValue ds) = ds := by
  induction ds using List.reverseRecOn with
  | nil => exact absurd rfl canonical.1
  | append_singleton ds c ih =>
    have last : c.isDigit = true := digits c (by simp)
    have bounds := digit_bounds last
    rw [digitsValue_snoc]
    cases ds with
    | nil =>
      have single : Nat.toDigits 10 (c.toNat - 48) = [c] := by
        rw [Nat.toDigits_of_lt_base (by omega), digitChar_of_isDigit last]
      simpa [digitsValue] using single
    | cons d rest =>
      have before : Nat.toDigits 10 (digitsValue (d :: rest)) = d :: rest := by
        refine ih (fun x inside => digits x (List.mem_append_left _ inside)) ⟨by simp, ?_⟩
        rintro _ ⟨⟩
        simpa using canonical.2 (rest ++ [c]) rfl
      have positive : 0 < digitsValue (d :: rest) := by
        refine Nat.pos_of_ne_zero fun zero => ?_
        rw [zero, Nat.toDigits_zero] at before
        obtain ⟨rfl, rfl⟩ := List.cons.inj before
        simpa using canonical.2 [c] rfl
      have split := Nat.toDigits_append_toDigits (b := 10) (n := digitsValue (d :: rest)) (d := c.toNat - 48)
        (by decide) positive (by omega)
      rw [before, Nat.toDigits_of_lt_base (by omega), digitChar_of_isDigit last] at split
      exact split.symm

theorem canonical_toDigits (n : Nat) : Canonical (Nat.toDigits 10 n) := by
  refine ⟨Nat.toDigits_ne_nil, ?_⟩
  induction n using Nat.strongRecOn with
  | ind n ih =>
    intro rest zero
    rw [Nat.toDigits_eq_if (by decide)] at zero
    split at zero
    · exact (List.cons.inj zero).2.symm
    · obtain ⟨d, ds, begins⟩ := List.exists_cons_of_ne_nil (Nat.toDigits_ne_nil (b := 10) (n := n / 10))
      rw [begins] at zero
      obtain ⟨rfl, rfl⟩ := List.cons.inj zero
      obtain rfl := ih (n / 10) (by omega) ds begins
      have value : digitsValue (Nat.toDigits 10 (n / 10)) = n / 10 := Nat.ofDigitChars_ten_toDigits
      rw [begins] at value
      have none : digitsValue ['0'] = 0 := rfl
      omega

end Staging.Number

namespace Staging.Script

open Number

theorem toList_toString (i : Nat) : (toString i).toList = Nat.toDigits 10 i := by
  rw [Nat.toString_eq_repr, Nat.toList_repr]

theorem toString_injective {i j : Nat} (same : toString i = toString j) : i = j := by
  have digits := congrArg (fun text => digitsValue text.toList) same
  simp only [toList_toString] at digits
  calc i = digitsValue (Nat.toDigits 10 i) := Nat.ofDigitChars_ten_toDigits.symm
    _ = digitsValue (Nat.toDigits 10 j) := digits
    _ = j := Nat.ofDigitChars_ten_toDigits

/-! ### Keys that denote indices -/

/-- The index that digits denote, with zeros in front or not. -/
def indexOfDigits? (ds : List Char) : Option Nat :=
  if ds.isEmpty || !ds.all Char.isDigit then none
  else if digitsValue ds < Nat.pow 2 64 then some (digitsValue ds) else none

theorem indexOfDigits?_eq_some_iff {ds : List Char} {i : Nat} :
    indexOfDigits? ds = some i ↔ (ds ≠ [] ∧ ∀ c ∈ ds, c.isDigit = true) ∧ digitsValue ds = i ∧ i < 2 ^ 64 := by
  unfold indexOfDigits?
  split
  · rename_i refused
    simp only [reduceCtorEq, false_iff]
    rintro ⟨⟨nonempty, digits⟩, -⟩
    simp [nonempty, List.all_eq_true.2 digits] at refused
  · rename_i digits
    have digits : ds ≠ [] ∧ ∀ c ∈ ds, c.isDigit = true := by simpa using digits
    split
    · rename_i small
      constructor
      · rintro ⟨⟩
        exact ⟨digits, rfl, small⟩
      · rintro ⟨-, rfl, -⟩
        rfl
    · rename_i large
      simp only [reduceCtorEq, false_iff]
      rintro ⟨-, rfl, small⟩
      exact large small

/-- A key with a plus sign denotes what the digits after the sign do. -/
theorem indexOfKey?_signed {key : String} {ds : List Char} (signed : key.toList = '+' :: ds) :
    indexOfKey? key = indexOfDigits? ds := by
  unfold indexOfKey?
  rw [signed]
  rfl

/-- With a sign a key is the decimal text of nothing. -/
theorem ne_toString_of_signed {key : String} {ds : List Char} (signed : key.toList = '+' :: ds) (i : Nat) :
    key ≠ toString i := by
  rintro rfl
  rw [toList_toString] at signed
  have digit : '+'.isDigit = true := List.all_eq_true.1 (isDigit_toDigits i) _ (signed ▸ List.mem_cons_self)
  cases digit

/-- A key that is empty, or longer than its leading zero, denotes nothing. -/
theorem indexOfKey?_of_not_canonical {key : String} (spare : ¬ Canonical key.toList) : indexOfKey? key = none := by
  unfold indexOfKey?
  split
  · rfl
  · rfl
  · rename_i nonempty shorter
    refine absurd ⟨nonempty, ?_⟩ spare
    intro rest zero
    cases rest with
    | nil => rfl
    | cons c rest => exact absurd zero (shorter c rest)

theorem indexOfKey?_canonical {key : String} (unsigned : key.toList.head? ≠ some '+') (canonical : Canonical key.toList) :
    indexOfKey? key = indexOfDigits? key.toList := by
  unfold indexOfKey?
  split
  · rename_i empty
    exact absurd empty canonical.1
  · rename_i c rest zero
    cases canonical.2 _ zero
  · split
    · rename_i rest signed
      exact absurd (by rw [signed]; rfl) unsigned
    · rfl

/-- **A key without a sign denotes an index when it is the decimal text of the index.** -/
theorem indexOfKey?_unsigned {key : String} (unsigned : key.toList.head? ≠ some '+') {i : Nat} :
    indexOfKey? key = some i ↔ key = toString i ∧ i < 2 ^ 64 := by
  have text : key = toString i ↔ key.toList = Nat.toDigits 10 i := by
    rw [← toList_toString, String.toList_inj]
  have value : digitsValue (Nat.toDigits 10 i) = i := Nat.ofDigitChars_ten_toDigits
  rw [text]
  by_cases canonical : Canonical key.toList
  · rw [indexOfKey?_canonical unsigned canonical, indexOfDigits?_eq_some_iff]
    constructor
    · rintro ⟨⟨-, digits⟩, rfl, small⟩
      exact ⟨(toDigits_digitsValue digits canonical).symm, small⟩
    · rintro ⟨same, small⟩
      rw [same]
      exact ⟨⟨Nat.toDigits_ne_nil, List.all_eq_true.1 (isDigit_toDigits i)⟩, value, small⟩
  · rw [indexOfKey?_of_not_canonical canonical]
    simp only [reduceCtorEq, false_iff]
    rintro ⟨same, -⟩
    exact canonical (same ▸ canonical_toDigits i)

/-! ### Reading elements -/

/-- The elements that a value is made of: the items of an array, the characters of a text. -/
def Heap.elements? (h : Heap) : Value → Option (List Value)
  | .array ref => some (h.array ref).toList
  | .string s => some (charValues s)
  | _ => none

/-- Under a key other than `length` stands the element with the index that the key denotes, if there is one. -/
theorem getProperty_elements {s : State} {t : Value} {es : List Value} (made : s.elements? t = some es) {key : String}
    (other : key ≠ "length") :
    getProperty t key s = .ok (((indexOfKey? key).bind (es[·]?)).getD .undefined) s := by
  cases t with
  | array ref =>
    obtain rfl := Option.some.inj made
    show EStateM.Result.ok (s.toHeap.property (.array ref) key) s = _
    simp [Heap.property, other]
  | string text =>
    obtain rfl := Option.some.inj made
    show EStateM.Result.ok (s.toHeap.property (.string text) key) s = _
    simp [Heap.property, other, charValues, Option.map_bind]
  | _ => cases made

/-! ### Writing items -/

/-- An array with an item written: where it is too short it grows, and the new items are `undefined`. -/
def store (items : Array Value) (i : Nat) (v : Value) : Array Value :=
  (if items.size ≤ i then resize items (i + 1) else items).setIfInBounds i v

theorem getElem?_resize {items : Array Value} {n : Nat} (grows : items.size < n) (j : Nat) : (resize items n)[j]? =
    if j < items.size then items[j]? else if j < n then some .undefined else none := by
  have longer : ¬ n ≤ items.size := by omega
  rw [resize, if_neg longer, Array.getElem?_append, Array.getElem?_replicate]
  grind

theorem size_resize {items : Array Value} {n : Nat} (grows : items.size < n) : (resize items n).size = n := by
  have longer : ¬ n ≤ items.size := by omega
  rw [resize, if_neg longer, Array.size_append, Array.size_replicate]
  omega

theorem size_store (items : Array Value) (i : Nat) (v : Value) : (store items i v).size = max items.size (i + 1) := by
  rw [store, Array.size_setIfInBounds]
  by_cases short : items.size ≤ i
  · rw [if_pos short, size_resize (by omega)]
    omega
  · rw [if_neg short]
    omega

theorem getElem?_store (items : Array Value) (i j : Nat) (v : Value) : (store items i v)[j]? =
    if j = i then some v else if j < items.size then items[j]? else if j < i then some .undefined else none := by
  rw [store, Array.getElem?_setIfInBounds]
  by_cases short : items.size ≤ i
  · rw [if_pos short, size_resize (by omega), getElem?_resize (by omega)]
    grind
  · rw [if_neg short]
    grind

/-- In the second state the array has the item, and all else is as in the first one. -/
structure State.ItemWritten (s s' : State) (ref i : Nat) (v : Value) : Prop where
  here : (s'.array ref)[i]? = some v
  size : (s'.array ref).size = max (s.array ref).size (i + 1)
  between : ∀ j, (s.array ref).size ≤ j → j < i → (s'.array ref)[j]? = some .undefined
  others : ∀ j, j ≠ i → j < (s.array ref).size → (s'.array ref)[j]? = (s.array ref)[j]?
  elsewhere : ∀ other, other ≠ ref → s'.arrays[other]? = s.arrays[other]?
  arrays : s'.arrays.size = s.arrays.size
  objects : s'.objects = s.objects
  functions : s'.functions = s.functions
  frames : s'.frames = s.frames
  depth : s'.depth = s.depth

/-- The state after an item was written. -/
def State.storing (s : State) (ref i : Nat) (v : Value) : State :=
  { s.toHeap.modifyArray ref (store · i v) with depth := s.depth }

theorem State.itemWritten_storing {s : State} {ref : Nat} (there : ref < s.arrays.size) (i : Nat) (v : Value) :
    s.ItemWritten (s.storing ref i v) ref i v := by
  have written : (s.storing ref i v).array ref = store (s.array ref) i v := by
    simp [State.storing, Heap.modifyArray, Heap.array, Array.getElem_modify_self, there]
  constructor
  case here => simp [written, getElem?_store]
  case size => rw [written, size_store]
  case between =>
    intro j new before
    rw [written, getElem?_store, if_neg (by omega), if_neg (by omega), if_pos before]
  case others =>
    intro j other old
    rw [written, getElem?_store, if_neg other, if_pos old]
  case elsewhere =>
    intro other different
    simp [State.storing, Heap.modifyArray, Array.getElem?_modify, different.symm]
  case arrays => simp [State.storing, Heap.modifyArray]
  all_goals rfl

/-- Writing under a key other than `length` succeeds for an index that an array can have. -/
theorem setProperty_array_ok_iff {ref : Nat} {key : String} (other : key ≠ "length") {v : Value} {s s' : State} :
    setProperty (.array ref) key v s = .ok () s' ↔
      ∃ i < maxArrayLength, indexOfKey? key = some i ∧ s' = s.storing ref i v := by
  simp only [setProperty, if_neg other]
  cases indexOfKey? key with
  | none => simp [raise, throw, throwThe, MonadExceptOf.throw, EStateM.throw]
  | some n =>
    by_cases large : maxArrayLength ≤ n
    · simp only [if_pos large]
      constructor
      · rintro ⟨⟩
      · rintro ⟨i, small, ⟨⟩, -⟩
        exact absurd large (Nat.not_le.2 small)
    · simp only [if_neg large]
      constructor
      · rintro ⟨⟩
        exact ⟨n, Nat.lt_of_not_le large, rfl, rfl⟩
      · rintro ⟨i, -, ⟨⟩, rfl⟩
        rfl

/-- Where writing under a key of an array fails, nothing has changed. -/
theorem setProperty_array_error {ref : Nat} {key : String} {v : Value} {e : Fault} {s s' : State} (other : key ≠ "length")
    (failed : setProperty (.array ref) key v s = .error e s') : s' = s := by
  simp only [setProperty, if_neg other] at failed
  generalize indexOfKey? key = index at failed
  cases index with
  | none =>
    cases failed
    rfl
  | some i =>
    by_cases large : maxArrayLength ≤ i
    · simp only [if_pos large] at failed
      cases failed
      rfl
    · simp only [if_neg large] at failed
      cases failed

/--
**Elements stand under decimal texts only.** Reading a key of an array or a text gives the element with the index that
the key is the decimal text of, and `undefined` if there is none. Writing a key of an array succeeds when it is the
decimal text of an index within the limit; then the item is there, the array is long enough for it, new items before it
are `undefined`, and nothing else has changed. Where writing fails nothing has changed at all.

Keys with a plus sign are left out, and so is `length`. An index is a number of 64 bits.
-/
theorem elements_under_decimal_keys {key : String} (unsigned : key.toList.head? ≠ some '+') (other : key ≠ "length")
    (s : State) :
    (∀ (t : Value) (es : List Value), s.elements? t = some es → es.length ≤ 2 ^ 64 →
      (∀ (i : Nat) (v : Value), es[i]? = some v → key = toString i → getProperty t key s = .ok v s) ∧
      ((∀ i < es.length, key ≠ toString i) → getProperty t key s = .ok .undefined s)) ∧
    ∀ ref v, ref < s.arrays.size →
      ((∃ s', setProperty (.array ref) key v s = .ok () s') ↔ ∃ i < maxArrayLength, key = toString i) ∧
      (∀ i s', key = toString i → setProperty (.array ref) key v s = .ok () s' → s.ItemWritten s' ref i v) ∧
      ∀ e s', setProperty (.array ref) key v s = .error e s' → s' = s := by
  have limit : maxArrayLength ≤ 2 ^ 64 := by decide
  constructor
  · intro t es made bounded
    rw [getProperty_elements made other]
    constructor
    · intro i v element is
      have inside : i < es.length := (List.getElem?_eq_some_iff.1 element).1
      rw [(indexOfKey?_unsigned unsigned).2 ⟨is, by omega⟩, Option.bind_some, element]
      rfl
    · intro absent
      cases denotes : indexOfKey? key with
      | none => rfl
      | some i =>
        have is := ((indexOfKey?_unsigned unsigned).1 denotes).1
        have outside : es.length ≤ i := Nat.le_of_not_lt fun inside => absent i inside is
        rw [Option.bind_some, List.getElem?_eq_none outside]
        rfl
  · intro ref v there
    refine ⟨⟨?_, ?_⟩, ?_, fun e s' => setProperty_array_error other⟩
    · rintro ⟨s', wrote⟩
      obtain ⟨i, small, denotes, -⟩ := (setProperty_array_ok_iff other).1 wrote
      exact ⟨i, small, ((indexOfKey?_unsigned unsigned).1 denotes).1⟩
    · rintro ⟨i, small, is⟩
      have denotes := (indexOfKey?_unsigned unsigned).2 ⟨is, by omega⟩
      exact ⟨_, (setProperty_array_ok_iff other).2 ⟨i, small, denotes, rfl⟩⟩
    · intro i s' is wrote
      obtain ⟨n, small, denotes, rfl⟩ := (setProperty_array_ok_iff other).1 wrote
      obtain rfl : i = n := toString_injective (is.symm.trans ((indexOfKey?_unsigned unsigned).1 denotes).1)
      exact State.itemWritten_storing there i v

/-- An array with one item. -/
def oneItem : State where
  arrays := #[#[.string "a"]]

/-- The last character of a text, and an item that is two places behind the last one. -/
theorem elements_under_decimal_keys_growing :
    getProperty (.string "aéb") "2" oneItem = .ok (.string "b") oneItem ∧
    ∃ s', setProperty (.array 0) "2" .null oneItem = .ok () s' ∧ oneItem.ItemWritten s' 0 2 .null := by
  have unsigned : "2".toList.head? ≠ some '+' := by decide
  obtain ⟨reads, writes⟩ := elements_under_decimal_keys unsigned (by decide) oneItem
  obtain ⟨succeeds, written, -⟩ := writes 0 .null (by decide)
  obtain ⟨s', wrote⟩ := succeeds.2 ⟨2, by decide, rfl⟩
  refine ⟨?_, s', wrote, written 2 s' rfl wrote⟩
  exact (reads (.string "aéb") [.string "a", .string "é", .string "b"] rfl (by decide)).1 2 _ rfl rfl

/-- A character and an item are found under keys that are no decimal texts. -/
theorem signed_key_found :
    (getProperty (.string "ab") "+1" {} = .ok (.string "b") {} ∧ ∀ i < 2, "+1" ≠ toString i) ∧
    (∃ s', setProperty (.array 0) "+01" .null oneItem = .ok () s') ∧ ∀ i < maxArrayLength, "+01" ≠ toString i := by
  refine ⟨⟨rfl, fun i _ => ne_toString_of_signed rfl i⟩, ⟨_, rfl⟩, fun i _ => ne_toString_of_signed rfl i⟩

end Staging.Script
