import Mathlib.Algebra.Order.Floor.Semifield
import Mathlib.Data.Rat.Floor
import Staging.Proofs.Number.Whole
import Staging.Proofs.Text.Search
import Staging.Script.Run

/-!
Methods of texts.

Splitting a text and joining its parts again gives the text (`join_split`). Searching it, cutting it off at a position and
asking what it begins with agree with each other (`searches_agree`): positions are numbers of a script, so the argument
goes through the position that a number denotes (`relativeIndex_of_value`).
-/

namespace Staging.Script

open Number

/-! ### Positions -/

/-- A number that is not below zero is cut to the whole number below it. -/
theorem value?_truncate {x : Float} {q : ℚ} (h : value? x = some q) (least : 0 ≤ q) :
    value? (truncate x) = some (⌊q⌋₊ : ℚ) := by
  obtain ⟨negative, mant, exp, seen, rfl⟩ := value?_eq_some_iff.1 h
  have power := zpow_two_pos exp
  -- a number with a sign that is not below zero is zero
  have signed : negative = true → mant = 0 := by
    rintro rfl
    by_contra some
    have : (0 : ℚ) < mant * 2 ^ exp := mul_pos (by exact_mod_cast Nat.pos_of_ne_zero some) power
    simp only [if_true] at least
    linarith
  unfold truncate
  rw [seen]
  by_cases whole : 0 ≤ exp
  · have natural : (if negative then -1 else 1) * (mant * 2 ^ exp : ℚ) = (mant * 2 ^ exp.toNat : ℕ) := by
      have power : (2 : ℚ) ^ exp = 2 ^ exp.toNat := by rw [← zpow_natCast, Int.toNat_of_nonneg whole]
      cases negative with
      | false => simp [power]
      | true => simp [signed rfl]
    simp only [if_pos whole]
    rw [h, natural, Nat.floor_natCast]
  · have below : mant / 2 ^ (-exp).toNat ≤ 2 ^ 53 := by
      refine (Nat.div_le_self _ _).trans ?_
      rcases Nat.eq_zero_or_pos mant with rfl | pos
      · exact Nat.zero_le _
      · exact (isDouble_of_view seen pos).lt.le
    have fraction : (mant * 2 ^ exp : ℚ) = mant / (2 ^ (-exp).toNat : ℕ) := by
      obtain ⟨k, rfl⟩ : ∃ k : ℕ, exp = -k := ⟨(-exp).toNat, by omega⟩
      rw [zpow_neg, zpow_natCast, neg_neg, Int.toNat_natCast, div_eq_mul_inv, Nat.cast_pow, Nat.cast_ofNat]
    simp only [if_neg whole, Nat.pow_eq]
    cases negative with
    | false =>
      simp only [Bool.false_eq_true, if_false, one_mul]
      rw [value?_ofNat below, fraction, Nat.floor_div_eq_div]
    | true =>
      simp only [if_true, signed rfl, Nat.zero_div]
      rw [value?_neg (value?_ofNat (Nat.zero_le _))]
      simp

/-- **The position that a number denotes**: the whole number below it, within bounds. -/
theorem relativeIndex_of_value {x : Float} {q : ℚ} (hx : value? x = some q) (least : 0 ≤ q) {length : ℕ}
    (bounded : length ≤ 2 ^ 53) (h : Heap) (default : ℕ) :
    relativeIndex h (.number x) length default = min ⌊q⌋₊ length := by
  have whole := value?_truncate hx least
  have size := value?_ofNat bounded
  have number := isNaN_of_value whole
  have notBelow : ¬ truncate x < 0.0 := by
    rw [lt_iff whole value?_zero]
    exact not_lt.2 (Nat.cast_nonneg _)
  show (if (truncate x).isNaN then 0 else if truncate x < 0.0 then _ else if Float.ofNat length < truncate x then length
    else (truncate x).toUInt64.toNat) = _
  rw [number, if_neg (by simp), if_neg notBelow]
  by_cases behind : length < ⌊q⌋₊
  · rw [if_pos ((lt_iff size whole).2 (by exact_mod_cast behind)), min_eq_right (by omega)]
  · rw [if_neg (mt (lt_iff size whole).1 (by exact_mod_cast behind)), min_eq_left (by omega)]
    exact toNat_toUInt64 whole (by omega)

/-! ### Methods -/

section

variable (ev : Evaluator) (st : State)

/-- A method gives a value and leaves the state as it is. -/
def Answers (target : Value) (key : String) (args : List Value) (v : Value) : Prop :=
  callMethod ev target key args st = .ok v st

/-- Whether the text, cut off at a position, begins with another. -/
def StartsAt (s t : String) (position : Float) (does : Bool) : Prop :=
  ∃ rest : String, Answers ev st (.string s) "slice" [.number position] (.string rest) ∧
    Answers ev st (.string rest) "startsWith" [.string t] (.bool does)

variable {ev st} {s t : String}

theorem answers_includes {found : Bool} :
    Answers ev st (.string s) "includes" [.string t] (.bool found) ↔ Text.contains t.toList s.toList = found := by
  constructor
  · rintro ⟨⟩
    rfl
  · rintro rfl
    rfl

theorem answers_indexOf : Answers ev st (.string s) "indexOf" [.string t]
    (.number (match Text.indexOf? t.toList s.toList with
      | some i => Float.ofNat i
      | none => -1.0)) := rfl

/-- **Cutting a text off at a position drops as many characters.** -/
theorem answers_slice {x : Float} {q : ℚ} (hx : value? x = some q) (least : 0 ≤ q) (bounded : s.length ≤ 2 ^ 53) :
    Answers ev st (.string s) "slice" [.number x] (.string (String.ofList (s.toList.drop ⌊q⌋₊))) := by
  have bounded : s.toList.length ≤ 2 ^ 53 := by rwa [String.length_toList]
  show EStateM.Result.ok (Value.string (String.ofList (sliceList s.toList
    (relativeIndex st.toHeap (.number x) s.toList.length 0) s.toList.length))) st = _
  rw [relativeIndex_of_value hx least bounded, sliceList]
  by_cases inside : ⌊q⌋₊ ≤ s.toList.length
  · rw [min_eq_left inside, List.take_of_length_le (by rw [List.length_drop])]
  · rw [min_eq_right (by omega), List.drop_length, List.take_nil, List.drop_eq_nil_of_le (by omega)]

theorem startsAt {x : Float} {q : ℚ} (hx : value? x = some q) (least : 0 ≤ q) (bounded : s.length ≤ 2 ^ 53) :
    StartsAt ev st s t x (t.toList.isPrefixOf (s.toList.drop ⌊q⌋₊)) := by
  refine ⟨_, answers_slice hx least bounded, ?_⟩
  show EStateM.Result.ok (Value.bool (t.toList.isPrefixOf (String.ofList _).toList)) st = _
  rw [String.toList_ofList]

end

/--
**Searching a text agrees with cutting it off.** What `indexOf` gives is minus one exactly where `includes` says no.
Otherwise it is the number of characters before the first occurrence: cut off there, and at no number below it, the text
begins with the other one. Cutting off at a whole number drops as many characters.

Numbers count exactly up to `2 ^ 53`; a text is taken to have no more characters where its positions matter.
-/
theorem searches_agree (ev : Evaluator) (st : State) (s t : String) :
    ∃ i : Float, Answers ev st (.string s) "indexOf" [.string t] (.number i) ∧
      ((i == -1.0) = true ↔ Answers ev st (.string s) "includes" [.string t] (.bool false)) ∧
      (s.length ≤ 2 ^ 53 →
        ((i == -1.0) = false →
          (∃ before after : String, s = before ++ t ++ after ∧ i = Float.ofNat before.length) ∧
          StartsAt ev st s t i true ∧ ∀ j : Float, 0.0 ≤ j → j < i → StartsAt ev st s t j false) ∧
        ∀ n ≤ 2 ^ 53, Answers ev st (.string s) "slice" [.number (Float.ofNat n)]
          (.string (String.ofList (s.toList.drop n)))) := by
  have cut : s.length ≤ 2 ^ 53 → ∀ n ≤ 2 ^ 53, Answers ev st (.string s) "slice" [.number (Float.ofNat n)]
      (.string (String.ofList (s.toList.drop n))) := fun bounded n small => by
    simpa using answers_slice (value?_ofNat small) (Nat.cast_nonneg n) bounded
  refine ⟨_, answers_indexOf, ?_⟩
  rw [answers_includes]
  cases found : Text.indexOf? t.toList s.toList with
  | none =>
    have same : ((-1.0 : Float) == -1.0) = true := by rw [beq_iff value?_minusOne value?_minusOne]
    refine ⟨by simp [same, Text.contains_eq_isSome, found], fun bounded => ⟨fun other => ?_, cut bounded⟩⟩
    exact absurd (other.symm.trans same) (by decide)
  | some i =>
    obtain ⟨inside, here, first⟩ := Text.indexOf?_eq_some_iff.1 found
    refine ⟨by simp [beq_minusOne, Text.contains_eq_isSome, found], fun bounded => ⟨fun _ => ?_, cut bounded⟩⟩
    have counted : value? (Float.ofNat i) = some (i : ℚ) :=
      value?_ofNat (inside.trans (by rwa [String.length_toList]))
    refine ⟨?_, ?_, fun j least below => ?_⟩
    · obtain ⟨after, behind⟩ := here
      refine ⟨String.ofList (s.toList.take i), String.ofList after, ?_, ?_⟩
      · rw [← String.toList_inj]
        simp only [String.toList_append, String.toList_ofList, List.append_assoc, behind, List.take_append_drop]
      · rw [String.length_ofList, List.length_take, min_eq_left inside]
    · have starts : StartsAt ev st s t (Float.ofNat i) _ := startsAt counted (Nat.cast_nonneg i) bounded
      rwa [Nat.floor_natCast, List.isPrefixOf_iff_prefix.2 here] at starts
    · obtain ⟨q, number, positive, less⟩ := value?_of_between counted least below
      have earlier : ¬ t.toList <+: s.toList.drop ⌊q⌋₊ := first _ ((Nat.floor_lt positive).2 less)
      have starts : StartsAt ev st s t j _ := startsAt number positive bounded
      rwa [Bool.eq_false_iff.2 (mt List.isPrefixOf_iff_prefix.1 earlier)] at starts

/-- Two characters that take up six bytes stand before the first occurrence of the text. -/
theorem searches_agree_multibyte :
    let ev := evaluator Host.none 0
    let s := "n😀éa"
    Answers ev {} (.string s) "indexOf" [.string "éa"] (.number (Float.ofNat 2)) ∧
      StartsAt ev {} s "éa" (Float.ofNat 2) true ∧
      ∀ j : Float, 0.0 ≤ j → j < Float.ofNat 2 → StartsAt ev {} s "éa" j false := by
  obtain ⟨i, found, -, agree⟩ := searches_agree (evaluator Host.none 0) {} "n😀éa" "éa"
  obtain rfl : Float.ofNat 2 = i := by
    have there : Text.indexOf? "éa".toList "n😀éa".toList = some 2 := by decide
    have ran := found
    rw [Answers, answers_indexOf, there] at ran
    cases ran
    rfl
  obtain ⟨-, starts, before⟩ := (agree (by decide)).1 (beq_minusOne 2)
  exact ⟨found, starts, before⟩

/-! ### Splitting and joining -/

/-- The texts that the items of an array are. -/
theorem map_itemText_string (h : Heap) (texts : List String) : (texts.map Value.string).map h.itemText = texts := by
  rw [List.map_map]
  exact List.map_id texts

/-- **Joining an array of texts** puts the separator between them. -/
theorem join_texts {ev : Evaluator} {st : State} {ref : Nat} {sep : String} {texts : List String}
    (items : (st.array ref).toList = texts.map Value.string) :
    Answers ev st (.array ref) "join" [.string sep] (.string (sep.intercalate texts)) := by
  show EStateM.Result.ok (Value.string (sep.intercalate ((st.array ref).toList.map st.itemText))) st = _
  rw [items, map_itemText_string]

/-- The parts that splitting gives: the single characters where the separator is empty. -/
def splitParts (sep s : String) : List String :=
  if sep.toList.isEmpty then s.toList.map Char.toString else (Text.splitOn sep.toList s.toList).map String.ofList

/-- The parts make up the text when the separator is put between them. -/
theorem intercalate_splitParts (sep s : String) : sep.intercalate (splitParts sep s) = s := by
  rw [← String.toList_inj, String.toList_intercalate, splitParts]
  by_cases empty : sep.toList.isEmpty
  · rw [if_pos empty, List.isEmpty_iff.1 empty, List.map_map]
    induction s.toList with
    | nil => rfl
    | cons c rest ih =>
      cases rest with
      | nil => simp
      | cons d rest =>
        rw [List.map_cons, List.map_cons, List.intercalate_cons_cons, ← List.map_cons, ih]
        simp
  · have texts : ∀ parts : List (List Char), (parts.map String.ofList).map String.toList = parts := fun parts => by
      simp [Function.comp_def]
    rw [if_neg empty, texts]
    exact (Text.cut_splitOn (by simpa using empty) s.toList).intercalate

theorem not_infix_splitParts {sep s : String} (nonempty : sep ≠ "") :
    ∀ part ∈ splitParts sep s, ¬ sep.toList <:+: part.toList := by
  have nonempty : sep.toList ≠ [] := by rwa [Ne, String.toList_eq_nil_iff]
  rw [splitParts, if_neg (by simpa using nonempty), List.forall_mem_map]
  simpa using (Text.cut_splitOn nonempty s.toList).separatorFree nonempty

/-- **Splitting a text** puts its parts into a new array. -/
theorem split_eq (ev : Evaluator) (st : State) (s sep : String) :
    callMethod ev (.string s) "split" [.string sep] st = newArray ((splitParts sep s).map Value.string) st := by
  show (if sep.toList.isEmpty then newArray (charValues s)
    else newArray ((Text.splitOn sep.toList s.toList).map fun part => .string (String.ofList part)) : Eval Value) st = _
  rw [splitParts]
  split
  · rw [List.map_map]
    rfl
  · rw [List.map_map]
    rfl

/--
**Splitting and joining are inverse.** Splitting a text gives a new array, and joining that with the same separator gives
the text again, whatever the separator is. No part has a separator in it, unless the separator is empty.
-/
theorem join_split (ev : Evaluator) (st : State) (s sep : String) :
    ∃ ref st', callMethod ev (.string s) "split" [.string sep] st = .ok (.array ref) st' ∧
      Answers ev st' (.array ref) "join" [.string sep] (.string s) ∧
      ∀ part ∈ (st'.array ref).toList, ∃ text : String, part = .string text ∧ (sep ≠ "" → ¬ sep.toList <:+: text.toList) := by
  let parts := (splitParts sep s).map Value.string
  let st' : State := { (st.toHeap.newArray parts.toArray).2 with depth := st.depth }
  have items : (st'.array st.arrays.size).toList = parts := by
    show (((st.arrays.push parts.toArray)[st.arrays.size]?).getD #[]).toList = parts
    rw [Array.getElem?_push_size, Option.getD_some]
  refine ⟨st.arrays.size, st', split_eq ev st s sep, ?_, ?_⟩
  · have joined : Answers ev st' _ "join" [.string sep] _ := join_texts items
    rwa [intercalate_splitParts] at joined
  · rw [items, List.forall_mem_map]
    exact fun part there => ⟨part, rfl, fun nonempty => not_infix_splitParts nonempty part there⟩

end Staging.Script
