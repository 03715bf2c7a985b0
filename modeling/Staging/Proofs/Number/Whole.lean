import Mathlib.Tactic.FieldSimp
import Mathlib.Tactic.NormNum
import Mathlib.Tactic.Positivity
import Staging.Proofs.Number.ReadBack

/-!
Doubles as rational numbers, and the whole numbers among them.

A finite double is a rational number (`value?`), and doubles are ordered as these numbers are (`lt_iff`, `le_iff`). Whole
numbers up to `2 ^ 53` are doubles: `value?_ofNat` says that nothing is lost on the way there, and `toNat_toUInt64` that
nothing is lost on the way back.
-/

namespace Staging.Number

open Float.Model Float.Model.UnpackedFloat

/-! ### The number a double is -/

/-- The rational number that a view stands for, where it is finite. -/
def View.value? : View → Option ℚ
  | .finite negative mant exp => some ((if negative then -1 else 1) * (mant * 2 ^ exp))
  | _ => none

/-- The rational number that a double is, where it is finite. -/
def value? (x : Float) : Option ℚ := (view x).value?

theorem value?_eq_some_iff {x : Float} {q : ℚ} : value? x = some q ↔
    ∃ negative mant exp, view x = .finite negative mant exp ∧ (if negative then -1 else 1) * (mant * 2 ^ exp) = q := by
  unfold value?
  cases view x <;> simp [View.value?]

theorem value?_neg {x : Float} {q : ℚ} (h : value? x = some q) : value? (-x) = some (-q) := by
  obtain ⟨negative, mant, exp, seen, rfl⟩ := value?_eq_some_iff.1 h
  rw [value?, view_neg seen]
  cases negative <;> simp [View.value?]

/-- A finite double with a magnitude is in lowest terms, with a sign or without. -/
theorem isDouble_of_view {x : Float} {negative : Bool} {mant : ℕ} {exp : ℤ} (h : view x = .finite negative mant exp)
    (pos : 0 < mant) : IsDouble mant exp := by
  have unsigned : ∀ {y : Float}, view y = .finite false mant exp → IsDouble mant exp := fun {y} hy =>
    (viewBits_eq_finite y.toBits.toNat_lt hy).2.2 pos
  cases negative with
  | false => exact unsigned h
  | true => exact unsigned (view_neg h)

/-! ### Order -/

/-- Of two magnitudes the one with the larger exponent is the larger one, since mantissas fill up their places. -/
theorem magnitude_lt {m n : ℕ} {e f : ℤ} (hm : IsDouble m e) (hn : IsDouble n f) (lower : e < f) :
    (m : ℚ) * 2 ^ e < n * 2 ^ f := by
  have upper : (m : ℚ) < 2 ^ 53 := by exact_mod_cast hm.lt
  have normal : (2 : ℚ) ^ 52 ≤ n := by exact_mod_cast hn.normal (hm.minExp_le.trans_lt lower)
  have step : (2 : ℚ) ^ (e + 1) ≤ 2 ^ f := zpow_le_zpow_right₀ (by norm_num) lower
  calc (m : ℚ) * 2 ^ e < 2 ^ 53 * 2 ^ e := by gcongr
    _ = 2 ^ 52 * 2 ^ (e + 1) := by rw [zpow_add₀ (by norm_num)]; ring
    _ ≤ n * 2 ^ f := by gcongr

/-- Magnitudes are compared by their exponents first. -/
theorem compare_magnitude {m n : ℕ} {e f : ℤ} (hm : IsDouble m e) (hn : IsDouble n f) :
    (compare e f).then (compare m n) = compare ((m : ℚ) * 2 ^ e) (n * 2 ^ f) := by
  rcases lt_trichotomy e f with lower | rfl | higher
  · rw [compare_lt_iff_lt.2 lower, compare_lt_iff_lt.2 (magnitude_lt hm hn lower)]
    rfl
  · have scaled : compare ((m : ℚ) * 2 ^ e) (n * 2 ^ e) = compare m n := by
      have pos := zpow_two_pos e
      rcases lt_trichotomy m n with less | rfl | more
      · rw [compare_lt_iff_lt.2 less, compare_lt_iff_lt]
        gcongr
      · rw [compare_eq_iff_eq.2 rfl, compare_eq_iff_eq.2 rfl]
      · rw [compare_gt_iff_gt.2 more, compare_gt_iff_gt]
        gcongr
    rw [compare_eq_iff_eq.2 rfl, scaled]
    rfl
  · rw [compare_gt_iff_gt.2 higher, compare_gt_iff_gt.2 (magnitude_lt hn hm higher)]
    rfl

/-- The rational number that an unpacked number in lowest terms is. -/
inductive Stands : UnpackedFloat → ℚ → Prop
  | zero (s : Sign) : Stands (.zero s) 0
  | positive {mant : ℕ} {exp : ℤ} (h : IsDouble mant exp) : Stands (.finite .positive mant exp h.pos) (mant * 2 ^ exp)
  | negative {mant : ℕ} {exp : ℤ} (h : IsDouble mant exp) :
      Stands (.finite .negative mant exp h.pos) (-(mant * 2 ^ exp))

theorem stands_of_value {x : Float} {q : ℚ} (h : value? x = some q) : Stands x.toModel.unpack q := by
  obtain ⟨negative, mant, exp, hview, rfl⟩ := value?_eq_some_iff.1 h
  obtain ⟨rfl, s, hzero⟩ | ⟨s, pos, rfl, hfinite⟩ := unpack_of_view hview
  · rw [hzero, Nat.cast_zero, zero_mul, mul_zero]
    exact .zero s
  · have lowest := isDouble_of_view hview pos
    rw [hfinite]
    cases s with
    | positive => simpa [isMinus] using Stands.positive lowest
    | negative => simpa [isMinus] using Stands.negative lowest

theorem magnitude_pos {mant : ℕ} {exp : ℤ} (h : IsDouble mant exp) : (0 : ℚ) < mant * 2 ^ exp :=
  mul_pos (by exact_mod_cast h.pos) (zpow_two_pos exp)

theorem swap_compare_neg (p q : ℚ) : (compare p q).swap = compare (-p) (-q) := by
  rcases lt_trichotomy p q with less | rfl | more
  · rw [compare_lt_iff_lt.2 less, compare_gt_iff_gt.2 (neg_lt_neg less)]
    rfl
  · rw [compare_eq_iff_eq.2 rfl, compare_eq_iff_eq.2 rfl]
    rfl
  · rw [compare_gt_iff_gt.2 more, compare_lt_iff_lt.2 (neg_lt_neg more)]
    rfl

theorem compare_of_stands {u v : UnpackedFloat} {p q : ℚ} (hu : Stands u p) (hv : Stands v q) :
    u.compare v = some (compare p q) := by
  cases hu with
  | zero s =>
    cases hv with
    | zero t => rfl
    | positive hv => rw [compare_lt_iff_lt.2 (magnitude_pos hv)]; rfl
    | negative hv => rw [compare_gt_iff_gt.2 (neg_neg_of_pos (magnitude_pos hv))]; rfl
  | positive hu =>
    have pos := magnitude_pos hu
    cases hv with
    | zero t => rw [compare_gt_iff_gt.2 pos]; rfl
    | positive hv => exact congrArg some (compare_magnitude hu hv)
    | negative hv => rw [compare_gt_iff_gt.2 ((neg_neg_of_pos (magnitude_pos hv)).trans pos)]; rfl
  | negative hu =>
    have neg := neg_neg_of_pos (magnitude_pos hu)
    cases hv with
    | zero t => rw [compare_lt_iff_lt.2 neg]; rfl
    | positive hv => rw [compare_lt_iff_lt.2 (neg.trans (magnitude_pos hv))]; rfl
    | negative hv =>
      -- below zero the order of the magnitudes is turned around
      have swapped := congrArg (some ∘ Ordering.swap) (compare_magnitude hu hv)
      exact swapped.trans (congrArg some (swap_compare_neg _ _))

/-- **Finite doubles are compared as the numbers they are.** -/
theorem compare_of_value {x y : Float} {p q : ℚ} (hx : value? x = some p) (hy : value? y = some q) :
    x.toModel.unpack.compare y.toModel.unpack = some (compare p q) :=
  compare_of_stands (stands_of_value hx) (stands_of_value hy)

theorem isNaN_of_value {x : Float} {q : ℚ} (h : value? x = some q) : x.isNaN = false := by
  have stands := stands_of_value h
  show x.toModel.unpack.isNaN = false
  generalize x.toModel.unpack = u at stands ⊢
  cases stands <;> rfl

theorem lt_iff {x y : Float} {p q : ℚ} (hx : value? x = some p) (hy : value? y = some q) : x < y ↔ p < q := by
  have unfolded : x < y ↔ (x.toModel.unpack.compare y.toModel.unpack == some .lt) = true := decide_eq_true_iff
  rw [unfolded, compare_of_value hx hy, beq_iff_eq, Option.some.injEq, compare_lt_iff_lt]

theorem le_iff {x y : Float} {p q : ℚ} (hx : value? x = some p) (hy : value? y = some q) : x ≤ y ↔ p ≤ q := by
  have unfolded : x ≤ y ↔ (x.toModel.unpack.compare y.toModel.unpack).any (·.isLE) = true := decide_eq_true_iff
  rw [unfolded, compare_of_value hx hy, Option.any_some, Ordering.isLE_iff_ne_gt, compare_gt_iff_gt, not_lt]

theorem beq_iff {x y : Float} {p q : ℚ} (hx : value? x = some p) (hy : value? y = some q) :
    (x == y) = true ↔ p = q := by
  have unfolded : (x == y) = (x.toModel.unpack.compare y.toModel.unpack == some .eq) := rfl
  rw [unfolded, compare_of_value hx hy, beq_iff_eq, Option.some.injEq, compare_eq_iff_eq]

theorem value?_zero : value? 0.0 = some 0 := by
  simp [value?, view_zero, View.value?]

/-- Between zero and a finite double all doubles are finite. -/
theorem value?_of_between {x y : Float} {q : ℚ} (hy : value? y = some q) (least : 0.0 ≤ x) (less : x < y) :
    ∃ p, value? x = some p ∧ 0 ≤ p ∧ p < q := by
  have finite : ∃ p, value? x = some p := by
    have above : ((0.0 : Float).toModel.unpack.compare x.toModel.unpack).any (·.isLE) = true := decide_eq_true_iff.1 least
    have below : (x.toModel.unpack.compare y.toModel.unpack == some .lt) = true := decide_eq_true_iff.1 less
    have zero := stands_of_value value?_zero
    have other := stands_of_value hy
    generalize (0.0 : Float).toModel.unpack = u, (0 : ℚ) = z at above zero
    generalize y.toModel.unpack = v at below other
    unfold value?
    rw [view_eq]
    cases hx : x.toModel.unpack with
    | finite s m e pos => exact ⟨_, rfl⟩
    | zero s => exact ⟨_, rfl⟩
    | notANumber =>
      rw [hx] at below
      cases below
    | infinity s =>
      rw [hx] at below above
      cases s with
      | positive => cases other <;> cases below
      | negative => cases zero <;> cases above
  obtain ⟨p, hx⟩ := finite
  exact ⟨p, hx, (le_iff value?_zero hx).1 least, (lt_iff hx hy).1 less⟩

/-! ### Rounding what needs none -/

theorem log2_mul_pow {m : ℕ} (pos : 0 < m) (k : ℕ) : (m * 2 ^ k).log2 = m.log2 + k := by
  obtain ⟨lower, upper⟩ := (Nat.log2_eq_iff pos.ne').1 rfl
  rw [Nat.log2_eq_iff (by positivity)]
  constructor
  · rw [pow_add]
    gcongr
  · rw [add_right_comm, pow_add]
    gcongr

/-- What is in lowest terms stays where it is. -/
theorem targetExponent_eq {m : ℕ} {e : ℤ} (h : IsDouble m e) :
    Format.binary64.targetExponent (totalExponent m e) = e := by
  have least : Format.binary64.minExponent = minExp := rfl
  simp only [Format.targetExponent, totalExponent, least, Format.mantissaBits]
  have := h.minExp_le
  rcases this.lt_or_eq with normal | lowest
  · rw [log2_eq_52 (h.normal normal) h.lt]
    omega
  · have := (Nat.log2_lt h.pos.ne').2 h.lt
    omega

theorem repeat_shiftRightOne (m k : ℕ) :
    Nat.repeat ExtendedMantissa.shiftRightOne k ⟨m * 2 ^ k, false, false⟩ = ⟨m, false, false⟩ := by
  induction k generalizing m with
  | zero => simp [Nat.repeat]
  | succ k ih =>
    have twice : m * 2 ^ (k + 1) = 2 * m * 2 ^ k := by rw [pow_succ']; ring
    rw [Nat.repeat, twice, ih]
    simp [ExtendedMantissa.shiftRightOne]

/-- **A double is rounded to itself**, also where its mantissa has further zeros. -/
theorem roundWithAccuracy_eq {m : ℕ} {e : ℤ} (h : IsDouble m e) (s : Sign) (k : ℕ) :
    roundWithAccuracy Format.binary64 s (m * 2 ^ k) (e - k) .exact = .finite s m e h.pos := by
  have total : totalExponent (m * 2 ^ k) (e - k) = totalExponent m e := by
    simp only [totalExponent, log2_mul_pow h.pos]
    omega
  have shifted : shiftToTargetExponent Format.binary64 (m * 2 ^ k) (e - k) .exact = (⟨m, false, false⟩, e) := by
    have amount : (e - (e - k)).toNat = k := by omega
    have back : e - (k : ℤ) + k = e := by omega
    simp only [shiftToTargetExponent, total, targetExponent_eq h, shiftToExponent, amount, back]
    exact congrArg (·, e) (repeat_shiftRightOne m k)
  have still : shiftToTargetExponent Format.binary64 m e .exact = (⟨m, false, false⟩, e) := by
    simp only [shiftToTargetExponent, targetExponent_eq h, shiftToExponent, sub_self]
    exact congrArg₂ Prod.mk rfl (add_zero e)
  have rounded : ExtendedMantissa.roundedMantissa ⟨m, false, false⟩ = m := rfl
  simp only [roundWithAccuracy, shifted, rounded, still, dif_neg h.pos.ne']

/-- The bits of a positive double give it back. -/
theorem viewBits_of_isDouble {m : ℕ} {e : ℤ} (h : IsDouble m e)
    (bounded : (e - minExp).toNat * 2 ^ 52 + m < infinityBits) :
    viewBits ((e - minExp).toNat * 2 ^ 52 + m) = .finite false m e := by
  have upper := h.lt
  have infinite : infinityBits = 2047 * 2 ^ 52 := rfl
  unfold viewBits
  simp only [Nat.pow_eq]
  by_cases subnormal : m < 2 ^ 52
  · obtain rfl : e = minExp := by
      by_contra other
      exact absurd (h.normal (lt_of_le_of_ne h.minExp_le (Ne.symm other))) (Nat.not_le.2 subnormal)
    have field : ((minExp - minExp).toNat * 2 ^ 52 + m) / 2 ^ 52 % 2 ^ 11 = 0 := by omega
    have fraction : ((minExp - minExp).toNat * 2 ^ 52 + m) % 2 ^ 52 = m := by omega
    rw [field, fraction, if_neg (by decide), if_pos rfl, decide_eq_false (by omega)]
  · obtain ⟨k, offset⟩ : ∃ k : ℕ, e = minExp + k := ⟨(e - minExp).toNat, by have := h.minExp_le; omega⟩
    have places : (e - minExp).toNat = k := by omega
    rw [places] at bounded ⊢
    have field : (k * 2 ^ 52 + m) / 2 ^ 52 % 2 ^ 11 = k + 1 := by omega
    have fraction : (k * 2 ^ 52 + m) % 2 ^ 52 = m - 2 ^ 52 := by omega
    rw [field, fraction, if_neg (by omega), if_neg (by omega), decide_eq_false (by omega),
      Nat.add_sub_cancel' (Nat.not_lt.1 subnormal), Nat.add_sub_cancel, ← offset]

/-- Parts in lowest terms are found again in what they are packed into. -/
theorem unpack_pack {m : ℕ} {e : ℤ} (h : IsDouble m e) (bounded : (e - minExp).toNat * 2 ^ 52 + m < infinityBits) :
    (Float.Model.pack (.finite .positive m e h.pos)).unpack = .finite .positive m e h.pos := by
  have infinite : infinityBits = 2047 * 2 ^ 52 := rfl
  obtain ⟨b, bits⟩ : ∃ b : UInt64, b.toNat = (e - minExp).toNat * 2 ^ 52 + m :=
    ⟨UInt64.ofNat _, UInt64.toNat_ofNat_of_lt' (by rw [UInt64.size]; omega)⟩
  have parts : viewBits b.toNat = .finite false m e := bits ▸ viewBits_of_isDouble h bounded
  have valid : Format.binary64.Valid b.toBitVec :=
    ⟨fun all => absurd all (unpackExponent_ne ((viewBits_eq b.toBitVec).symm.trans parts))⟩
  obtain ⟨rfl, -⟩ | ⟨s, pos, sign, unpacked⟩ := unpack_of_view ((view_ofBits valid).trans parts)
  · exact absurd h.pos (Nat.lt_irrefl 0)
  · cases s with
    | negative => cases sign
    | positive =>
      have packed : Float.ofModel (Float.Model.pack (Float.ofBits b).toModel.unpack) = Float.ofBits b := ofBits_toBits _
      rw [unpacked] at packed
      exact (congrArg (·.toModel.unpack) packed).trans unpacked

/-! ### Whole numbers -/

/-- A whole number with up to 53 binary places, shifted until it fills them, is in lowest terms. -/
theorem exists_isDouble {n : ℕ} (pos : 0 < n) (below : n < 2 ^ 53) : ∃ k : ℕ, k ≤ 52 ∧ IsDouble (n * 2 ^ k) (-k) := by
  obtain ⟨lower, upper⟩ := (Nat.log2_eq_iff pos.ne').1 rfl
  have places : n.log2 ≤ 52 := Nat.le_of_lt_succ ((Nat.log2_lt pos.ne').2 below)
  obtain ⟨k, filled⟩ := Nat.exists_eq_add_of_le places
  refine ⟨k, by omega, by positivity, ?_, by rw [minExp]; omega, fun _ => ?_⟩
  · calc n * 2 ^ k < 2 ^ (n.log2 + 1) * 2 ^ k := by gcongr
      _ = 2 ^ 53 := by rw [← pow_add]; congr 1; omega
  · calc 2 ^ 52 = 2 ^ n.log2 * 2 ^ k := by rw [← pow_add, ← filled]
      _ ≤ n * 2 ^ k := by gcongr

theorem unpackedOfNat_eq {n k : ℕ} (pos : 0 < n) (h : IsDouble (n * 2 ^ k) (-k)) :
    UnpackedFloat.ofNat Format.binary64 n = .finite .positive (n * 2 ^ k) (-k) h.pos := by
  have total : totalExponent n 0 = totalExponent (n * 2 ^ k) (-k) := by
    simp only [totalExponent, log2_mul_pow pos]
    omega
  have amount : (- -(k : ℤ)).toNat = k := by omega
  have exact := roundWithAccuracy_eq h .positive 0
  rw [pow_zero, mul_one, Nat.cast_zero, sub_zero] at exact
  have positive : compare (n : ℤ) 0 = .gt := compare_gt_iff_gt.2 (by exact_mod_cast pos)
  simp only [UnpackedFloat.ofNat, UnpackedFloat.ofInt, UnpackedFloat.normalize, positive, Int.toNat_natCast,
    UnpackedFloat.round, total, targetExponent_eq h, decreaseExponent, amount, Nat.shiftLeft_eq, zero_sub, exact]

theorem view_ofNat_zero : view (Float.ofNat 0) = .finite false 0 minExp := by decide +kernel

/-- **Whole numbers up to `2 ^ 53` are doubles.** -/
theorem value?_ofNat {n : ℕ} (small : n ≤ 2 ^ 53) : value? (Float.ofNat n) = some (n : ℚ) := by
  rcases Nat.eq_zero_or_pos n with rfl | pos
  · simp [value?, view_ofNat_zero, View.value?]
  rcases small.eq_or_lt with rfl | below
  · have last : view (Float.ofNat (2 ^ 53)) = .finite false (2 ^ 52) 1 := by decide +kernel
    rw [value?, last]
    norm_num [View.value?]
  · obtain ⟨k, few, lowest⟩ := exists_isDouble pos below
    have infinite : infinityBits = 2047 * 2 ^ 52 := rfl
    have bounded : (-(k : ℤ) - minExp).toNat * 2 ^ 52 + n * 2 ^ k < infinityBits := by
      have := lowest.lt
      have offset : (-(k : ℤ) - minExp).toNat = 1074 - k := by rw [minExp]; omega
      rw [offset]
      omega
    have word : n.toUInt64.toNat = n := UInt64.toNat_ofNat_of_lt' (by rw [UInt64.size]; omega)
    have one : (Float.ofBits 0x3ff0000000000000).toModel.unpack = .finite .positive (2 ^ 52) (-52) (by decide) := rfl
    have product : Float.ofNat n = n.toUInt64.toFloat * Float.ofBits 0x3ff0000000000000 := by
      show Float.ofScientific n false 0 = _
      unfold Float.ofScientific
      rw [dif_pos ⟨below, Nat.zero_le _⟩]
      rfl
    have unpacked : (Float.ofNat n).toModel.unpack = .finite .positive (n * 2 ^ k) (-k) lowest.pos := by
      have factor : n.toUInt64.toFloat.toModel.unpack = .finite .positive (n * 2 ^ k) (-k) lowest.pos := by
        show (Float.Model.pack (UnpackedFloat.ofNat Format.binary64 n.toUInt64.toNat)).unpack = _
        rw [word, unpackedOfNat_eq pos lowest, unpack_pack lowest bounded]
      rw [product]
      show (Float.Model.pack (UnpackedFloat.mul Format.binary64 _ _)).unpack = _
      rw [factor, one]
      show (Float.Model.pack (roundWithAccuracy Format.binary64 .positive _ (-(k : ℤ) - (52 : ℕ)) .exact)).unpack = _
      rw [roundWithAccuracy_eq lowest, unpack_pack lowest bounded]
    rw [value?, view_eq, unpacked]
    simp only [viewOf, View.value?, isMinus, Option.some.injEq]
    push_cast
    rw [zpow_neg, zpow_natCast]
    field_simp

/-- **The whole number that a double is, is found in it again.** -/
theorem toNat_toUInt64 {x : Float} {n : ℕ} (h : value? x = some (n : ℚ)) (small : n < 2 ^ 64) : x.toUInt64.toNat = n := by
  have whole : toInt 0 (UInt64.size - 1) x.toModel.unpack = n := by
    have stands := stands_of_value h
    generalize value : (n : ℚ) = q, x.toModel.unpack = u at stands ⊢
    cases stands with
    | zero s =>
      have none : n = 0 := by exact_mod_cast value
      rw [none]
      rfl
    | @positive m e lowest =>
      have scaled : m * 2 ^ e.toNat = n * 2 ^ (-e).toNat := by
        have : (m : ℚ) * 2 ^ e.toNat = n * 2 ^ (-e).toNat := by
          rw [value, mul_assoc, zpow_mul_pow_toNat (by norm_num)]
        exact_mod_cast this
      have left : (e - 0).toNat = e.toNat := by rw [sub_zero]
      have right : (0 - (e - e.toNat)).toNat = (-e).toNat := by omega
      simp only [toInt, roundToInt, decreaseExponent, shiftToExponent, left, right, Nat.shiftLeft_eq, scaled]
      exact congrArg (fun em => ((em.mantissa : ℕ) : ℤ)) (repeat_shiftRightOne n (-e).toNat)
    | negative lowest =>
      have := magnitude_pos lowest
      have : (0 : ℚ) ≤ n := Nat.cast_nonneg n
      linarith
  have fits : n < UInt64.size := small
  show (UInt64.ofNatClamp (toInt 0 (UInt64.size - 1) x.toModel.unpack).toNat).toNat = n
  rw [whole, Int.toNat_natCast, UInt64.ofNatClamp, dif_pos fits]
  rfl

theorem value?_minusOne : value? (-1.0) = some (-1) := by
  have plain : view (-1.0) = .finite true (2 ^ 52) (-52) := by decide +kernel
  rw [value?, plain]
  norm_num [View.value?]

/-- What is rounded and packed keeps its sign. -/
theorem unpackSign_pack_round (s : Sign) (m : ℕ) (e : ℤ) (a : Accuracy) :
    unpackSign (UnpackedFloat.pack Format.binary64 (roundWithAccuracy Format.binary64 s m e a)) = s.toBitVec := by
  simp only [roundWithAccuracy]
  split_ifs
  · exact unpackSign_packComponents
  · simp only [UnpackedFloat.pack]
    split_ifs <;> exact unpackSign_packComponents

/-- However large a count is, its double has no sign. -/
theorem isNegative_ofNat {n : ℕ} (large : 2 ^ 53 < n) : isNegative (Float.ofNat n) = false := by
  have model : (Float.ofNat n).toModel = Float.Model.ofScientific n 0 := by
    show (Float.ofScientific n false 0).toModel = _
    unfold Float.ofScientific
    rw [dif_neg (by omega)]
    rfl
  have sign : @unpackSign Format.binary64 (Float.ofNat n).toModel.toBits.toBitVec = Sign.positive.toBitVec := by
    rw [model]
    show unpackSign (UnpackedFloat.pack Format.binary64 (UnpackedFloat.ofScientific Format.binary64 n 0)) = _
    unfold UnpackedFloat.ofScientific
    rw [dif_neg (by omega), if_neg (by decide), if_neg (by have := Nat.zero_le n.log2; push_cast; omega), if_pos (le_refl 0),
      UnpackedFloat.mul, unpackSign_pack_round]
    rfl
  have plain := isMinus_unpackSign (Float.ofNat n).toModel.toBits.toBitVec
  rw [sign, ofBitVec_toBitVec] at plain
  exact plain.symm

/-- However large a count is, its double is not negative. -/
theorem beq_minusOne (n : ℕ) : (Float.ofNat n == -1.0) = false := by
  by_cases small : n ≤ 2 ^ 53
  · rw [Bool.eq_false_iff, ne_eq, beq_iff (value?_ofNat small) value?_minusOne]
    have : (0 : ℚ) ≤ n := Nat.cast_nonneg n
    linarith
  · have one : (-1.0 : Float).toModel.unpack = .finite .negative (2 ^ 52) (-52) (by decide) := by
      have bits : (-1.0 : Float) = Float.ofBits 0xbff0000000000000 := by decide +kernel
      rw [bits]
      rfl
    show ((Float.ofNat n).toModel.unpack.compare (-1.0 : Float).toModel.unpack == some .eq) = false
    rw [one]
    cases unpacked : (Float.ofNat n).toModel.unpack with
    | notANumber => rfl
    | infinity s => cases s <;> rfl
    | zero s => rfl
    | finite s m e pos =>
      have seen : view (Float.ofNat n) = .finite (isMinus s) m e := by rw [view_eq, unpacked, viewOf]
      have unsigned := (isNegative_eq seen).symm.trans (isNegative_ofNat (Nat.lt_of_not_le small))
      cases s with
      | negative => cases unsigned
      | positive => rfl

end Staging.Number
