import Mathlib
import Staging.Number.Binary

/-!
Doubles taken apart, and the floating point numbers they are.

`view` reads a double off its bits. Here it is shown to agree with the unpacked numbers that arithmetic
and comparison of doubles are defined by (`view_eq`), so that what these do to a double can be said of its
view: which doubles are finite, which are equal to zero, and what negation does.
-/

namespace Staging.Number

open Float.Model Float.Model.UnpackedFloat

/-! ### Doubles and their bits -/

theorem toBitVec_ofBitVec : ∀ v : BitVec 1, (Sign.ofBitVec v).toBitVec = v := by decide

/-- Sign, exponent and mantissa are all there is to the bits of a double. -/
theorem packComponents_unpack (b : BitVec Format.binary64.numBits) :
    packComponents Format.binary64 (Sign.ofBitVec (unpackSign b)) (unpackExponent b) (unpackMantissa b)
      = b := by
  unfold packComponents
  rw [toBitVec_ofBitVec]
  apply BitVec.eq_of_getLsbD_eq
  intro i hi
  have hi : i < 64 := hi
  simp only [BitVec.getLsbD_append]
  simp only [unpackMantissa, BitVec.getLsbD_cast, BitVec.getLsbD_extractLsb,
    unpackExponent, unpackSign]
  by_cases h₁ : i < 52
  · simp [h₁]
  · by_cases h₂ : i - 52 < 11
    · simp [h₁, h₂, show 52 + (i - 52) = i by omega]
    · simp [h₁, h₂, show i - 52 - 11 = 0 by omega, show (63 : ℕ) = i by omega]

theorem log2_eq_52 {m : ℕ} (h₁ : 2 ^ 52 ≤ m) (h₂ : m < 2 ^ 53) : m.log2 = 52 := by
  have a : m.log2 < 53 := (Nat.log2_lt (by omega)).2 h₂
  have b : ¬ m.log2 < 52 := fun h => by
    have := (Nat.log2_lt (by omega)).1 h
    omega
  omega

/-- The mantissa of a normal number begins with a one that is not stored. -/
theorem toNat_one_append (v : BitVec 52) : (1#1 ++ v).toNat = 2 ^ 52 + v.toNat := by
  rw [BitVec.toNat_append]
  have := Nat.two_pow_add_eq_or_of_lt v.isLt 1
  simpa [Nat.shiftLeft_eq] using this.symm

theorem pack_unpack {b : BitVec Format.binary64.numBits} (hv : Format.binary64.Valid b) :
    UnpackedFloat.pack Format.binary64 (UnpackedFloat.unpack Format.binary64 b) = b := by
  have hb := packComponents_unpack b
  unfold UnpackedFloat.unpack
  simp only
  split
  · rename_i hexp
    split
    · rename_i hmant
      rw [hexp, hmant] at hb
      exact hb
    · rename_i hmant
      exact (hv.eq_packedNaN hexp hmant).symm
  · rename_i hexp
    have hlt : (unpackExponent b).toNat < 2 ^ 11 - 1 := by
      have h₁ : (unpackExponent b).toNat < 2 ^ 11 := (unpackExponent b).isLt
      have h₂ : (unpackExponent b).toNat ≠ 2 ^ 11 - 1 := by
        intro h
        apply hexp
        apply BitVec.eq_of_toNat_eq
        rw [h]
        rfl
      omega
    have hm : (unpackMantissa b).toNat < 2 ^ 52 := (unpackMantissa b).isLt
    split
    · rename_i hzero
      split
      · rename_i hmant
        rw [hzero, hmant] at hb
        exact hb
      · rename_i hmant
        have hpos : 0 < (unpackMantissa b).toNat := by
          rw [Nat.pos_iff_ne_zero]
          intro h
          exact hmant (BitVec.eq_of_toNat_eq h)
        have hlog : (unpackMantissa b).toNat.log2 < 52 := (Nat.log2_lt (by omega)).2 hm
        have hexp0 : (unpackExponent b).toNat = 0 := by rw [hzero]; rfl
        simp only [UnpackedFloat.pack, hexp0]
        rw [if_neg (by decide), if_neg (by simp only [Format.mantissaBits]; omega)]
        rw [BitVec.ofNat_toNat, BitVec.setWidth_eq, ← hzero]
        exact hb
    · rename_i hnz
      have hpos : 0 < (unpackExponent b).toNat := by
        rw [Nat.pos_iff_ne_zero]
        intro h
        exact hnz (BitVec.eq_of_toNat_eq h)
      have hval := toNat_one_append (unpackMantissa b)
      have hbias : (((unpackExponent b).toNat : ℤ)
          - ((Format.binary64.exponentBias : ℤ) + (Format.binary64.mantissaBitsWithoutImplicit : ℤ))
          + (Format.binary64.exponentBias : ℤ) + (Format.binary64.mantissaBitsWithoutImplicit : ℤ)).toNat
          = (unpackExponent b).toNat := by omega
      simp only [UnpackedFloat.pack, hbias]
      rw [if_neg (by show ¬ 2 ^ 11 ≤ _ + 1; omega), if_pos (by
        rw [hval, log2_eq_52 (by omega) (by omega)]
        rfl)]
      rw [BitVec.ofNat_toNat, BitVec.setWidth_eq, hval]
      have hmant : BitVec.ofNat 52 (2 ^ 52 + (unpackMantissa b).toNat) = unpackMantissa b := by
        apply BitVec.eq_of_toNat_eq
        rw [BitVec.toNat_ofNat, Nat.add_mod_left, Nat.mod_eq_of_lt hm]
      exact (congrArg (packComponents Format.binary64 _ _) hmant).trans hb

/-- A double is determined by its bits. -/
theorem ofBits_toBits (x : Float) : Float.ofBits x.toBits = x := by
  obtain ⟨⟨bits, valid⟩⟩ := x
  show Float.ofModel (Float.Model.ofBits bits) = _
  congr 1
  unfold Float.Model.ofBits Float.Model.pack
  congr 1
  rw [pack_unpack valid]

/-- Bits that are no `NaN` are those of a double. -/
theorem toBits_ofBits {b : UInt64} (hv : Format.binary64.Valid b.toBitVec) : (Float.ofBits b).toBits = b := by
  show UInt64.ofBitVec (UnpackedFloat.pack Format.binary64 _) = b
  rw [pack_unpack hv]

/-! ### Fields -/

theorem toNat_unpackMantissa (b : BitVec Format.binary64.numBits) :
    (unpackMantissa b).toNat = b.toNat % 2 ^ 52 := by
  simp [unpackMantissa, BitVec.extractLsb_toNat]

theorem toNat_unpackExponent (b : BitVec Format.binary64.numBits) :
    (unpackExponent b).toNat = b.toNat / 2 ^ 52 % 2 ^ 11 := by
  simp [unpackExponent, BitVec.extractLsb_toNat, Nat.shiftRight_eq_div_pow]

/-- Whether a sign is a minus. -/
def isMinus : Sign → Bool
  | .negative => true
  | .positive => false

theorem isMinus_neg (s : Sign) : isMinus (-s) = !isMinus s := by cases s <;> rfl

theorem isMinus_unpackSign (b : BitVec Format.binary64.numBits) :
    isMinus (Sign.ofBitVec (unpackSign b)) = decide (2 ^ 63 ≤ b.toNat) := by
  have hb : b.toNat < 2 ^ 64 := b.isLt
  have hsign : (unpackSign b).toNat = b.toNat / 2 ^ 63 % 2 := by
    simp [unpackSign, BitVec.extractLsb_toNat, Nat.shiftRight_eq_div_pow]
  unfold Sign.ofBitVec
  split
  · rename_i hzero
    rw [hzero] at hsign
    have : b.toNat / 2 ^ 63 % 2 = 0 := hsign.symm
    simp only [isMinus]
    rw [eq_comm, decide_eq_false_iff_not]
    omega
  · rename_i hone
    have : (unpackSign b).toNat ≠ 0 := fun h => hone (BitVec.eq_of_toNat_eq h)
    simp only [isMinus]
    rw [eq_comm, decide_eq_true_eq]
    omega

/-! ### Views -/

/-- The view of an unpacked number. -/
def viewOf : UnpackedFloat → View
  | .infinity s => .infinite (isMinus s)
  | .notANumber => .nan
  | .zero s => .finite (isMinus s) 0 minExp
  | .finite s m e _ => .finite (isMinus s) m e

theorem viewBits_eq (b : BitVec Format.binary64.numBits) :
    viewBits b.toNat = viewOf (UnpackedFloat.unpack Format.binary64 b) := by
  have hsign := isMinus_unpackSign b
  have hmant := toNat_unpackMantissa b
  have hexp := toNat_unpackExponent b
  unfold viewBits UnpackedFloat.unpack
  simp only [Nat.pow_eq, ← hmant, ← hexp, ← hsign]
  have all : unpackExponent b = -1#_ ↔ (unpackExponent b).toNat = 2047 := by
    rw [← BitVec.toNat_inj]
    rfl
  have none : unpackExponent b = 0#_ ↔ (unpackExponent b).toNat = 0 := by
    rw [← BitVec.toNat_inj]
    rfl
  have empty : unpackMantissa b = 0#_ ↔ (unpackMantissa b).toNat = 0 := by
    rw [← BitVec.toNat_inj]
    rfl
  by_cases h₁ : (unpackExponent b).toNat = 2047
  · rw [if_pos h₁, if_pos (all.2 h₁)]
    by_cases h₂ : (unpackMantissa b).toNat = 0
    · rw [if_pos h₂, if_pos (empty.2 h₂)]
      rfl
    · rw [if_neg h₂, if_neg (mt empty.1 h₂)]
      rfl
  · rw [if_neg h₁, if_neg (mt all.1 h₁)]
    by_cases h₃ : (unpackExponent b).toNat = 0
    · rw [if_pos h₃, if_pos (none.2 h₃)]
      by_cases h₂ : (unpackMantissa b).toNat = 0
      · rw [dif_pos (empty.2 h₂), h₂]
        rfl
      · rw [dif_neg (mt empty.1 h₂)]
        simp only [viewOf, h₃]
        rfl
    · rw [if_neg h₃, if_neg (mt none.1 h₃)]
      have hval : (1#1 ++ unpackMantissa b).toNat = 2 ^ 52 + (unpackMantissa b).toNat := toNat_one_append _
      simp only [viewOf, hval]
      congr 1
      have : (Format.binary64.exponentBias : ℤ) + Format.binary64.mantissaBitsWithoutImplicit = 1075 := rfl
      rw [this, minExp]
      omega

/-- **The view of a double is the number it is.** -/
theorem view_eq (x : Float) : view x = viewOf x.toModel.unpack := viewBits_eq x.toBits.toBitVec

/-- Finite doubles are those with a finite view. -/
theorem isFinite_iff {x : Float} : x.isFinite = true ↔ ∃ negative mant exp, view x = .finite negative mant exp := by
  rw [view_eq]
  show x.toModel.unpack.isFinite = true ↔ _
  cases x.toModel.unpack <;> simp [UnpackedFloat.isFinite, viewOf]

theorem view_zero : view 0.0 = .finite false 0 minExp := by decide +kernel

/-- The doubles that are equal to zero have no magnitude. -/
theorem view_of_beq_zero {x : Float} (h : (x == 0.0) = true) : ∃ negative, view x = .finite negative 0 minExp := by
  have hbits : (0.0 : Float) = Float.ofBits 0 := by decide +kernel
  have hzero : (0.0 : Float).toModel.unpack = .zero .positive := by
    rw [hbits]
    rfl
  have hcmp : x.toModel.unpack.beq (0.0 : Float).toModel.unpack = true := h
  rw [hzero] at hcmp
  rw [view_eq]
  cases hx : x.toModel.unpack with
  | notANumber => simp [hx, UnpackedFloat.beq, UnpackedFloat.compare] at hcmp
  | infinity s => cases s <;> simp [hx, UnpackedFloat.beq, UnpackedFloat.compare] at hcmp
  | zero s => exact ⟨isMinus s, rfl⟩
  | finite s m e hm => cases s <;> simp [hx, UnpackedFloat.beq, UnpackedFloat.compare] at hcmp

/-- A finite double is a zero or has a magnitude, and the view tells which. -/
theorem unpack_of_view {x : Float} {negative : Bool} {mant : ℕ} {exp : ℤ} (h : view x = .finite negative mant exp) :
    (mant = 0 ∧ ∃ s, x.toModel.unpack = .zero s)
      ∨ ∃ s pos, isMinus s = negative ∧ x.toModel.unpack = .finite s mant exp pos := by
  rw [view_eq] at h
  cases hx : x.toModel.unpack with
  | notANumber => rw [hx] at h; cases h
  | infinity s => rw [hx] at h; cases h
  | zero s =>
    rw [hx] at h
    cases h
    exact .inl ⟨rfl, s, rfl⟩
  | finite s m e pos =>
    rw [hx] at h
    cases h
    exact .inr ⟨s, pos, rfl, rfl⟩

/-- All zeros are equal. -/
theorem beq_of_view_zero {x y : Float} {negative negative' : Bool} {exp exp' : ℤ}
    (hx : view x = .finite negative 0 exp) (hy : view y = .finite negative' 0 exp') : (x == y) = true := by
  show x.toModel.unpack.beq y.toModel.unpack = true
  obtain ⟨-, s, hx⟩ | ⟨_, pos, -⟩ := unpack_of_view hx
  · obtain ⟨-, t, hy⟩ | ⟨_, pos, -⟩ := unpack_of_view hy
    · rw [hx, hy]
      rfl
    · exact absurd pos (lt_irrefl 0)
  · exact absurd pos (lt_irrefl 0)

theorem zero_beq_zero : ((0.0 : Float) == 0.0) = true := beq_of_view_zero view_zero view_zero

/-- Finite doubles with one view are equal. -/
theorem beq_of_view_eq {x y : Float} {negative : Bool} {mant : ℕ} {exp : ℤ}
    (hx : view x = .finite negative mant exp) (hy : view y = .finite negative mant exp) : (x == y) = true := by
  by_cases zero : mant = 0
  · subst zero
    exact beq_of_view_zero hx hy
  obtain ⟨h, -⟩ | ⟨s, pos, hs, ux⟩ := unpack_of_view hx
  · exact absurd h zero
  obtain ⟨h, -⟩ | ⟨t, _, ht, uy⟩ := unpack_of_view hy
  · exact absurd h zero
  have same : s = t := by cases s <;> cases t <;> simp_all [isMinus]
  show x.toModel.unpack.beq y.toModel.unpack = true
  rw [ux, uy, same]
  cases t <;> simp [UnpackedFloat.beq, UnpackedFloat.compare]

/-! ### Negation -/

theorem unpackSign_packComponents {spec : Format} {sign exponent mantissa} :
    unpackSign (packComponents spec sign exponent mantissa) = sign.toBitVec := by
  ext i hi
  obtain rfl : i = 0 := by omega
  have : ¬ spec.mantissaBitsWithoutImplicit + spec.exponentBits < spec.mantissaBitsWithoutImplicit := by omega
  simp [unpackSign, packComponents, BitVec.getElem_append, BitVec.getLsbD_append, this]

theorem ofBitVec_toBitVec (s : Sign) : Sign.ofBitVec s.toBitVec = s := by cases s <;> rfl

/-- With another sign in front, the bits are those of the negated number. -/
theorem unpack_packComponents (b : BitVec Format.binary64.numBits) :
    UnpackedFloat.unpack Format.binary64 (packComponents Format.binary64
        (-Sign.ofBitVec (unpackSign b)) (unpackExponent b) (unpackMantissa b))
      = (UnpackedFloat.unpack Format.binary64 b).neg := by
  unfold UnpackedFloat.unpack
  simp only [unpackSign_packComponents, ofBitVec_toBitVec, unpackExponent_packComponents,
    unpackMantissa_packComponents]
  split
  · split <;> rfl
  · split
    · split <;> rfl
    · rfl

theorem view_ofBits {b : UInt64} (hv : Format.binary64.Valid b.toBitVec) :
    view (Float.ofBits b) = viewBits b.toNat := by
  rw [view, toBits_ofBits hv]

/-- The exponent of a finite number is not all ones. -/
theorem unpackExponent_ne {b : BitVec Format.binary64.numBits} {negative : Bool} {mant : ℕ} {exp : ℤ}
    (h : viewOf (UnpackedFloat.unpack Format.binary64 b) = .finite negative mant exp) :
    unpackExponent b ≠ -1#_ := by
  intro hexp
  unfold UnpackedFloat.unpack at h
  simp only [if_pos hexp] at h
  split at h <;> cases h

/-- **Negation changes the sign and nothing else.** -/
theorem view_neg {x : Float} {negative : Bool} {mant : ℕ} {exp : ℤ}
    (h : view x = .finite negative mant exp) : view (-x) = .finite (!negative) mant exp := by
  rw [view_eq] at h
  let b : BitVec Format.binary64.numBits := x.toBits.toBitVec
  let b' : BitVec Format.binary64.numBits :=
    packComponents Format.binary64 (-Sign.ofBitVec (unpackSign b)) (unpackExponent b) (unpackMantissa b)
  have hunpack : UnpackedFloat.unpack Format.binary64 b' = x.toModel.unpack.neg := unpack_packComponents b
  have hneg : -x = Float.ofBits (UInt64.ofBitVec b') := by
    show Float.ofModel (Float.Model.pack x.toModel.unpack.neg) = Float.ofModel (Float.Model.pack _)
    rw [← hunpack]
  have hvalid : Format.binary64.Valid b' := by
    constructor
    intro hexp
    rw [unpackExponent_packComponents] at hexp
    exact absurd hexp (unpackExponent_ne h)
  have hview : view (Float.ofBits (UInt64.ofBitVec b')) = viewBits b'.toNat :=
    view_ofBits (b := UInt64.ofBitVec b') hvalid
  rw [hneg, hview, viewBits_eq, hunpack]
  cases hx : x.toModel.unpack with
  | notANumber => rw [hx] at h; cases h
  | infinity s => rw [hx] at h; cases h
  | zero s =>
    rw [hx] at h
    cases h
    simp only [UnpackedFloat.neg, viewOf, isMinus_neg]
  | finite s m e hm =>
    rw [hx] at h
    cases h
    simp only [UnpackedFloat.neg, viewOf, isMinus_neg]

end Staging.Number
