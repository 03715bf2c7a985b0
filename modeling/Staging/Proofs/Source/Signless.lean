import Staging.Proofs.Number.ReadBack
import Staging.Proofs.Source.Bare

/-!
Numbers without signs.

A numeral has no sign, so neither has the number that is read from it (`Number.isNegative_ofNumeral`); a minus sign in a
source is an operator. Trees in which no number has a sign are the same program exactly when they are equal up to spans:
of the two zeros only one occurs in them (`Literal.bare_of_isSignless`). A function may contain anything.
-/

namespace Staging

namespace Number

open Float.Model Float.Model.UnpackedFloat

/-! ### Doubles and their views -/

/-- The bits of a finite double are found in its view. -/
theorem toNat_toBits_of_view {x : Float} {negative : Bool} {mant : ℕ} {exp : ℤ} (h : view x = .finite negative mant exp) :
    x.toBits.toNat = negative.toNat * 2 ^ 63
      + (if mant < 2 ^ 52 then mant else (exp - minExp).toNat * 2 ^ 52 + mant) := by
  have bound := x.toBits.toNat_lt
  simp only [view, viewBits, Nat.pow_eq] at h
  split at h
  · split at h <;> cases h
  have sign : ∀ {b : ℕ}, b < 2 ^ 64 → (decide (2 ^ 63 ≤ b)).toNat = b / 2 ^ 63 := by
    intro b small
    by_cases set : 2 ^ 63 ≤ b
    · rw [decide_eq_true set, Bool.toNat_true]
      omega
    · rw [decide_eq_false set, Bool.toNat_false]
      omega
  split at h
  · obtain ⟨rfl, rfl, -⟩ := View.finite.inj h
    rw [sign bound, if_pos (Nat.mod_lt _ (by norm_num))]
    omega
  · obtain ⟨rfl, rfl, rfl⟩ := View.finite.inj h
    rw [sign bound, if_neg (by omega), add_sub_cancel_left, Int.toNat_natCast]
    omega

/-- A finite double is known by its view. -/
theorem eq_of_view_eq {x y : Float} {negative : Bool} {mant : ℕ} {exp : ℤ} (hx : view x = .finite negative mant exp)
    (hy : view y = .finite negative mant exp) : x = y := by
  have bits : x.toBits = y.toBits :=
    UInt64.toNat_inj.1 ((toNat_toBits_of_view hx).trans (toNat_toBits_of_view hy).symm)
  rw [← ofBits_toBits x, bits, ofBits_toBits]

/-- A finite double is the negation of its negation. -/
theorem neg_neg_of_isFinite {x : Float} (finite : x.isFinite = true) : -(-x) = x := by
  obtain ⟨negative, mant, exp, view⟩ := isFinite_iff.1 finite
  have back := view_neg (view_neg view)
  rw [Bool.not_not] at back
  exact eq_of_view_eq back view

/-! ### Numerals -/

theorem bitsOfRatio_le (num den : ℕ) : bitsOfRatio num den ≤ infinityBits := by
  unfold bitsOfRatio
  split
  · exact Nat.zero_le _
  · exact Nat.min_le_right ..

/-- The bits up to those of infinity are no `NaN`. -/
theorem valid_of_le_infinityBits {b : UInt64} (small : b.toNat ≤ infinityBits) : Format.binary64.Valid b.toBitVec := by
  have infinite : infinityBits = 2047 * 2 ^ 52 := rfl
  refine ⟨fun all nonzero => absurd (BitVec.eq_of_toNat_eq ?_) nonzero⟩
  have exponent : b.toNat / 2 ^ 52 % 2 ^ 11 = 2047 :=
    (toNat_unpackExponent b.toBitVec).symm.trans (congrArg BitVec.toNat all)
  refine (toNat_unpackMantissa b.toBitVec).trans ?_
  show b.toNat % 2 ^ 52 = 0
  omega

theorem isNegative_ofRatio (num den : ℕ) : isNegative (ofRatio false num den) = false := by
  have small := bitsOfRatio_le num den
  have infinite : infinityBits = 2047 * 2 ^ 52 := rfl
  have bits : (bitsOfRatio num den).toUInt64.toNat = bitsOfRatio num den :=
    UInt64.toNat_ofNat_of_lt' (by rw [UInt64.size]; omega)
  rw [isNegative, ofRatio, if_neg Bool.false_ne_true, toBits_ofBits (valid_of_le_infinityBits (bits.symm ▸ small)), bits,
    Nat.pow_eq]
  exact decide_eq_false (by omega)

theorem isNegative_ofDecimal (mant : ℕ) (exp : ℤ) : isNegative (ofDecimal false mant exp) = false := by
  unfold ofDecimal
  split_ifs <;> exact isNegative_ofRatio ..

/-- A numeral begins with a digit, so the number that it denotes has no sign. -/
theorem isNegative_ofNumeral {c : Char} (cs : List Char) (digit : c.isDigit = true) :
    isNegative (ofNumeral (String.ofList (c :: cs))) = false := by
  have none : isNegative nan = false := by decide +kernel
  rw [ofNumeral, String.toList_ofList, read?_eq_readDecimal? digit]
  unfold readDecimal?
  simp only
  split_ifs
  · exact none
  · cases readExponent? _ with
    | none => exact none
    | some e => exact isNegative_ofDecimal ..

end Number

/-! ### Trees -/

/-- A constant that is no number with a sign. -/
def Literal.isSignless : Literal → Bool
  | number x => !Number.isNegative x
  | _ => true

mutual

/-- No number outside of functions has a sign. -/
def Expr.isSignless : Expr → Bool
  | .literal _ v => v.isSignless
  | .ident _ _ | .function _ _ => true
  | .array _ items => Expr.allSignless items
  | .object _ props => Property.allSignless props
  | .unary _ _ e => e.isSignless
  | .update _ _ _ e => e.isSignless
  | .binary _ _ a b => a.isSignless && b.isSignless
  | .assign _ _ a b => a.isSignless && b.isSignless
  | .cond _ a b c => a.isSignless && (b.isSignless && c.isSignless)
  | .member _ o k _ => o.isSignless && k.isSignless
  | .call _ c args _ => c.isSignless && Expr.allSignless args
  | .new _ c args => c.isSignless && Expr.allSignless args

def Key.isSignless : Key → Bool
  | .named _ => true
  | .computed e => e.isSignless

def Expr.allSignless : List Expr → Bool
  | [] => true
  | e :: es => e.isSignless && Expr.allSignless es

def Property.allSignless : List Property → Bool
  | [] => true
  | ⟨k, v⟩ :: ps => k.isSignless && (v.isSignless && Property.allSignless ps)

end

theorem Expr.allSignless_iff {es : List Expr} : Expr.allSignless es = true ↔ ∀ e ∈ es, e.isSignless = true := by
  induction es with
  | nil => simp [Expr.allSignless]
  | cons e es ih => simp [Expr.allSignless, ih]

theorem Property.allSignless_iff {ps : List Property} :
    Property.allSignless ps = true ↔ ∀ p ∈ ps, p.key.isSignless = true ∧ p.value.isSignless = true := by
  induction ps with
  | nil => simp [Property.allSignless]
  | cons p ps ih =>
    obtain ⟨k, v⟩ := p
    simp [Property.allSignless, ih, and_assoc]

/-- A constant without a sign is the one that stands for it. -/
theorem Literal.bare_of_isSignless {v : Literal} (signless : v.isSignless = true) : v.bare = v := by
  cases v with
  | number x =>
    by_cases zero : (x == 0.0) = true
    · obtain ⟨negative, view⟩ := Number.view_of_beq_zero zero
      have positive : negative = false := by
        rw [← Number.isNegative_eq view]
        simpa [Literal.isSignless] using signless
      subst positive
      rw [Literal.bare, if_pos zero, ← Number.eq_of_view_eq view Number.view_zero]
    · rw [Literal.bare, if_neg zero]
  | _ => rfl

end Staging
