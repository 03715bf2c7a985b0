import Mathlib.Data.Rat.Cast.Order
import Mathlib.Algebra.Order.Field.Power
import Mathlib.Tactic.Linarith
import Mathlib.Tactic.Ring
import Mathlib.Tactic.NormNum
import Mathlib.Tactic.Positivity
import Mathlib.Tactic.FieldSimp
import Staging.Number.Shortest

/-!
The double nearest to a fraction.

`bitsOfRatio_eq` says which fractions become the double `mant * 2 ^ exp`: those in its rounding interval,
the ends included where the mantissa is even. Fractions and powers of two are compared as rationals; the
computation itself is on naturals throughout.
-/

namespace Staging.Number

/-! ### Scaling and logarithms -/

/-- Scaling by a power of two, as a fraction. -/
theorem scaleTwo_div (num den : ℕ) (k : ℤ) :
    ((scaleTwo num den k).1 : ℚ) / (scaleTwo num den k).2 = num / den * 2 ^ k := by
  unfold scaleTwo
  split
  · rename_i hk
    obtain ⟨n, rfl⟩ := Int.eq_ofNat_of_zero_le hk
    simp only [Int.toNat_natCast, Nat.pow_eq, Nat.cast_mul, Nat.cast_pow, Nat.cast_ofNat, zpow_natCast]
    ring
  · rename_i hk
    obtain ⟨n, hn⟩ := Int.eq_ofNat_of_zero_le (a := -k) (by omega)
    obtain rfl : k = -n := by omega
    simp only [neg_neg, Int.toNat_natCast, Nat.pow_eq, Nat.cast_mul, Nat.cast_pow, Nat.cast_ofNat,
      zpow_neg, zpow_natCast]
    rw [div_mul_eq_div_div, div_eq_mul_inv _ ((2 : ℚ) ^ n)]

theorem scaleTwo_snd_pos {num den : ℕ} (hd : 0 < den) (k : ℤ) : 0 < (scaleTwo num den k).2 := by
  unfold scaleTwo
  split
  · exact hd
  · simp only [Nat.pow_eq]
    positivity

theorem zpow_two_pos (k : ℤ) : (0 : ℚ) < 2 ^ k := by positivity

/-- `floorLogTwo` gives the power of two at or below a positive fraction. -/
theorem floorLogTwo_spec {num den : ℕ} (hn : 0 < num) (hd : 0 < den) :
    (2 : ℚ) ^ floorLogTwo num den ≤ num / den ∧ (num / den : ℚ) < 2 ^ (floorLogTwo num den + 1) := by
  have hdq : (0 : ℚ) < den := by exact_mod_cast hd
  have n₁ : (2 : ℚ) ^ num.log2 ≤ num := by exact_mod_cast Nat.log2_self_le (by omega)
  have n₂ : (num : ℚ) < 2 ^ (num.log2 + 1) := by exact_mod_cast Nat.lt_log2_self
  have d₁ : (2 : ℚ) ^ den.log2 ≤ den := by exact_mod_cast Nat.log2_self_le (by omega)
  have d₂ : (den : ℚ) < 2 ^ (den.log2 + 1) := by exact_mod_cast Nat.lt_log2_self
  set guess : ℤ := (num.log2 : ℤ) - den.log2 with hguess
  have upper : (num / den : ℚ) < 2 ^ (guess + 1) := by
    rw [div_lt_iff₀ hdq]
    calc (num : ℚ) < 2 ^ (num.log2 + 1) := n₂
      _ = 2 ^ (guess + 1) * 2 ^ den.log2 := by
        rw [← zpow_natCast, ← zpow_natCast, ← zpow_add₀ (by norm_num)]
        congr 1
        push_cast
        omega
      _ ≤ 2 ^ (guess + 1) * den := by gcongr
  have lower : (2 : ℚ) ^ (guess - 1) < num / den := by
    rw [lt_div_iff₀ hdq]
    calc (2 : ℚ) ^ (guess - 1) * den < 2 ^ (guess - 1) * 2 ^ (den.log2 + 1) := by gcongr
      _ = 2 ^ num.log2 := by
        rw [← zpow_natCast, ← zpow_natCast, ← zpow_add₀ (by norm_num)]
        congr 1
        push_cast
        omega
      _ ≤ num := n₁
  -- comparing the scaled fraction with one decides between the two candidates
  have compare : (scaleTwo num den (-guess)).2 ≤ (scaleTwo num den (-guess)).1
      ↔ (2 : ℚ) ^ guess ≤ num / den := by
    have hs : (0 : ℚ) < (scaleTwo num den (-guess)).2 := by exact_mod_cast scaleTwo_snd_pos hd _
    rw [← Nat.cast_le (α := ℚ), ← one_le_div hs, scaleTwo_div, zpow_neg, ← div_eq_mul_inv,
      one_le_div (zpow_two_pos guess)]
  have hfloor : floorLogTwo num den
      = if (scaleTwo num den (-guess)).2 ≤ (scaleTwo num den (-guess)).1 then guess else guess - 1 := rfl
  by_cases hle : (scaleTwo num den (-guess)).2 ≤ (scaleTwo num den (-guess)).1
  · rw [hfloor, if_pos hle]
    exact ⟨compare.1 hle, upper⟩
  · rw [hfloor, if_neg hle, sub_add_cancel]
    exact ⟨lower.le, not_le.1 fun h => hle (compare.2 h)⟩

/-- The logarithm is the only number with its property. -/
theorem floorLogTwo_eq {num den : ℕ} (hn : 0 < num) (hd : 0 < den) {k : ℤ}
    (h₁ : (2 : ℚ) ^ k ≤ num / den) (h₂ : (num / den : ℚ) < 2 ^ (k + 1)) : floorLogTwo num den = k := by
  obtain ⟨g₁, g₂⟩ := floorLogTwo_spec hn hd
  have a := (zpow_lt_zpow_iff_right₀ (by norm_num : (1 : ℚ) < 2)).1 (g₁.trans_lt h₂)
  have b := (zpow_lt_zpow_iff_right₀ (by norm_num : (1 : ℚ) < 2)).1 (h₁.trans_lt g₂)
  omega

/-! ### Rounding -/

/-- A fraction within half a unit of an integer is rounded to it, at the ends if it is even. -/
theorem roundHalfEven_eq {num den r : ℕ} (hd : 0 < den)
    (hlow : (2 * r) * den ≤ 2 * num + den) (hhigh : 2 * num ≤ (2 * r + 1) * den)
    (htie : r % 2 = 1 → (2 * r) * den < 2 * num + den ∧ 2 * num < (2 * r + 1) * den) :
    roundHalfEven num den = r := by
  have hdiv := Nat.div_add_mod num den
  have hmod := Nat.mod_lt num hd
  set q := num / den with hq
  set m := num % den with hm
  unfold roundHalfEven
  simp only [← hq, ← hm]
  -- the quotient is the integer or the one below it
  have hqr : q = r ∨ q + 1 = r := by
    have h₁ : 2 * (den * q) ≤ (2 * r + 1) * den := by omega
    have h₂ : (2 * r) * den < 2 * (den * q) + 3 * den := by omega
    have h₁' : 2 * q < 2 * r + 2 := by
      by_contra hcon
      have : (2 * r + 2) * den ≤ 2 * q * den := Nat.mul_le_mul_right den (by omega)
      nlinarith
    have h₂' : 2 * r < 2 * q + 3 := by
      by_contra hcon
      have : (2 * q + 3) * den ≤ 2 * r * den := Nat.mul_le_mul_right den (by omega)
      nlinarith
    omega
  rcases hqr with rfl | rfl
  · have hm2 : 2 * m ≤ den := by nlinarith
    rcases Nat.lt_or_eq_of_le hm2 with hlt | heq
    · rw [if_pos hlt]
    · rw [if_neg (by omega), if_neg (by omega)]
      have hodd : ¬ q % 2 = 1 := fun h => by
        have := (htie h).2
        nlinarith
      rw [if_pos (by omega)]
  · have hm2 : den ≤ 2 * m := by nlinarith
    rcases Nat.lt_or_eq_of_le hm2 with hlt | heq
    · rw [if_neg (by omega), if_pos hlt]
    · rw [if_neg (by omega), if_neg (by omega)]
      have hodd : ¬ (q + 1) % 2 = 1 := fun h => by
        have := (htie h).1
        nlinarith
      rw [if_neg (by omega)]

/-! ### The rounding interval -/

/-- The rational lies in the rounding interval of `mant * 2 ^ exp`. -/
def Rounds (v : ℚ) (mant : ℕ) (exp : ℤ) : Prop :=
  if mant % 2 = 0 then
    ((roundingInterval mant exp).1 : ℚ) * 2 ^ (exp - 2) ≤ v
      ∧ v ≤ ((roundingInterval mant exp).2 : ℚ) * 2 ^ (exp - 2)
  else
    ((roundingInterval mant exp).1 : ℚ) * 2 ^ (exp - 2) < v
      ∧ v < ((roundingInterval mant exp).2 : ℚ) * 2 ^ (exp - 2)

/-- Mantissa and exponent of a positive double. -/
structure IsDouble (mant : ℕ) (exp : ℤ) : Prop where
  pos : 0 < mant
  lt : mant < 2 ^ 53
  minExp_le : minExp ≤ exp
  normal : minExp < exp → 2 ^ 52 ≤ mant

theorem roundingInterval_fst {mant : ℕ} {exp : ℤ} (h : IsDouble mant exp) :
    ∃ below : ℚ, ((roundingInterval mant exp).1 : ℚ) = 4 * mant - below ∧ 1 ≤ below ∧ below ≤ 2
      ∧ (mant = 2 ^ 52 ∧ minExp < exp → below = 1) := by
  have hpos := h.pos
  simp only [roundingInterval, Nat.pow_eq]
  by_cases hc : mant = 2 ^ 52 ∧ minExp < exp
  · refine ⟨1, ?_, le_rfl, by norm_num, fun _ => rfl⟩
    rw [if_pos hc, Nat.cast_sub (by omega)]
    push_cast
    ring
  · refine ⟨2, ?_, by norm_num, le_rfl, fun h => absurd h hc⟩
    rw [if_neg hc, Nat.cast_sub (by omega)]
    push_cast
    ring

theorem roundingInterval_snd (mant : ℕ) (exp : ℤ) :
    ((roundingInterval mant exp).2 : ℚ) = 4 * mant + 2 := by
  simp only [roundingInterval]
  push_cast
  ring

/-- The interval in units of the last place: at most half a unit up, and down half a unit or less. -/
theorem Rounds.bounds {v : ℚ} {mant : ℕ} {exp : ℤ} (hd : IsDouble mant exp) (h : Rounds v mant exp) :
    ((mant : ℚ) - 1 / 2 ≤ v / 2 ^ exp ∧ v / 2 ^ exp ≤ mant + 1 / 2)
      ∧ (mant % 2 = 1 → (mant : ℚ) - 1 / 2 < v / 2 ^ exp ∧ v / 2 ^ exp < mant + 1 / 2)
      ∧ (mant = 2 ^ 52 ∧ minExp < exp → (mant : ℚ) - 1 / 4 ≤ v / 2 ^ exp) := by
  have hpow : (0 : ℚ) < 2 ^ exp := zpow_two_pos exp
  have hunit : (2 : ℚ) ^ (exp - 2) = 2 ^ exp / 4 := by
    rw [zpow_sub₀ (by norm_num)]
    norm_num
  obtain ⟨below, hfst, -, hle, hone⟩ := roundingInterval_fst hd
  have hbelow : below * 2 ^ exp ≤ 2 * 2 ^ exp := by gcongr
  unfold Rounds at h
  rw [hfst, roundingInterval_snd, hunit] at h
  simp only [le_div_iff₀ hpow, div_le_iff₀ hpow, lt_div_iff₀ hpow, div_lt_iff₀ hpow]
  by_cases heven : mant % 2 = 0
  · rw [if_pos heven] at h
    refine ⟨⟨by linarith, by linarith⟩, fun h' => by omega, fun h' => ?_⟩
    rw [hone h'] at h
    linarith
  · rw [if_neg heven] at h
    refine ⟨⟨by linarith, by linarith⟩, fun _ => ⟨by linarith, by linarith⟩, fun h' => ?_⟩
    rw [h'.1] at heven
    norm_num at heven

/-- Rounding to the unit of the last place finds the mantissa. -/
theorem roundHalfEven_scaleTwo {num den r : ℕ} {k : ℤ} (hd : 0 < den)
    (hlow : (r : ℚ) - 1 / 2 ≤ num / den / 2 ^ k) (hhigh : (num / den : ℚ) / 2 ^ k ≤ r + 1 / 2)
    (htie : r % 2 = 1 → (r : ℚ) - 1 / 2 < num / den / 2 ^ k ∧ (num / den : ℚ) / 2 ^ k < r + 1 / 2) :
    roundHalfEven (scaleTwo num den (-k)).1 (scaleTwo num den (-k)).2 = r := by
  have hscale := scaleTwo_div num den (-k)
  rw [zpow_neg, ← div_eq_mul_inv] at hscale
  have hs : 0 < (scaleTwo num den (-k)).2 := scaleTwo_snd_pos hd (-k)
  have hsq : (0 : ℚ) < (scaleTwo num den (-k)).2 := by exact_mod_cast hs
  rw [← hscale] at hlow hhigh htie
  simp only [le_div_iff₀ hsq, div_le_iff₀ hsq, lt_div_iff₀ hsq, div_lt_iff₀ hsq] at hlow hhigh htie
  refine roundHalfEven_eq hs ?_ ?_ fun hodd => ?_
  · rw [← Nat.cast_le (α := ℚ)]
    push_cast
    linarith
  · rw [← Nat.cast_le (α := ℚ)]
    push_cast
    linarith
  · obtain ⟨h₁, h₂⟩ := htie hodd
    rw [← Nat.cast_lt (α := ℚ), ← Nat.cast_lt (α := ℚ)]
    push_cast
    exact ⟨by linarith, by linarith⟩

/-- **A fraction in the rounding interval of a double becomes that double.** -/
theorem bitsOfRatio_eq {num den mant : ℕ} {exp : ℤ} (hn : 0 < num) (hd : 0 < den)
    (hm : IsDouble mant exp) (h : Rounds (num / den) mant exp) :
    bitsOfRatio num den = min ((exp - minExp).toNat * 2 ^ 52 + mant) infinityBits := by
  obtain ⟨⟨hlow, hhigh⟩, htie, hquarter⟩ := h.bounds hm
  have hpow : (0 : ℚ) < 2 ^ exp := zpow_two_pos exp
  have hmin := hm.minExp_le
  have hlt : (mant : ℚ) + 1 / 2 < 2 ^ 53 := by
    have : mant + 1 ≤ 2 ^ 53 := hm.lt
    have : (mant : ℚ) + 1 ≤ 2 ^ 53 := by exact_mod_cast this
    linarith
  obtain ⟨hlog₁, hlog₂⟩ := floorLogTwo_spec hn hd
  -- the fraction lies below the power of two that ends the binade
  have hbinade : floorLogTwo num den ≤ exp + 52 := by
    have : (num / den : ℚ) < 2 ^ (exp + 53) := by
      rw [zpow_add₀ (by norm_num), mul_comm, ← div_lt_iff₀ hpow]
      exact lt_of_le_of_lt hhigh (by exact_mod_cast hlt)
    have := (zpow_lt_zpow_iff_right₀ (by norm_num : (1 : ℚ) < 2)).1 (hlog₁.trans_lt this)
    omega
  have hbits : bitsOfRatio num den
      = min ((max (floorLogTwo num den - 52) minExp - minExp).toNat * 2 ^ 52
          + roundHalfEven (scaleTwo num den (-(max (floorLogTwo num den - 52) minExp))).1
              (scaleTwo num den (-(max (floorLogTwo num den - 52) minExp))).2) infinityBits := by
    simp only [bitsOfRatio, if_neg (Nat.pos_iff_ne_zero.1 hn), Nat.pow_eq]
  have same (hexp : max (floorLogTwo num den - 52) minExp = exp) :
      bitsOfRatio num den = min ((exp - minExp).toNat * 2 ^ 52 + mant) infinityBits := by
    rw [hbits, hexp, roundHalfEven_scaleTwo hd hlow hhigh htie]
  rcases eq_or_lt_of_le hmin with heq | hgt
  · exact same (by omega)
  · have hnormal : (2 : ℚ) ^ 52 ≤ mant := by exact_mod_cast hm.normal hgt
    rcases le_or_gt ((2 : ℚ) ^ (exp + 52)) (num / den) with hin | hbelow
    · have hle := (zpow_lt_zpow_iff_right₀ (by norm_num : (1 : ℚ) < 2)).1 (hin.trans_lt hlog₂)
      exact same (by omega)
    · -- only the lower end of the first double of a binade lies in the binade below
      have hw : (num / den : ℚ) / 2 ^ exp < 2 ^ 52 := by
        rw [div_lt_iff₀ hpow, mul_comm]
        rw [zpow_add₀ (by norm_num)] at hbelow
        exact_mod_cast hbelow
      have hmant : mant = 2 ^ 52 := by
        by_contra hne
        have : 2 ^ 52 + 1 ≤ mant := by
          have := hm.normal hgt
          omega
        have : (2 : ℚ) ^ 52 + 1 ≤ mant := by exact_mod_cast this
        linarith
      have hq := hquarter ⟨hmant, hgt⟩
      have hhalf : (num / den : ℚ) / 2 ^ (exp - 1) = 2 * (num / den / 2 ^ exp) := by
        rw [zpow_sub₀ (by norm_num)]
        field_simp
      have hlogeq : floorLogTwo num den = exp + 51 := by
        refine floorLogTwo_eq hn hd ?_ ?_
        · rw [zpow_add₀ (by norm_num), mul_comm, ← le_div_iff₀ hpow]
          have hm2 : (mant : ℚ) = 2 ^ 52 := by rw [hmant]; norm_num
          rw [hm2] at hq
          refine le_trans ?_ hq
          norm_num
        · rw [add_assoc]
          exact hbelow
      have hexp : max (floorLogTwo num den - 52) minExp = exp - 1 := by omega
      have hm2 : (mant : ℚ) = 2 ^ 52 := by rw [hmant]; norm_num
      rw [hm2] at hq
      have hround : roundHalfEven (scaleTwo num den (-(exp - 1))).1 (scaleTwo num den (-(exp - 1))).2
          = 2 ^ 53 := by
        refine roundHalfEven_scaleTwo hd ?_ ?_ fun hodd => by norm_num at hodd
        · rw [hhalf]
          push_cast
          linarith
        · rw [hhalf]
          push_cast
          linarith
      have hcarry : (exp - 1 - minExp).toNat * 2 ^ 52 + 2 ^ 53 = (exp - minExp).toNat * 2 ^ 52 + mant := by
        have : (exp - minExp).toNat = (exp - 1 - minExp).toNat + 1 := by omega
        rw [this, hmant, Nat.add_mul]
        omega
      rw [hbits, hexp, hround, hcarry]

end Staging.Number
