import Staging.Proofs.Number.Nearest

/-!
The shortest decimal of a double reads back.

`shortest` searches grids of decimals, from one digit to seventeen. `onGrid?_rounds` says that what it
takes lies in the rounding interval, and `onGrid?_isSome` that seventeen digits are always enough: there
the step of the grid is below the distance of two doubles.
-/

namespace Staging.Number

/-! ### The decimal logarithm -/

theorem pow_le_of_length_toDigits {n : ℕ} (hn : 0 < n) :
    10 ^ ((Nat.toDigits 10 n).length - 1) ≤ n ∧ n < 10 ^ (Nat.toDigits 10 n).length := by
  have hpos : 0 < (Nat.toDigits 10 n).length := Nat.length_toDigits_pos
  refine ⟨?_, (Nat.length_toDigits_le_iff (by decide) hpos).1 le_rfl⟩
  rcases Nat.eq_zero_or_pos ((Nat.toDigits 10 n).length - 1) with hz | hz
  · rw [hz]
    exact hn
  · by_contra hlt
    have := (Nat.length_toDigits_le_iff (by decide : 1 < 10) hz).2 (not_le.1 hlt)
    omega

/-- A quotient of naturals lies between its floor and the next natural. -/
theorem div_floor {a b : ℕ} (hb : 0 < b) : ((a / b : ℕ) : ℚ) ≤ a / b ∧ (a / b : ℚ) < (a / b : ℕ) + 1 := by
  have hbq : (0 : ℚ) < b := by exact_mod_cast hb
  constructor
  · rw [le_div_iff₀ hbq]
    exact_mod_cast Nat.div_mul_le_self a b
  · rw [div_lt_iff₀ hbq]
    have := Nat.lt_mul_div_succ a hb
    rw [mul_comm] at this
    exact_mod_cast this

/-- `floorLogTen` gives the power of ten at or below a positive fraction. -/
theorem floorLogTen_spec {num den : ℕ} (hn : 0 < num) (hd : 0 < den) :
    (10 : ℚ) ^ floorLogTen num den ≤ num / den ∧ (num / den : ℚ) < 10 ^ (floorLogTen num den + 1) := by
  have hnq : (0 : ℚ) < num := by exact_mod_cast hn
  have hdq : (0 : ℚ) < den := by exact_mod_cast hd
  unfold floorLogTen
  split
  · rename_i hle
    obtain ⟨h₁, h₂⟩ := pow_le_of_length_toDigits (Nat.div_pos hle hd)
    obtain ⟨f₁, f₂⟩ := div_floor (a := num) hd
    have hlen : 0 < (Nat.toDigits 10 (num / den)).length := Nat.length_toDigits_pos
    set len := (Nat.toDigits 10 (num / den)).length with hlendef
    constructor
    · rw [show (len : ℤ) - 1 = ((len - 1 : ℕ) : ℤ) by omega, zpow_natCast]
      exact le_trans (by exact_mod_cast h₁) f₁
    · rw [sub_add_cancel, zpow_natCast]
      refine lt_of_lt_of_le f₂ ?_
      exact_mod_cast h₂
  · rename_i hgt
    obtain ⟨h₁, h₂⟩ := pow_le_of_length_toDigits (Nat.div_pos (by omega : num ≤ den) hn)
    obtain ⟨f₁, f₂⟩ := div_floor (a := den) hn
    have hlen : 0 < (Nat.toDigits 10 (den / num)).length := Nat.length_toDigits_pos
    set len := (Nat.toDigits 10 (den / num)).length with hlendef
    have low : (den : ℚ) / num < 10 ^ len := lt_of_lt_of_le f₂ (by exact_mod_cast h₂)
    have high : (10 : ℚ) ^ (len - 1) ≤ den / num := le_trans (by exact_mod_cast h₁) f₁
    rw [div_lt_iff₀ hnq] at low
    rw [le_div_iff₀ hnq] at high
    simp only [Nat.pow_eq]
    split
    · rename_i heq
      have heq : (num : ℚ) * 10 ^ (len - 1) = den := by exact_mod_cast heq
      have hval : (num / den : ℚ) = 10 ^ (1 - (len : ℤ)) := by
        rw [div_eq_iff hdq.ne', ← heq, show (1 - (len : ℤ)) = -((len - 1 : ℕ) : ℤ) by omega, zpow_neg,
          zpow_natCast]
        field_simp
      rw [hval]
      exact ⟨le_rfl, zpow_lt_zpow_right₀ (by norm_num) (by omega)⟩
    · rename_i hne
      constructor
      · rw [zpow_neg, zpow_natCast, inv_le_iff_one_le_mul₀ (by positivity), div_mul_eq_mul_div,
          one_le_div hdq]
        linarith
      · have hlt : (num : ℚ) * 10 ^ (len - 1) < den := by
          rcases lt_or_eq_of_le high with h | h
          · linarith
          · exact absurd (by rw [mul_comm] at h; exact_mod_cast h) hne
        rw [show (-(len : ℤ) + 1) = -((len - 1 : ℕ) : ℤ) by omega, zpow_neg, zpow_natCast,
          div_lt_iff₀ hdq, inv_mul_eq_div, lt_div_iff₀ (by positivity)]
        exact hlt

/-! ### Decimals on a grid -/

theorem zpow_mul_pow_toNat {b : ℚ} (hb : b ≠ 0) (z : ℤ) : b ^ z * b ^ (-z).toNat = b ^ z.toNat := by
  rw [← zpow_natCast, ← zpow_natCast, ← zpow_add₀ hb]
  congr 1
  omega

/-- The step of a grid on the common integer scale. -/
def gridStep (exp grid : ℤ) : ℕ := Nat.pow 10 grid.toNat * Nat.pow 2 (2 - exp).toNat

/-- A quarter of the last place on the same scale. -/
def gridUnit (exp grid : ℤ) : ℕ := Nat.pow 10 (-grid).toNat * Nat.pow 2 (exp - 2).toNat

/-- The factor of the common scale. -/
def gridScale (exp grid : ℤ) : ℚ := 10 ^ (-grid).toNat * 2 ^ (2 - exp).toNat

theorem gridScale_pos (exp grid : ℤ) : 0 < gridScale exp grid := by
  unfold gridScale
  positivity

theorem gridStep_cast (exp grid : ℤ) : (gridStep exp grid : ℚ) = 10 ^ grid * gridScale exp grid := by
  have := zpow_mul_pow_toNat (b := 10) (by norm_num) grid
  simp only [gridStep, gridScale, Nat.pow_eq]
  push_cast
  rw [← this]
  ring

theorem gridUnit_cast (exp grid : ℤ) :
    (gridUnit exp grid : ℚ) = 2 ^ (exp - 2) * gridScale exp grid := by
  have := zpow_mul_pow_toNat (b := 2) (by norm_num) (exp - 2)
  rw [neg_sub] at this
  simp only [gridUnit, gridScale, Nat.pow_eq]
  push_cast
  rw [← this]
  ring

theorem gridStep_pos (exp grid : ℤ) : 0 < gridStep exp grid := by
  simp only [gridStep, Nat.pow_eq]
  positivity

/-- Whether a decimal of the grid reads back as `mant * 2 ^ exp`. -/
def readsBack (mant : ℕ) (exp grid : ℤ) (c : ℕ) : Bool :=
  if mant % 2 = 0 then
    (roundingInterval mant exp).1 * gridUnit exp grid ≤ c * gridStep exp grid
      && c * gridStep exp grid ≤ (roundingInterval mant exp).2 * gridUnit exp grid
  else
    (roundingInterval mant exp).1 * gridUnit exp grid < c * gridStep exp grid
      && c * gridStep exp grid < (roundingInterval mant exp).2 * gridUnit exp grid

theorem readsBack_iff {mant c : ℕ} {exp grid : ℤ} :
    readsBack mant exp grid c = true ↔ Rounds (c * 10 ^ grid) mant exp := by
  have hscale := gridScale_pos exp grid
  have hstep : ((c * gridStep exp grid : ℕ) : ℚ) = c * 10 ^ grid * gridScale exp grid := by
    rw [Nat.cast_mul, gridStep_cast, mul_assoc]
  have hunit : ∀ a : ℕ, ((a * gridUnit exp grid : ℕ) : ℚ) = a * 2 ^ (exp - 2) * gridScale exp grid := by
    intro a
    rw [Nat.cast_mul, gridUnit_cast, mul_assoc]
  unfold readsBack Rounds
  split
  · simp only [Bool.and_eq_true, decide_eq_true_eq]
    rw [← Nat.cast_le (α := ℚ), ← Nat.cast_le (α := ℚ), hstep, hunit, hunit,
      mul_le_mul_iff_left₀ hscale, mul_le_mul_iff_left₀ hscale]
  · simp only [Bool.and_eq_true, decide_eq_true_eq]
    rw [← Nat.cast_lt (α := ℚ), ← Nat.cast_lt (α := ℚ), hstep, hunit, hunit,
      mul_lt_mul_iff_left₀ hscale, mul_lt_mul_iff_left₀ hscale]

/-- The neighbour of the value below it on the grid. -/
def gridFloor (mant : ℕ) (exp grid : ℤ) : ℕ := 4 * mant * gridUnit exp grid / gridStep exp grid

theorem onGrid?_eq (mant : ℕ) (exp grid : ℤ) :
    onGrid? mant exp grid =
      match readsBack mant exp grid (gridFloor mant exp grid),
        readsBack mant exp grid (gridFloor mant exp grid + 1) with
      | true, true => some (if 4 * mant * gridUnit exp grid - gridFloor mant exp grid * gridStep exp grid
          < (gridFloor mant exp grid + 1) * gridStep exp grid - 4 * mant * gridUnit exp grid
          then gridFloor mant exp grid else gridFloor mant exp grid + 1)
      | true, false => some (gridFloor mant exp grid)
      | false, true => some (gridFloor mant exp grid + 1)
      | false, false => none := rfl

/-- What is taken from a grid reads back. -/
theorem onGrid?_rounds {mant c : ℕ} {exp grid : ℤ} (h : onGrid? mant exp grid = some c) :
    Rounds (c * 10 ^ grid) mant exp := by
  rw [← readsBack_iff]
  rw [onGrid?_eq] at h
  split at h
  · rename_i hlow hup
    obtain rfl := Option.some.inj h
    split
    · exact hlow
    · exact hup
  · rename_i hlow hup
    obtain rfl := Option.some.inj h
    exact hlow
  · rename_i hlow hup
    obtain rfl := Option.some.inj h
    exact hup
  · cases h

theorem gridFloor_spec (mant : ℕ) (exp grid : ℤ) :
    (gridFloor mant exp grid : ℚ) * 10 ^ grid ≤ mant * 2 ^ exp
      ∧ mant * 2 ^ exp < ((gridFloor mant exp grid : ℚ) + 1) * 10 ^ grid := by
  obtain ⟨h₁, h₂⟩ := div_floor (a := 4 * mant * gridUnit exp grid) (gridStep_pos exp grid)
  have hscale := gridScale_pos exp grid
  have hten : (0 : ℚ) < 10 ^ grid := by positivity
  have hvalue : (((4 * mant * gridUnit exp grid : ℕ) : ℚ) / (gridStep exp grid : ℚ))
      = mant * 2 ^ exp / 10 ^ grid := by
    rw [Nat.cast_mul, gridUnit_cast, gridStep_cast, zpow_sub₀ (by norm_num)]
    field_simp
    push_cast
    ring
  rw [hvalue] at h₁ h₂
  rw [le_div_iff₀ hten] at h₁
  rw [div_lt_iff₀ hten] at h₂
  exact ⟨h₁, h₂⟩

/-- Less than half a unit of the last place up is in the rounding interval. -/
theorem rounds_above {mant : ℕ} {exp : ℤ} {v : ℚ} (hd : IsDouble mant exp) (h₁ : mant * 2 ^ exp ≤ v)
    (h₂ : v < (mant + 1 / 2) * 2 ^ exp) : Rounds v mant exp := by
  have hpow := zpow_two_pos exp
  obtain ⟨below, hfst, hone, -, -⟩ := roundingInterval_fst hd
  have hunit : (2 : ℚ) ^ (exp - 2) = 2 ^ exp / 4 := by
    rw [zpow_sub₀ (by norm_num)]
    norm_num
  have hbelow : 1 * 2 ^ exp ≤ below * 2 ^ exp := by gcongr
  have hlow : (4 * (mant : ℚ) - below) * (2 ^ exp / 4) < v := by linarith
  have hhigh : v < (4 * (mant : ℚ) + 2) * (2 ^ exp / 4) := by linarith
  unfold Rounds
  rw [hfst, roundingInterval_snd, hunit]
  split
  · exact ⟨hlow.le, hhigh.le⟩
  · exact ⟨hlow, hhigh⟩

/-- So is less than half a unit down, except at the first double of a binade. -/
theorem rounds_below {mant : ℕ} {exp : ℤ} {v : ℚ} (hd : IsDouble mant exp)
    (hfirst : ¬ (mant = 2 ^ 52 ∧ minExp < exp)) (h₁ : (mant - 1 / 2) * 2 ^ exp < v)
    (h₂ : v ≤ mant * 2 ^ exp) : Rounds v mant exp := by
  have hpow := zpow_two_pos exp
  have hpos := hd.pos
  have hunit : (2 : ℚ) ^ (exp - 2) = 2 ^ exp / 4 := by
    rw [zpow_sub₀ (by norm_num)]
    norm_num
  have hfst : ((roundingInterval mant exp).1 : ℚ) = 4 * mant - 2 := by
    simp only [roundingInterval, Nat.pow_eq]
    rw [if_neg hfirst, Nat.cast_sub (by omega)]
    push_cast
    ring
  have hlow : (4 * (mant : ℚ) - 2) * (2 ^ exp / 4) < v := by linarith
  have hhigh : v < (4 * (mant : ℚ) + 2) * (2 ^ exp / 4) := by linarith
  unfold Rounds
  rw [hfst, roundingInterval_snd, hunit]
  split
  · exact ⟨hlow.le, hhigh.le⟩
  · exact ⟨hlow, hhigh⟩

/-- On a grid of seventeen digits one of the two neighbours of a double reads back. -/
theorem onGrid?_isSome {mant : ℕ} {exp grid : ℤ} (hd : IsDouble mant exp)
    (hgrid : (10 : ℚ) ^ grid * 10 ^ 16 ≤ mant * 2 ^ exp) : (onGrid? mant exp grid).isSome = true := by
  have hpow := zpow_two_pos exp
  obtain ⟨hfloor, hceil⟩ := gridFloor_spec mant exp grid
  have hone : readsBack mant exp grid (gridFloor mant exp grid) = true
      ∨ readsBack mant exp grid (gridFloor mant exp grid + 1) = true := by
    rw [readsBack_iff, readsBack_iff]
    push_cast
    by_cases hfirst : mant = 2 ^ 52 ∧ minExp < exp
    · -- half a unit up reaches the next point of the grid
      refine .inr (rounds_above hd hceil.le ?_)
      have hm : (mant : ℚ) = 2 ^ 52 := by rw [hfirst.1]; norm_num
      have hstep : (10 : ℚ) ^ grid < 1 / 2 * 2 ^ exp := by
        rw [hm] at hgrid
        nlinarith
      linarith
    · have hm : (mant : ℚ) < 2 ^ 53 := by exact_mod_cast hd.lt
      have hstep : (10 : ℚ) ^ grid < 2 ^ exp := by
        have : (mant : ℚ) * 2 ^ exp < 2 ^ 53 * 2 ^ exp := by gcongr
        nlinarith
      rcases le_or_gt ((gridFloor mant exp grid + 1 : ℚ) * 10 ^ grid) ((mant + 1 / 2) * 2 ^ exp) with hle | hgt
      · rcases lt_or_eq_of_le hle with hlt | heq
        · exact .inr (rounds_above hd hceil.le hlt)
        · refine .inl (rounds_below hd hfirst ?_ hfloor)
          linarith
      · refine .inl (rounds_below hd hfirst ?_ hfloor)
        linarith
  rw [onGrid?_eq]
  split
  · rfl
  · rfl
  · rfl
  · rename_i h₁ h₂
    rcases hone with h | h
    · rw [h] at h₁
      cases h₁
    · rw [h] at h₂
      cases h₂

/-! ### The shortest decimal -/

theorem scaleTwo_fst_pos {num den : ℕ} (hn : 0 < num) (k : ℤ) : 0 < (scaleTwo num den k).1 := by
  unfold scaleTwo
  split
  · simp only [Nat.pow_eq]
    positivity
  · exact hn

/-- The place of the first digit of a double. -/
def leadPlace (mant : ℕ) (exp : ℤ) : ℤ :=
  floorLogTen (scaleTwo mant 1 exp).1 (scaleTwo mant 1 exp).2

theorem leadPlace_spec {mant : ℕ} {exp : ℤ} (hd : IsDouble mant exp) :
    (10 : ℚ) ^ leadPlace mant exp ≤ mant * 2 ^ exp ∧ (mant : ℚ) * 2 ^ exp < 10 ^ (leadPlace mant exp + 1) := by
  have := floorLogTen_spec (scaleTwo_fst_pos hd.pos exp : 0 < (scaleTwo mant 1 exp).1)
    (scaleTwo_snd_pos one_pos exp : 0 < (scaleTwo mant 1 exp).2)
  rwa [scaleTwo_div, Nat.cast_one, div_one] at this

/-- No double has its first digit more than 324 places behind the point. -/
theorem leadPlace_ge {mant : ℕ} {exp : ℤ} (hd : IsDouble mant exp) : -324 ≤ leadPlace mant exp := by
  have hlt := (leadPlace_spec hd).2
  have hpos : (1 : ℚ) ≤ mant := by exact_mod_cast hd.pos
  have hsmall : (10 : ℚ) ^ (-324 : ℤ) ≤ 2 ^ (-1074 : ℤ) := by
    rw [zpow_neg, zpow_neg, inv_le_inv₀ (by positivity) (by positivity)]
    calc (2 : ℚ) ^ (1074 : ℕ) = (2 ^ 179) ^ 6 := by rw [← pow_mul]
      _ ≤ (10 ^ 54) ^ 6 := by gcongr; norm_num
      _ = 10 ^ (324 : ℕ) := by rw [← pow_mul]
  have hmin : (2 : ℚ) ^ (-1074 : ℤ) ≤ 2 ^ exp := zpow_le_zpow_right₀ (by norm_num) hd.minExp_le
  have hpow := zpow_two_pos exp
  have : (10 : ℚ) ^ (-324 : ℤ) < 10 ^ (leadPlace mant exp + 1) := by nlinarith
  have := (zpow_lt_zpow_iff_right₀ (by norm_num : (1 : ℚ) < 10)).1 this
  omega

/-- The search for the shortest decimal. -/
def searchGrids (mant : ℕ) (exp lead : ℤ) : Option (ℕ × ℤ) :=
  (List.range 17).findSome? fun (n : ℕ) => (onGrid? mant exp (lead - n)).map (·, lead - (n : ℤ))

theorem searchGrids_spec {mant : ℕ} {exp : ℤ} (hd : IsDouble mant exp) :
    ∃ c g, searchGrids mant exp (leadPlace mant exp) = some (c, g) ∧ Rounds (c * 10 ^ g) mant exp
      ∧ -340 ≤ g := by
  have hlead := leadPlace_spec hd
  have hge := leadPlace_ge hd
  have hsome : (searchGrids mant exp (leadPlace mant exp)).isSome = true := by
    unfold searchGrids
    rw [List.findSome?_isSome_iff]
    refine ⟨16, by simp, ?_⟩
    rw [Option.isSome_map]
    refine onGrid?_isSome hd ?_
    rw [zpow_sub₀ (by norm_num)]
    norm_num
    exact hlead.1
  obtain ⟨⟨c, g⟩, hcg⟩ := Option.isSome_iff_exists.1 hsome
  refine ⟨c, g, hcg, ?_⟩
  obtain ⟨n, hn, hmap⟩ := List.exists_of_findSome?_eq_some hcg
  obtain ⟨c', hc', heq⟩ := Option.map_eq_some_iff.1 hmap
  obtain ⟨rfl, rfl⟩ := Prod.mk.inj heq
  have hlt := List.mem_range.1 hn
  exact ⟨onGrid?_rounds hc', by omega⟩

/-- Zero rounds to no positive double. -/
theorem Rounds.pos {v : ℚ} {mant : ℕ} {exp : ℤ} (hd : IsDouble mant exp) (h : Rounds v mant exp) : 0 < v := by
  have hpow := zpow_two_pos exp
  have hlow := (h.bounds hd).1.1
  have hpos : (1 : ℚ) ≤ mant := by exact_mod_cast hd.pos
  rw [le_div_iff₀ hpow] at hlow
  nlinarith

/-- **The shortest decimal lies in the rounding interval.** -/
theorem shortest_rounds {mant : ℕ} {exp : ℤ} (hd : IsDouble mant exp) :
    Rounds ((shortest mant exp).1 * 10 ^ (shortest mant exp).2) mant exp
      ∧ -340 ≤ (shortest mant exp).2 := by
  obtain ⟨c, g, hfound, hrounds, hge⟩ := searchGrids_spec hd
  have heq : shortest mant exp = if c % 10 = 0 then (c / 10, g + 1) else (c, g) := by
    unfold searchGrids at hfound
    simp only [shortest]
    rw [show floorLogTen _ _ = leadPlace mant exp from rfl, hfound]
  rw [heq]
  split
  · rename_i hten
    have hval : ((c / 10 : ℕ) : ℚ) * 10 ^ (g + 1) = c * 10 ^ g := by
      have : (c : ℚ) = ((c / 10 : ℕ) : ℚ) * 10 := by
        have : c = c / 10 * 10 := by omega
        exact_mod_cast this
      rw [zpow_add₀ (by norm_num), zpow_one, this]
      ring_nf
    exact ⟨by rw [hval]; exact hrounds, by omega⟩
  · exact ⟨hrounds, hge⟩

end Staging.Number
