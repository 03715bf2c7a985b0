import Staging.Number.Read
import Staging.Proofs.Number.Decimal
import Staging.Proofs.Number.Model
import Staging.Proofs.Source.Bare
import Staging.Proofs.Source.Printable
import Staging.Proofs.Source.Spelling

/-!
The text of a number reads back as that number.

`ofNumeral_text` says so for every finite double without a sign; a negative zero is written as zero. With
it comes the shape of the text (`numeral_text`): digits, and possibly a point and more digits, so that a
scanner takes it as one numeral.
-/

namespace Staging.Number

/-! ### Doubles and their bits -/

/-- The bits of a double without a sign, from its mantissa and exponent. -/
theorem viewBits_eq_finite {bits mant : ℕ} {exp : ℤ} (hbits : bits < 2 ^ 64)
    (h : viewBits bits = .finite false mant exp) :
    bits = (exp - minExp).toNat * 2 ^ 52 + mant ∧ bits < infinityBits ∧ (0 < mant → IsDouble mant exp) := by
  simp only [viewBits, Nat.pow_eq, minExp] at h
  have hfield : bits / 2 ^ 52 % 2 ^ 11 < 2 ^ 11 := Nat.mod_lt _ (by decide)
  have hfrac : bits % 2 ^ 52 < 2 ^ 52 := Nat.mod_lt _ (by decide)
  split at h
  · split at h <;> cases h
  · rename_i hne
    split at h
    · rename_i hzero
      simp only [View.finite.injEq, decide_eq_false_iff_not, not_le] at h
      obtain ⟨hsign, rfl, rfl⟩ := h
      simp only [minExp, infinityBits]
      refine ⟨by omega, by omega, fun hpos => ⟨hpos, by omega, le_refl _, fun h => absurd h (lt_irrefl _)⟩⟩
    · rename_i hnz
      simp only [View.finite.injEq, decide_eq_false_iff_not, not_le] at h
      obtain ⟨hsign, rfl, rfl⟩ := h
      simp only [minExp, infinityBits]
      refine ⟨by omega, by omega, fun hpos => ⟨hpos, by omega, by simp only [minExp]; omega, fun _ => by omega⟩⟩

/-! ### Reading positional decimals -/

theorem digitsValue_eq (ds : List Char) : digitsValue ds = Nat.ofDigitChars 10 ds 0 := rfl

theorem digitsValue_snoc (ds : List Char) (c : Char) :
    digitsValue (ds ++ [c]) = 10 * digitsValue ds + (c.toNat - 48) := by
  simp [digitsValue]

theorem isDigit_toDigits (n : ℕ) : (Nat.toDigits 10 n).all Char.isDigit = true := by
  rw [List.all_eq_true]
  exact fun c hc => Nat.isDigit_of_mem_toDigits (by decide) (by decide) hc

/-- The number a numeral denotes: its digits, moved by as many places as stand behind the point. -/
theorem readDecimal?_whole {ds : List Char} (hne : ds ≠ []) (hd : ds.all Char.isDigit = true) :
    readDecimal? false ds = some (ofDecimal false (digitsValue ds) 0) := by
  have split := takeWhile_append_of_all [] hd (by rintro _ ⟨⟩)
  rw [List.append_nil] at split
  simp [readDecimal?, split.1, split.2, hne, readExponent?]

theorem readDecimal?_fraction {ds fs : List Char} (hne : ds ≠ []) (hd : ds.all Char.isDigit = true)
    (hf : fs.all Char.isDigit = true) :
    readDecimal? false (ds ++ '.' :: fs) = some (ofDecimal false (digitsValue (ds ++ fs)) (-fs.length)) := by
  have whole := takeWhile_append_of_all ('.' :: fs) hd (by rintro _ ⟨⟩; decide)
  have frac := takeWhile_append_of_all [] hf (by rintro _ ⟨⟩)
  rw [List.append_nil] at frac
  simp [readDecimal?, whole.1, whole.2, frac.1, frac.2, hne, readExponent?]

theorem digit_bounds {c : Char} (digit : c.isDigit = true) : 48 ≤ c.toNat ∧ c.toNat ≤ 57 := by
  simpa [Char.isDigit, UInt32.le_iff_toNat_le] using digit

theorem toLower_of_isDigit {c : Char} (h : c.isDigit = true) : c.toLower = c := by
  unfold Char.toLower
  have hlow := digit_bounds h
  rw [dif_neg]
  intro hup
  have : 65 ≤ c.toNat := by simpa [UInt32.le_iff_toNat_le] using hup.1
  omega

/-- A text that begins with a digit is read as a decimal. -/
theorem read?_eq_readDecimal? {c : Char} {cs : List Char} (h : c.isDigit = true) :
    read? (c :: cs) = readDecimal? false (c :: cs) := by
  have hsign : splitSign (c :: cs) = (false, c :: cs) := by
    unfold splitSign
    split
    · rename_i heq
      cases heq
      cases h
    · rename_i heq
      cases heq
      cases h
    · rfl
  have hword : ∀ d ds, d.isDigit = false → String.ofList ((c :: cs).map Char.toLower) ≠ String.ofList (d :: ds) := by
    intro d ds hd heq
    have := String.ofList_injective heq
    rw [List.map_cons, toLower_of_isDigit h] at this
    obtain ⟨rfl, -⟩ := List.cons.inj this
    rw [h] at hd
    cases hd
  have hinf : String.ofList ((c :: cs).map Char.toLower) ≠ "inf" := hword 'i' ['n', 'f'] rfl
  have hinfinity : String.ofList ((c :: cs).map Char.toLower) ≠ "infinity" :=
    hword 'i' ['n', 'f', 'i', 'n', 'i', 't', 'y'] rfl
  have hnan : String.ofList ((c :: cs).map Char.toLower) ≠ "nan" := hword 'n' ['a', 'n'] rfl
  simp only [read?, hsign]
  rw [if_neg (by simp only [hinf, hinfinity, or_self, not_false_eq_true]), if_neg hnan]

/-- The decimal that a number written without an exponent is read as. -/
theorem positional_spec (d : ℕ) (k : ℤ) :
    Numeral (positional d k) ∧ ∃ mant exp, readDecimal? false (positional d k) = some (ofDecimal false mant exp)
      ∧ (mant : ℚ) * 10 ^ exp = d * 10 ^ k ∧ exp ≤ 0 ∧ min k 0 ≤ exp := by
  have hdigits := isDigit_toDigits d
  have hne : Nat.toDigits 10 d ≠ [] := Nat.toDigits_ne_nil
  have hvalue : digitsValue (Nat.toDigits 10 d) = d := Nat.ofDigitChars_ten_toDigits
  have hzeros : ∀ n, (List.replicate n '0').all Char.isDigit = true := by
    intro n
    simp
  simp only [positional]
  split
  · rename_i hk
    have hall : (Nat.toDigits 10 d ++ List.replicate k.toNat '0').all Char.isDigit = true := by
      rw [List.all_append, hdigits, hzeros, Bool.and_self]
    have hnil : Nat.toDigits 10 d ++ List.replicate k.toNat '0' ≠ [] := by simp [hne]
    refine ⟨.whole hnil hall, _, 0, readDecimal?_whole hnil hall, ?_, le_rfl, by omega⟩
    rw [digitsValue_eq, Nat.ofDigitChars_append, ← digitsValue_eq, hvalue, Nat.ofDigitChars_replicate_zero]
    obtain ⟨n, rfl⟩ := Int.eq_ofNat_of_zero_le hk
    push_cast
    rw [Int.toNat_natCast, zpow_natCast]
    ring
  · rename_i hk
    split
    · rename_i hlt
      set ds := Nat.toDigits 10 d with hds
      set places := (-k).toNat with hplaces
      have hsplit := List.take_append_drop (ds.length - places) ds
      have hleft : ds.take (ds.length - places) ≠ [] := by
        rw [← List.length_pos_iff, List.length_take]
        omega
      have hright : ds.drop (ds.length - places) ≠ [] := by
        rw [← List.length_pos_iff, List.length_drop]
        omega
      have hall : (ds.take (ds.length - places)).all Char.isDigit = true
          ∧ (ds.drop (ds.length - places)).all Char.isDigit = true := by
        rw [← Bool.and_eq_true, ← List.all_append, hsplit]
        exact hdigits
      have hlen : (ds.drop (ds.length - places)).length = places := by
        rw [List.length_drop]
        omega
      refine ⟨.fraction hleft hall.1 hright hall.2, _, _, readDecimal?_fraction hleft hall.1 hall.2, ?_, by omega,
        by omega⟩
      rw [hsplit, hvalue, hlen, show -(places : ℤ) = k by omega]
    · rename_i hge
      set ds := Nat.toDigits 10 d with hds
      set places := (-k).toNat with hplaces
      rw [List.cons_append, List.cons_append]
      have hall : (List.replicate (places - ds.length) '0' ++ ds).all Char.isDigit = true := by
        rw [List.all_append, hdigits, hzeros, Bool.and_self]
      have hnil : List.replicate (places - ds.length) '0' ++ ds ≠ [] := by simp [hne]
      have hlen : (List.replicate (places - ds.length) '0' ++ ds).length = places := by
        rw [List.length_append, List.length_replicate]
        omega
      refine ⟨@Numeral.fraction ['0'] _ (by simp) (by decide) hnil hall, _, _,
        @readDecimal?_fraction ['0'] _ (by simp) (by decide) hall, ?_, by omega, by omega⟩
      have hval : digitsValue (['0'] ++ (List.replicate (places - ds.length) '0' ++ ds)) = d := by
        rw [digitsValue_eq, ← List.append_assoc, Nat.ofDigitChars_append]
        have hzero : Nat.ofDigitChars 10 (['0'] ++ List.replicate (places - ds.length) '0') 0 = 0 := by
          rw [show (['0'] : List Char) = List.replicate 1 '0' from rfl, List.replicate_append_replicate,
            Nat.ofDigitChars_replicate_zero, Nat.mul_zero]
        rw [hzero]
        exact hvalue
      rw [hval, hlen, show -(places : ℤ) = k by omega]

/-- A decimal is rounded to the double in whose rounding interval it lies. -/
theorem ofDecimal_eq {mant m : ℕ} {exp e : ℤ} (hm : IsDouble m e)
    (hr : Rounds (mant * 10 ^ exp) m e) (h₁ : exp ≤ 0) (h₂ : -400 ≤ exp)
    (hfin : (e - minExp).toNat * 2 ^ 52 + m < infinityBits) :
    ofDecimal false mant exp = Float.ofBits ((e - minExp).toNat * 2 ^ 52 + m).toUInt64 := by
  have hv := hr.pos hm
  have hmant : 0 < mant := by
    rw [Nat.pos_iff_ne_zero]
    rintro rfl
    simp at hv
  unfold ofDecimal
  rw [if_neg (by omega), if_neg (by omega), if_neg (by omega)]
  have key : ∀ {num den : ℕ}, 0 < num → 0 < den → (num / den : ℚ) = mant * 10 ^ exp →
      ofRatio false num den = Float.ofBits ((e - minExp).toNat * 2 ^ 52 + m).toUInt64 := by
    intro num den hn hd hval
    rw [← hval] at hr
    simp only [ofRatio, Bool.false_eq_true, if_false]
    rw [bitsOfRatio_eq hn hd hm hr, min_eq_left hfin.le]
  split
  · rename_i hge
    obtain rfl : exp = 0 := by omega
    refine key (by simpa using hmant) one_pos ?_
    simp
  · rename_i hlt
    obtain ⟨n, hn⟩ := Int.eq_ofNat_of_zero_le (a := -exp) (by omega)
    obtain rfl : exp = -n := by omega
    refine key hmant (by simp only [Nat.pow_eq]; positivity) ?_
    simp only [neg_neg, Int.toNat_natCast, Nat.pow_eq, zpow_neg, zpow_natCast]
    push_cast
    rw [div_eq_mul_inv]

/-! ### The text of a number -/

theorem numeral_zero : Numeral ['0'] := .whole (by simp) (by decide)

/-- The magnitude of a double is written as a numeral that reads back as the double. -/
theorem magnitudeText_spec {x : Float} {mant : ℕ} {exp : ℤ} (h : view x = .finite false mant exp) :
    Numeral (magnitudeText mant exp) ∧ ofNumeral (String.ofList (magnitudeText mant exp)) = x := by
  obtain ⟨hbits, hfin, hdouble⟩ := viewBits_eq_finite x.toBits.toNat_lt h
  unfold magnitudeText
  split
  · rename_i hzero
    subst hzero
    refine ⟨numeral_zero, ?_⟩
    have hx : x.toBits = 0 := by
      apply UInt64.toNat_inj.1
      have hexp : exp = minExp := by
        simp only [view, viewBits, Nat.pow_eq] at h
        split at h
        · split at h <;> cases h
        · split at h
          · exact (View.finite.inj h).2.2.symm
          · have := (View.finite.inj h).2.1
            omega
      rw [hbits, hexp, sub_self]
      rfl
    have hread : ofNumeral (String.ofList ['0']) = Float.ofBits 0 := by decide +kernel
    rw [hread, ← hx, ofBits_toBits]
  · rename_i hnz
    have hd := hdouble (Nat.pos_of_ne_zero hnz)
    obtain ⟨hrounds, hge⟩ := shortest_rounds hd
    obtain ⟨hnum, m, k, hread, hval, h₁, h₂⟩ := positional_spec (shortest mant exp).1 (shortest mant exp).2
    refine ⟨hnum, ?_⟩
    obtain ⟨c, cs, hcs, hdigit⟩ := hnum.head
    have hread? : read? (positional (shortest mant exp).1 (shortest mant exp).2)
        = some (ofDecimal false m k) := by
      rw [hcs] at hread ⊢
      rw [read?_eq_readDecimal? hdigit, hread]
    rw [← hval] at hrounds
    rw [hbits] at hfin
    rw [ofNumeral, String.toList_ofList, hread?, Option.getD_some,
      ofDecimal_eq hd hrounds h₁ (by omega) hfin, ← hbits, Nat.toUInt64, UInt64.ofNat_toNat, ofBits_toBits]

theorem text_eq {x : Float} {negative : Bool} {mant : ℕ} {exp : ℤ} (h : view x = .finite negative mant exp)
    (hs : (negative && mant != 0) = false) : text x = String.ofList (magnitudeText mant exp) := by
  simp [text, render, h, scriptSpelling, hs]

/-- **The text of an unsigned number is a numeral.** -/
theorem numeral_text {x : Float} (h : isUnsigned x = true) : Numeral (text x).toList := by
  unfold isUnsigned at h
  cases hv : view x with
  | nan => simp [hv] at h
  | infinite negative => simp [hv] at h
  | finite negative mant exp =>
    simp only [hv, Bool.or_eq_true, Bool.not_eq_true', beq_iff_eq] at h
    rw [text_eq hv (by rcases h with rfl | rfl <;> simp), String.toList_ofList]
    rcases h with rfl | rfl
    · exact (magnitudeText_spec hv).1
    · exact numeral_zero

/-- **The text of a number reads back**: a double without a sign is found again from its text. -/
theorem ofNumeral_text {x : Float} {mant : ℕ} {exp : ℤ} (h : view x = .finite false mant exp) :
    ofNumeral (text x) = x := by
  rw [text_eq h (by simp)]
  exact (magnitudeText_spec h).2

/-! ### Numbers as literals -/

/-- The only double without magnitude that has a sign. -/
theorem eq_of_view_negative_zero {x : Float} {exp : ℤ} (h : view x = .finite true 0 exp) :
    x = Float.ofBits 0x8000000000000000 := by
  have hlt := x.toBits.toNat_lt
  have hbits : x.toBits = 0x8000000000000000 := by
    apply UInt64.toNat_inj.1
    simp only [view, viewBits, Nat.pow_eq] at h
    split at h
    · split at h <;> cases h
    · split at h
      · obtain ⟨hsign, hfrac, -⟩ := View.finite.inj h
        have := of_decide_eq_true hsign
        show x.toBits.toNat = 2 ^ 63
        omega
      · have := (View.finite.inj h).2.1
        omega
  rw [← hbits, ofBits_toBits]

/-- What the text of an unsigned number is read as is the same number; both zeros are one. -/
theorem bare_ofNumeral_text {x : Float} (h : isUnsigned x = true) :
    (Literal.number (ofNumeral (text x))).bare = (Literal.number x).bare := by
  unfold isUnsigned at h
  cases hv : view x with
  | nan => simp [hv] at h
  | infinite negative => simp [hv] at h
  | finite negative mant exp =>
    cases negative with
    | false => rw [ofNumeral_text hv]
    | true =>
      obtain rfl : mant = 0 := by simpa [hv] using h
      have hread : ofNumeral (text (Float.ofBits 0x8000000000000000)) = 0.0 := by decide +kernel
      have hzero : (Float.ofBits 0x8000000000000000 == 0.0) = true := by decide +kernel
      rw [eq_of_view_negative_zero hv, hread]
      simp only [Literal.bare, hzero, if_true]
      simp

theorem isNegative_eq {x : Float} {negative : Bool} {mant : ℕ} {exp : ℤ}
    (h : view x = .finite negative mant exp) : isNegative x = negative := by
  simp only [view, viewBits] at h
  split at h
  · split at h <;> cases h
  · split at h <;> exact (View.finite.inj h).1

/-- Unsigned numbers are written without a minus sign. -/
theorem isSigned_eq_false {x : Float} (h : isUnsigned x = true) : (Literal.number x).isSigned = false := by
  unfold isUnsigned at h
  cases hv : view x with
  | nan => simp [hv] at h
  | infinite negative => simp [hv] at h
  | finite negative mant exp =>
    cases negative with
    | false => simp [Literal.isSigned, isNegative_eq hv]
    | true =>
      obtain rfl : mant = 0 := by simpa [hv] using h
      have hzero : (Float.ofBits 0x8000000000000000 != 0.0) = false := by decide +kernel
      rw [eq_of_view_negative_zero hv]
      simp [Literal.isSigned, hzero]

end Staging.Number
