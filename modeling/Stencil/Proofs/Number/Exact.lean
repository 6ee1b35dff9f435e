import Mathlib.Algebra.Order.Field.Power
import Mathlib.Data.Rat.Cast.Order
import Mathlib.Tactic.FieldSimp
import Mathlib.Tactic.Linarith
import Mathlib.Tactic.Positivity
import Mathlib.Tactic.Ring
import Stencil.Number

/-!
# Rounding leaves numbers as they are

The number nearest to a quotient that is the value of a finite number is that number
(`nearest_exact`). An integral number in particular is the number nearest to the integer that it is,
except that an integer zero has no sign (`ofInt_toInt`).
-/

set_option autoImplicit false

namespace Stencil

namespace Binary64

/-! ## The value of a number -/

/-- The value of a finite number without its sign. -/
def magnitude (x : Binary64) : ℚ := x.significand * 2 ^ x.scale

theorem twoTo_eq (n : Nat) : twoTo n = 2 ^ n := rfl

theorem significand_lt (x : Binary64) : x.significand < 2 ^ 53 := by
  have := x.fraction.isLt
  rw [significand, twoTo_eq]
  split <;> omega

theorem le_scale (x : Binary64) : -1074 ≤ x.scale := by
  rw [scale]
  split <;> omega

/-- A significand of less than 53 bits stands at the smallest scale. -/
theorem significand_normal (x : Binary64) : 2 ^ 52 ≤ x.significand ∨ x.scale = -1074 := by
  rw [significand, scale, twoTo_eq]
  split
  · exact .inr rfl
  · exact .inl (Nat.le_add_right _ _)

/-- The code of a number is its scale, counted from the smallest one, and its significand, whose
bit before the fraction carries into the exponent. -/
theorem ofCode_scale {x : Binary64} (h : x.isFinite = true) :
    ofCode x.negative ((x.scale + 1074).toNat * 4503599627370496 + x.significand) = x := by
  obtain ⟨negative, ⟨exponent, hexponent⟩, ⟨fraction, hfraction⟩⟩ := x
  have hfinite : exponent ≠ 2047 := by simpa [isFinite, Fin.ext_iff] using h
  have hcode : (scale ⟨negative, ⟨exponent, hexponent⟩, ⟨fraction, hfraction⟩⟩ + 1074).toNat
        * 4503599627370496 + significand ⟨negative, ⟨exponent, hexponent⟩, ⟨fraction, hfraction⟩⟩
      = exponent * 4503599627370496 + fraction := by
    simp only [scale, significand, twoTo_eq, Fin.ext_iff]
    split
    · simp_all
    · simp_all
      omega
  rw [hcode, ofCode, dif_pos (by omega)]
  congr 2 <;> omega

/-! ## Quotients at a scale -/

theorem scaled_div (num den : Nat) (q : Int) :
    ((scaled num den q).1 : ℚ) / (scaled num den q).2 = num / den / 2 ^ q := by
  rw [scaled, twoTo_eq]
  split
  · next hq =>
    obtain ⟨k, rfl⟩ : ∃ k : Nat, q = -k := ⟨q.natAbs, by omega⟩
    rw [Int.natAbs_neg, Int.natAbs_natCast, zpow_neg, zpow_natCast]
    push_cast
    field_simp
  · next hq =>
    obtain ⟨k, rfl⟩ := Int.eq_ofNat_of_zero_le (Int.not_lt.mp hq)
    rw [Int.natAbs_natCast, zpow_natCast]
    push_cast
    rw [div_div]

section Scaled

variable (num : Nat) {den : Nat} (q : Int)

theorem scaled_snd_pos (hden : 0 < den) : 0 < (scaled num den q).2 := by
  rw [scaled, twoTo_eq]
  split
  · exact hden
  · exact Nat.mul_pos hden (Nat.two_pow_pos _)

/-- A quotient fills 53 bits at a scale if it is large enough. -/
theorem le_scaled_iff (hden : 0 < den) : twoTo 53 * (scaled num den q).2 ≤ (scaled num den q).1
    ↔ (2 : ℚ) ^ (q + 53) ≤ num / den := by
  have hsnd : (0 : ℚ) < (scaled num den q).2 := by exact_mod_cast scaled_snd_pos num q hden
  have hpow : (2 : ℚ) ^ (q + 53) = 2 ^ 53 * 2 ^ q := by
    rw [zpow_add₀ two_ne_zero, mul_comm]
    norm_cast
  rw [hpow, ← le_div_iff₀ (by positivity), ← scaled_div, le_div_iff₀ hsnd, twoTo_eq]
  exact_mod_cast Iff.rfl

end Scaled

theorem roundHalfEven_mul {m d : Nat} (hd : 0 < d) : roundHalfEven (m * d) d = m := by
  simp [roundHalfEven, hd]

/-! ## The scale of a quotient -/

/-- The logarithms of its parts tell a quotient up to a factor of four. -/
theorem quotient_bounds {num den : Nat} (hnum : 0 < num) (hden : 0 < den) :
    (2 : ℚ) ^ ((num.log2 : Int) - den.log2 - 1) < num / den ∧
      (num / den : ℚ) < 2 ^ ((num.log2 : Int) - den.log2 + 1) := by
  have hden' : (0 : ℚ) < den := by exact_mod_cast hden
  have hnumlow : (2 : ℚ) ^ (num.log2 : Int) ≤ num := by
    exact_mod_cast Nat.log2_self_le hnum.ne'
  have hnumhigh : (num : ℚ) < 2 ^ ((num.log2 : Int) + 1) := by
    exact_mod_cast Nat.lt_log2_self
  have hdenlow : (2 : ℚ) ^ (den.log2 : Int) ≤ den := by
    exact_mod_cast Nat.log2_self_le hden.ne'
  have hdenhigh : (den : ℚ) < 2 ^ ((den.log2 : Int) + 1) := by
    exact_mod_cast Nat.lt_log2_self
  rw [lt_div_iff₀ hden', div_lt_iff₀ hden']
  constructor
  · calc (2 : ℚ) ^ ((num.log2 : Int) - den.log2 - 1) * den
        < 2 ^ ((num.log2 : Int) - den.log2 - 1) * 2 ^ ((den.log2 : Int) + 1) := by gcongr
      _ = 2 ^ (num.log2 : Int) := by rw [← zpow_add₀ two_ne_zero]; congr 1; omega
      _ ≤ num := hnumlow
  · calc (num : ℚ) < 2 ^ ((num.log2 : Int) + 1) := hnumhigh
      _ = 2 ^ ((num.log2 : Int) - den.log2 + 1) * 2 ^ (den.log2 : Int) := by
        rw [← zpow_add₀ two_ne_zero]; congr 1; omega
      _ ≤ 2 ^ ((num.log2 : Int) - den.log2 + 1) * den := by gcongr

/-- The bits of the significand tell between which powers of two the value lies. -/
theorem magnitude_lt_iff (x : Binary64) (n : Nat) :
    x.magnitude < 2 ^ (x.scale + n) ↔ x.significand < 2 ^ n := by
  rw [magnitude, zpow_add₀ two_ne_zero, mul_comm, mul_lt_mul_iff_right₀ (by positivity),
    zpow_natCast]
  exact_mod_cast Iff.rfl

/-- The scale chosen for the value of a number is the scale of the number. -/
theorem scaleFor_magnitude {x : Binary64} {num den : Nat} (hnum : 0 < num) (hden : 0 < den)
    (h : (num / den : ℚ) = x.magnitude) : scaleFor num den = x.scale := by
  obtain ⟨hlow, hhigh⟩ := quotient_bounds hnum hden
  have hbelow : x.magnitude < 2 ^ (x.scale + 53) := (x.magnitude_lt_iff 53).mpr x.significand_lt
  have hleast := x.le_scale
  have hpow {m n : Int} : (2 : ℚ) ^ m < 2 ^ n ↔ m < n := zpow_lt_zpow_iff_right₀ one_lt_two
  simp only [scaleFor, le_scaled_iff _ _ hden]
  rw [h] at hlow hhigh ⊢
  generalize (num.log2 : Int) - den.log2 = size at *
  have hsize : size - 1 < x.scale + 53 := hpow.mp (hlow.trans hbelow)
  by_cases hnormal : 2 ^ 52 ≤ x.significand
  · -- the guess is the scale or the one below it, and the test tells them apart
    have habove : 2 ^ (x.scale + 52) ≤ x.magnitude :=
      not_lt.mp fun h => not_le.mpr ((x.magnitude_lt_iff 52).mp h) hnormal
    have hsize' : x.scale + 52 < size + 1 := hpow.mp (habove.trans_lt hhigh)
    rcases (by omega : size - 53 = x.scale ∨ size - 53 + 1 = x.scale) with hguess | hguess
    · rw [if_neg (by rw [hguess]; exact not_le.mpr hbelow)]
      omega
    · rw [if_pos (by rw [show size - 53 + 53 = x.scale + 52 by omega]; exact habove)]
      omega
  · have hscale := x.significand_normal.resolve_left hnormal
    have hsmall : x.magnitude < 2 ^ (x.scale + 52) :=
      (x.magnitude_lt_iff 52).mpr (not_le.mp hnormal)
    have hsize' : size - 1 < x.scale + 52 := hpow.mp (hlow.trans hsmall)
    split <;> omega

/-! ## The nearest number -/

theorem isZero_iff_significand {x : Binary64} : x.isZero = true ↔ x.significand = 0 := by
  rw [isZero, significand, twoTo_eq, Bool.and_eq_true, beq_iff_eq, beq_iff_eq]
  split
  · next h => simp only [h, Fin.ext_iff, true_and]; rfl
  · next h => simp only [h, false_and, false_iff]; omega

theorem isZero_iff_magnitude {x : Binary64} : x.isZero = true ↔ x.magnitude = 0 := by
  rw [isZero_iff_significand, magnitude, mul_eq_zero, Nat.cast_eq_zero,
    or_iff_left (zpow_ne_zero _ two_ne_zero)]

theorem eq_zero_of_isZero {x : Binary64} (h : x.isZero = true) : x = zero x.negative := by
  obtain ⟨negative, exponent, fraction⟩ := x
  simp only [isZero, Bool.and_eq_true, beq_iff_eq] at h
  obtain ⟨rfl, rfl⟩ := h
  rfl

/-- **Rounding leaves numbers as they are**: the number nearest to the value of a finite number is
that number. -/
theorem nearest_magnitude {x : Binary64} (hx : x.isFinite = true) {num den : Nat} (hden : 0 < den)
    (h : (num / den : ℚ) = x.magnitude) : nearest x.negative num den = x := by
  rcases Nat.eq_zero_or_pos num with rfl | hnum
  · have hzero : x.isZero = true := isZero_iff_magnitude.mpr (by rw [← h]; simp)
    rw [nearest, if_pos rfl, ← eq_zero_of_isZero hzero]
  have hsnd := scaled_snd_pos num x.scale hden
  have hfst : (scaled num den x.scale).1 = x.significand * (scaled num den x.scale).2 := by
    have hquotient := scaled_div num den x.scale
    rw [h, magnitude, mul_div_cancel_right₀ _ (by positivity), div_eq_iff (by positivity)]
      at hquotient
    exact_mod_cast hquotient
  simp only [nearest, if_neg hnum.ne', scaleFor_magnitude hnum hden h]
  rw [hfst, roundHalfEven_mul hsnd, ofCode_scale hx]

/-! ## Integers -/

theorem isFinite_of_isIntegral {x : Binary64} (h : x.isIntegral = true) : x.isFinite = true :=
  (Bool.and_eq_true_iff.mp h).1

theorem truncated_eq {x : Binary64} (h : x.isIntegral = true) :
    (x.truncated : ℚ) = x.magnitude := by
  rw [isIntegral, Bool.and_eq_true, Bool.or_eq_true, decide_eq_true_eq, beq_iff_eq] at h
  rw [truncated, magnitude, twoTo_eq]
  rw [twoTo_eq] at h
  split
  · next hscale =>
    obtain ⟨k, hk⟩ : ∃ k : Nat, x.scale = -k := ⟨x.scale.natAbs, by omega⟩
    have hmod := h.2.resolve_left (not_le.mpr hscale)
    rw [hk, Int.natAbs_neg, Int.natAbs_natCast] at hmod ⊢
    rw [zpow_neg, zpow_natCast, ← div_eq_mul_inv, eq_div_iff (by positivity)]
    exact_mod_cast Nat.div_mul_cancel (Nat.dvd_of_mod_eq_zero hmod)
  · next hscale =>
    obtain ⟨k, hk⟩ := Int.eq_ofNat_of_zero_le (not_lt.mp hscale)
    rw [hk, Int.natAbs_natCast, zpow_natCast]
    norm_cast

/-- The number, with a zero losing its sign. -/
def unsignedZero (x : Binary64) : Binary64 := if x.isZero then zero false else x

/-- **Integers are kept**: an integral number is the number nearest to the integer that it is, but
for the sign of zero. -/
theorem ofInt_toInt {x : Binary64} (h : x.isIntegral = true) : ofInt x.toInt = x.unsignedZero := by
  have hmagnitude : (x.truncated / (1 : Nat) : ℚ) = x.magnitude := by
    rw [truncated_eq h, Nat.cast_one, div_one]
  have hnatAbs : x.toInt.natAbs = x.truncated := by
    rw [toInt]
    split <;> omega
  rw [ofInt, hnatAbs, unsignedZero]
  by_cases hzero : x.truncated = 0
  · have : x.isZero = true := isZero_iff_magnitude.mpr (by rw [← truncated_eq h, hzero]; rfl)
    rw [if_pos this, nearest, if_pos hzero]
    simp [toInt, hzero]
  · have : x.isZero ≠ true := fun h0 => hzero <| by
      have := isZero_iff_magnitude.mp h0
      rw [← truncated_eq h] at this
      exact_mod_cast this
    have hsign : decide (x.toInt < 0) = x.negative := by
      rw [toInt]
      cases x.negative
      · simp
      · simp only [if_true, decide_eq_true_eq]
        omega
    rw [if_neg this, hsign, nearest_magnitude (isFinite_of_isIntegral h) Nat.one_pos hmagnitude]

end Binary64

end Stencil
