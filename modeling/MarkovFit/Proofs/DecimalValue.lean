import MarkovFit.LinearProgram.Basic
import Mathlib.Algebra.Order.Field.Rat
import Mathlib.Data.Rat.Cast.Order
import Mathlib.Order.Compare
import Mathlib.Tactic

/-!
# Values of decimals

`Decimal.toRat` is the exact value. Comparison, sign changes and snapping are described by
what they do to it, so that later files never open mantissa and scale again.
-/

namespace MarkovFit.Proofs

open Decimal

/-- The value as a fraction of the signed mantissa. -/
theorem toRat_eq_div (a : Decimal) : a.toRat = (a.signedMantissa : ℚ) / 10 ^ a.scale := by
  rw [toRat, Rat.mkRat_eq_div]
  push_cast [Nat.pow_eq]
  rfl

/-- A decimal counts whole units of any finer scale. -/
theorem units_eq_mul_toRat (a : Decimal) {scale : Nat} (h : a.scale ≤ scale) :
    (a.units scale : ℚ) = a.toRat * 10 ^ scale := by
  have hsplit : (10 : ℚ) ^ scale = 10 ^ (scale - a.scale) * 10 ^ a.scale := by
    rw [← pow_add, Nat.sub_add_cancel h]
  rw [toRat_eq_div, hsplit, units]
  push_cast [Nat.pow_eq]
  field_simp

/-- Decimals are compared by their values. -/
theorem compare_eq_cmp (a b : Decimal) : a.compare b = cmp a.toRat b.toRat := by
  let scale := max a.scale b.scale
  have hpos : (0 : ℚ) < 10 ^ scale := by positivity
  have ha := units_eq_mul_toRat a (le_max_left a.scale b.scale)
  have hb := units_eq_mul_toRat b (le_max_right a.scale b.scale)
  calc a.compare b = cmp (a.units scale) (b.units scale) := by
        rw [cmp_eq_compare]
        rfl
    _ = cmp (a.units scale : ℚ) (b.units scale : ℚ) := by
        simp only [cmp, cmpUsing, Int.cast_lt]
    _ = cmp a.toRat b.toRat := by rw [ha, hb, cmp_mul_pos_right hpos]

theorem lt_iff_toRat_lt (a b : Decimal) : a < b ↔ a.toRat < b.toRat := by
  change a.compare b = .lt ↔ _
  rw [compare_eq_cmp, cmp_eq_lt_iff]

theorem le_iff_toRat_le (a b : Decimal) : a ≤ b ↔ a.toRat ≤ b.toRat := by
  change a.compare b ≠ .gt ↔ _
  rw [compare_eq_cmp, ne_eq, cmp_eq_gt_iff, not_lt]

theorem sameValue_iff_toRat_eq (a b : Decimal) : a.SameValue b ↔ a.toRat = b.toRat := by
  change a.compare b = .eq ↔ _
  rw [compare_eq_cmp, cmp_eq_eq_iff]

@[simp] lemma toRat_zero : Decimal.zero.toRat = 0 := by
  rw [toRat_eq_div]
  simp [signedMantissa, Decimal.zero]

@[simp] lemma toRat_one : Decimal.one.toRat = 1 := by
  rw [toRat_eq_div]
  simp [signedMantissa, Decimal.one]

@[simp] lemma toRat_neg (a : Decimal) : (-a).toRat = -a.toRat := by
  rw [toRat_eq_div, toRat_eq_div, ← neg_div]
  congr 1
  change ((a.neg.signedMantissa : ℤ) : ℚ) = _
  cases h : a.negative <;> simp [neg, signedMantissa, h]

/-- The value is zero exactly when the mantissa is. -/
theorem toRat_eq_zero_iff (a : Decimal) : a.toRat = 0 ↔ a.mantissa = 0 := by
  have hpow : (10 : ℚ) ^ a.scale ≠ 0 := by positivity
  rw [toRat_eq_div, div_eq_zero_iff, or_iff_left hpow, Int.cast_eq_zero, signedMantissa]
  split <;> omega

theorem toRat_abs (a : Decimal) : a.abs.toRat = |a.toRat| := by
  have hmantissa : (a.abs.signedMantissa : ℚ) = |(a.signedMantissa : ℚ)| := by
    cases h : a.negative <;> simp [Decimal.abs, signedMantissa, h]
  rw [toRat_eq_div, toRat_eq_div, abs_div, hmantissa, abs_of_pos (by positivity : (0 : ℚ) < 10 ^ a.scale)]
  rfl

/-- Snapping leaves a value alone that exceeds the precision in magnitude. -/
theorem snap_eq_self {value precision : Decimal} (h : precision.toRat < |value.toRat|) :
    value.snap precision = value := by
  rw [snap, if_neg]
  rw [le_iff_toRat_le, toRat_abs, not_le]
  exact h

/-- Snapping gives zero within the precision. -/
theorem snap_eq_zero {value precision : Decimal} (h : |value.toRat| ≤ precision.toRat) :
    value.snap precision = Decimal.zero := by
  rw [snap, if_pos]
  rw [le_iff_toRat_le, toRat_abs]
  exact h

end MarkovFit.Proofs
