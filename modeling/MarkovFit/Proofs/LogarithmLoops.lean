import MarkovFit.Proofs.EqualValues
import MarkovFit.Proofs.NewtonStep

/-!
# Loops of the logarithm

Before its series is summed, the argument of a logarithm is brought into a narrow range by factors of ten
and of Euler's number. The steps that are allowed for this are enough for all positive decimals: each of
the loops ends because its condition fails.
-/

namespace MarkovFit.Proofs

open Decimal

variable {a b : Decimal} {k j : ℤ}

/-- A product that is not too large is there, and near the exact one. -/
theorem exists_mul? (ha : 0 ≤ a.toRat) (hb : 0 ≤ b.toRat) (h : a.toRat * b.toRat ≤ 100) :
    ∃ c, a.mul? b = some c ∧
      |c.toRat - a.toRat * b.toRat| ≤ halfUnit + relativeError * (a.toRat * b.toRat) := by
  have hnonneg := mul_nonneg ha hb
  have hlimit : decimalLimit = 2 ^ 96 - 1 / 2 := by rw [decimalLimit, mantissaBound_eq]
  obtain ⟨c, hc, hvalue⟩ := exists_of_isRounding (mul?_spec a b)
    (by rw [abs_of_nonneg hnonneg, hlimit]; linarith)
  refine ⟨c, hc, ?_⟩
  rw [hvalue]
  exact abs_rounded_sub_le hnonneg (by rw [mantissaBound_eq]; linarith)

theorem exists_raiseToOne (steps : ℕ) (ha : 0 ≤ a.toRat) (k : ℤ) :
    ∃ b j, raiseToOne steps a k = some (b, j) := by
  induction steps generalizing a k with
  | zero => exact ⟨a, k, rfl⟩
  | succ steps ih =>
    rw [raiseToOne]
    split
    · rename_i hlt
      rw [lt_iff_toRat_lt, toRat_one] at hlt
      obtain ⟨c, hc, -⟩ := exists_mul? (b := ten) ha (by rw [toRat_ten]; norm_num)
        (by rw [toRat_ten]; linarith)
      have hten : IsNat ten (10 ^ 1) := ⟨rfl, rfl, rfl⟩
      rw [hc]
      apply ih
      rw [mul?_pow_ten hten hc]
      linarith
    · exact ⟨a, k, rfl⟩

/-- A tenth of a decimal from ten on is exact. -/
theorem exists_tenth (ha : 10 ≤ a.toRat) : ∃ c, a.div? ten = some c ∧ c.toRat = a.toRat / 10 := by
  obtain ⟨c, hc, hvalue⟩ := exists_div?_whole (a := a) (b := ten) rfl (by decide)
  have hpos : 0 < a.toRat := by linarith
  have hmantissa := mantissa_eq_abs a
  rw [abs_of_pos hpos] at hmantissa
  -- With 28 digits after the point no decimal is as large as ten.
  have hscale : a.scale + 1 ≤ maxScale := by
    by_contra hfine
    have hfull : a.scale = 28 := by
      have := a.scale_le
      simp only [maxScale] at hfine
      omega
    have hlt : (a.mantissa : ℚ) < 2 ^ 96 := by
      rw [← mantissaBound_eq]
      exact_mod_cast a.mantissa_lt
    rw [hmantissa, hfull] at hlt
    linarith
  have hexact : a.toRat / 10 = a.mantissa / 10 ^ (a.scale + 1) := by
    rw [hmantissa, pow_succ]
    field_simp
  refine ⟨c, hc, ?_⟩
  rw [hvalue, toRat_ten, rounded_of_nonneg (by linarith), hexact,
    roundedMagnitude_eq_self hscale a.mantissa_lt]

theorem exists_lowerToTen (steps : ℕ) (ha : a.toRat < 10 ^ (steps + 1)) (k : ℤ) :
    ∃ b j, lowerToTen steps a k = some (b, j) ∧ b.toRat < 10 := by
  induction steps generalizing a k with
  | zero => exact ⟨a, k, rfl, by simpa using ha⟩
  | succ steps ih =>
    rw [lowerToTen]
    split
    · rename_i hten
      rw [le_iff_toRat_le, toRat_ten] at hten
      obtain ⟨c, hc, hvalue⟩ := exists_tenth hten
      rw [hc]
      apply ih
      rw [hvalue, div_lt_iff₀ (by norm_num), ← pow_succ]
      exact ha
    · rename_i hlt
      rw [le_iff_toRat_le, toRat_ten, not_le] at hlt
      exact ⟨a, k, rfl, hlt⟩

theorem toRat_euler : euler.toRat = 27182818284590452353602874714 / 10 ^ 28 := by decide +kernel

theorem toRat_eulerInverse : eulerInverse.toRat = 3678794411714423215955237702 / 10 ^ 28 := by
  decide +kernel

/-- A factor of Euler's inverse takes off more than three fifths, and not more than its part of one. -/
theorem exists_lowered (hone : 1 ≤ a.toRat) (hten : a.toRat < 10) :
    ∃ c, a.mul? eulerInverse = some c ∧ eulerInverse.toRat ≤ c.toRat ∧ c.toRat ≤ 2 / 5 * a.toRat := by
  have hnonneg : 0 ≤ eulerInverse.toRat := by
    rw [toRat_eulerInverse]
    norm_num
  have hproduct : a.toRat * eulerInverse.toRat ≤ 100 := by
    rw [toRat_eulerInverse]
    linarith
  obtain ⟨c, hc, hmoved⟩ := exists_mul? (by linarith : 0 ≤ a.toRat) hnonneg hproduct
  refine ⟨c, hc, ?_, ?_⟩
  · have hrounding := mul?_spec a eulerInverse
    rw [hc] at hrounding
    obtain ⟨hlimit, hvalue⟩ := of_isRounding_some hrounding
    rw [hvalue]
    exact le_rounded eulerInverse (le_mul_of_one_le_left hnonneg hone) (abs_lt.1 hlimit).2
  · have habove := (abs_le.1 hmoved).2
    rw [toRat_eulerInverse, halfUnit, relativeError] at habove
    linarith

theorem exists_lowerBelowOne (steps : ℕ) (hlow : eulerInverse.toRat ≤ a.toRat) (hten : a.toRat < 10)
    (ha : a.toRat * (2 / 5) ^ steps < 1) (k : ℤ) :
    ∃ b j, lowerBelowOne steps a k = some (b, j) ∧ eulerInverse.toRat ≤ b.toRat ∧ b.toRat < 1 := by
  induction steps generalizing a k with
  | zero => exact ⟨a, k, rfl, hlow, by simpa using ha⟩
  | succ steps ih =>
    rw [lowerBelowOne]
    split
    · rename_i hone
      rw [le_iff_toRat_le, toRat_one] at hone
      obtain ⟨c, hc, hclow, hcle⟩ := exists_lowered hone hten
      have hpower : (0 : ℚ) ≤ (2 / 5) ^ steps := by positivity
      rw [hc]
      refine ih hclow (by linarith) ?_ _
      calc c.toRat * (2 / 5) ^ steps ≤ 2 / 5 * a.toRat * (2 / 5) ^ steps :=
            mul_le_mul_of_nonneg_right hcle hpower
        _ = a.toRat * (2 / 5) ^ (steps + 1) := by ring
        _ < 1 := ha
    · rename_i hlt
      rw [le_iff_toRat_le, toRat_one, not_le] at hlt
      exact ⟨a, k, rfl, hlow, hlt⟩

/-- From Euler's inverse on, one factor of Euler's number is enough. -/
theorem exists_raiseAboveInverse (steps : ℕ) (hlow : eulerInverse.toRat ≤ a.toRat) (k : ℤ) :
    ∃ b j, raiseAboveInverse (steps + 2) a k = some (b, j) ∧ eulerInverse.toRat < b.toRat := by
  rw [raiseAboveInverse]
  split
  · rename_i hle
    rw [le_iff_toRat_le] at hle
    have hvalue : a.toRat = eulerInverse.toRat := le_antisymm hle hlow
    rw [toRat_eulerInverse] at hvalue
    obtain ⟨c, hc, hmoved⟩ := exists_mul? (a := a) (b := euler) (by rw [hvalue]; norm_num)
      (by rw [toRat_euler]; norm_num) (by rw [hvalue, toRat_euler]; norm_num)
    have hbelow := (abs_le.1 hmoved).1
    rw [hvalue, toRat_euler, halfUnit, relativeError] at hbelow
    have habove : eulerInverse.toRat < c.toRat := by
      rw [toRat_eulerInverse]
      linarith
    have hrest : ¬c ≤ eulerInverse := by
      rw [le_iff_toRat_le, not_le]
      exact habove
    refine ⟨c, k - 1, ?_, habove⟩
    rw [hc, Option.bind_some, raiseAboveInverse, if_neg hrest]
  · rename_i hgt
    rw [le_iff_toRat_le, not_le] at hgt
    exact ⟨a, k, rfl, hgt⟩

/-- The loops of the logarithm end by themselves: the argument is brought to one at least, then below ten,
then below one, and then above Euler's inverse. -/
def LoopsEnd (a : Decimal) : Prop :=
  ∃ x i, raiseToOne 29 a 0 = some (x, i) ∧ 1 ≤ x.toRat ∧
    ∃ y j, lowerToTen 29 x i = some (y, j) ∧ y.toRat < 10 ∧
      ∃ z k, lowerBelowOne 4 y 0 = some (z, k) ∧ z.toRat < 1 ∧
        ∃ w l, raiseAboveInverse 4 z k = some (w, l) ∧ eulerInverse.toRat < w.toRat

theorem loopsEnd (ha : 0 < a.toRat) : LoopsEnd a := by
  have hstart : 1 ≤ a.toRat * 10 ^ 29 := by
    have hunit := one_le_mul_pow ha
    rw [pow_succ]
    linarith
  obtain ⟨x, i, hx⟩ := exists_raiseToOne 29 ha.le 0
  have hxone := one_le_of_raiseToOne hx hstart
  have hxlt : x.toRat < 10 ^ (29 + 1) := by
    have hlt := ((toRat_mem_Ioo x).2).trans limit_lt_bound
    rw [mantissaBound_eq] at hlt
    exact hlt.trans (by norm_num)
  obtain ⟨y, j, hy, hyten⟩ := exists_lowerToTen 29 hxlt i
  have hyone := one_le_of_lowerToTen hy hxone
  have hylow : eulerInverse.toRat ≤ y.toRat := by
    rw [toRat_eulerInverse]
    linarith
  obtain ⟨z, k, hz, hzlow, hzone⟩ := exists_lowerBelowOne 4 hylow hyten (by linarith) 0
  obtain ⟨w, l, hw, hwlow⟩ := exists_raiseAboveInverse 2 hzlow k
  exact ⟨x, i, hx, hxone, y, j, hy, hyten, z, k, hz, hzone, w, l, hw, hwlow⟩

end MarkovFit.Proofs
