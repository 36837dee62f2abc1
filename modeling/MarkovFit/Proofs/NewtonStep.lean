import MarkovFit.Decimal.Root
import MarkovFit.Proofs.DecimalQuotient

/-!
# Steps of Newton's iteration

A step of Newton's iteration for a root takes the mean of an approximation and of the quotient by it,
with three roundings. Rounding moves a number by at most half of the last place, or by a fixed part of
it where the mantissa is full; so a rounded step is near the exact one. The steps from half a number stay
in range: none of them fails.
-/

namespace MarkovFit.Proofs

open Decimal

variable {A x : ℚ}

/-! ### Rounding errors -/

/-- Half of the finest unit. -/
def halfUnit : ℚ := 1 / 2 / 10 ^ 28

/-- Half of the last place of a full mantissa, relative to the number. -/
def relativeError : ℚ := 5 / 2 ^ 96

theorem mantissaBound_eq : (mantissaBound : ℚ) = 2 ^ 96 := by norm_num [mantissaBound]

/-- Rounding moves a number by half of the last place, which is the finest one or is small beside the
number. -/
theorem abs_rounded_sub_le (hx : 0 ≤ x) (hlt : x < mantissaBound) :
    |rounded x - x| ≤ halfUnit + relativeError * x := by
  have hpos : (0 : ℚ) < 10 ^ room x := by positivity
  obtain ⟨hlow, hhigh⟩ := nearestEven_spec (x := x * 10 ^ room x) (by positivity)
  have hle := nearestEven_le_bound hx hlt
  have hfits := mul_pow_room_lt hlt
  have hplace : (1 / 2 : ℚ) ≤ halfUnit * 10 ^ room x + relativeError * (x * 10 ^ room x) := by
    obtain hfinest | hcoarse := (room_le x).eq_or_lt
    · have hunit : halfUnit * 10 ^ room x = 1 / 2 := by
        rw [hfinest]
        norm_num [halfUnit, maxScale]
      have hrest : 0 ≤ relativeError * (x * 10 ^ room x) := by
        rw [relativeError]
        positivity
      linarith
    · have hfull := mantissaBound_le_of_room_lt (Nat.lt_succ_self (room x)) hcoarse
      have hunit : 0 ≤ halfUnit * 10 ^ room x := by
        rw [halfUnit]
        positivity
      rw [pow_succ, ← mul_assoc, mantissaBound_eq] at hfull
      rw [relativeError]
      linarith
  have hscaled : |(settled (nearestEven (x * 10 ^ room x)) : ℚ) - x * 10 ^ room x| ≤
      (halfUnit + relativeError * x) * 10 ^ room x := by
    rw [add_mul, mul_assoc]
    by_cases hmantissa : nearestEven (x * 10 ^ room x) < mantissaBound
    · rw [settled, if_pos hmantissa, abs_le]
      constructor <;> linarith
    · -- The mantissa was rounded up to the bound, and a digit is lost.
      have hbound : nearestEven (x * 10 ^ room x) = mantissaBound := by omega
      have hunit : 0 ≤ halfUnit * 10 ^ room x := by
        rw [halfUnit]
        positivity
      rw [hbound, mantissaBound_eq] at hlow
      rw [mantissaBound_eq] at hfits
      rw [settled, if_neg hmantissa, Nat.cast_add, mantissaBound_eq, relativeError, abs_le]
      push_cast
      constructor <;> linarith
  have hvalue : rounded x - x =
      ((settled (nearestEven (x * 10 ^ room x)) : ℚ) - x * 10 ^ room x) / 10 ^ room x := by
    rw [rounded_of_nonneg hx, roundedMagnitude, sub_div, mul_div_cancel_right₀ _ hpos.ne']
  rw [hvalue, abs_div, abs_of_pos hpos, div_le_iff₀ hpos]
  exact hscaled

/-! ### One step -/

/-- The step of Newton's iteration for the root of `A`, as it is rounded. -/
def newtonStep (A x : ℚ) : ℚ := rounded (rounded (x + rounded (A / x)) / 2)

/-- An approximation from which a step stays in range. -/
structure InRange (A x : ℚ) : Prop where
  pos : 0 < x
  le : x ≤ 2 ^ 95 + 4
  quotient_le : A / x ≤ 2 ^ 50

theorem rounded_quotient_bounds (hA : 0 ≤ A) (h : InRange A x) :
    |rounded (A / x) - A / x| ≤ halfUnit + relativeError * (A / x) ∧
      0 ≤ rounded (A / x) ∧ rounded (A / x) ≤ 2 ^ 51 := by
  have hquotient := h.quotient_le
  have hnonneg : 0 ≤ A / x := div_nonneg hA h.pos.le
  have hmoved := abs_rounded_sub_le hnonneg (by rw [mantissaBound_eq]; linarith)
  refine ⟨hmoved, rounded_nonneg hnonneg, ?_⟩
  have habove := (abs_le.1 hmoved).2
  rw [halfUnit, relativeError] at habove
  linarith

theorem rounded_sum_bounds (hA : 0 ≤ A) (h : InRange A x) :
    |rounded (x + rounded (A / x)) - (x + rounded (A / x))| ≤
        halfUnit + relativeError * (x + rounded (A / x)) ∧
      0 ≤ rounded (x + rounded (A / x)) ∧ rounded (x + rounded (A / x)) ≤ 2 ^ 95 + 2 ^ 52 := by
  obtain ⟨-, hnonneg, hle⟩ := rounded_quotient_bounds hA h
  have hx := h.pos
  have hxle := h.le
  have hsum : 0 ≤ x + rounded (A / x) := by linarith
  have hmoved := abs_rounded_sub_le hsum (by rw [mantissaBound_eq]; linarith)
  refine ⟨hmoved, rounded_nonneg hsum, ?_⟩
  have habove := (abs_le.1 hmoved).2
  rw [halfUnit, relativeError] at habove
  linarith

/-- The step is near the mean of the approximation and the exact quotient. -/
theorem abs_newtonStep_sub_le (hA : 0 ≤ A) (h : InRange A x) :
    |newtonStep A x - (x + A / x) / 2| ≤ 3 * halfUnit + 4 * relativeError * ((x + A / x) / 2) := by
  have hx := h.pos
  have hquotient : 0 ≤ A / x := div_nonneg hA hx.le
  obtain ⟨hfirst, -⟩ := rounded_quotient_bounds hA h
  obtain ⟨hsecond, hnonneg, hle⟩ := rounded_sum_bounds hA h
  have hhalf : 0 ≤ rounded (x + rounded (A / x)) / 2 := by linarith
  have hthird := abs_rounded_sub_le hhalf (by rw [mantissaBound_eq]; linarith)
  rw [newtonStep]
  rw [abs_le, halfUnit, relativeError] at hfirst hsecond hthird ⊢
  constructor <;> linarith

/-- No step from an approximation in range fails. -/
theorem exists_rootStep {a b : Decimal} (ha : 0 ≤ a.toRat) (h : InRange a.toRat b.toRat) :
    ∃ c, rootStep? a b = some c ∧ c.toRat = newtonStep a.toRat b.toRat := by
  have hlimit : decimalLimit = 2 ^ 96 - 1 / 2 := by rw [decimalLimit, mantissaBound_eq]
  have hb : b.mantissa ≠ 0 := fun hzero => h.pos.ne' ((toRat_eq_zero_iff b).2 hzero)
  have htwo : two.toRat = 2 := by decide +kernel
  have hquotient : 0 ≤ a.toRat / b.toRat := div_nonneg ha h.pos.le
  obtain ⟨-, hq, hqle⟩ := rounded_quotient_bounds ha h
  obtain ⟨-, hs, hsle⟩ := rounded_sum_bounds ha h
  have hpos := h.pos
  have hle := h.le
  have hle' := h.quotient_le
  obtain ⟨q, hq₁, hqvalue⟩ := exists_of_isRounding (div?_spec (a := a) hb)
    (by rw [abs_of_nonneg hquotient, hlimit]; linarith)
  have hsum := add?_spec b q
  rw [hqvalue] at hsum
  obtain ⟨s, hs₁, hsvalue⟩ := exists_of_isRounding hsum
    (by rw [abs_of_nonneg (by linarith), hlimit]; linarith)
  obtain ⟨c, hc, hcvalue⟩ := exists_div?_whole (a := s) (b := two) rfl (by decide)
  refine ⟨c, ?_, ?_⟩
  · rw [rootStep?, hq₁]
    change (b.add? q).bind _ = _
    rw [hs₁]
    exact hc
  · rw [hcvalue, hsvalue, htwo, newtonStep]

end MarkovFit.Proofs
