import MarkovFit.Proofs.DecimalForms
import MarkovFit.Proofs.NewtonStep
import Mathlib.Analysis.Real.Sqrt

/-!
# Orbits of Newton's iteration

The rounded steps of Newton's iteration lead near the root: each takes off two fifths of the distance, up
to a few last places. Near the root there are few decimals, so that the iteration soon gives a value again
that it has given before. Either it comes to rest there, or it goes round a cycle of several values for
ever.
-/

namespace MarkovFit.Proofs

open Decimal

variable {A x : ℚ}

/-! ### Distance to the root -/

/-- Between the smallest positive decimal and the bound on all decimals. -/
structure IsMagnitude (A : ℚ) : Prop where
  low : 1 / 10 ^ 28 ≤ A
  high : A < 2 ^ 96

theorem IsMagnitude.nonneg (hA : IsMagnitude A) : 0 ≤ A := le_trans (by norm_num) hA.low

theorem IsMagnitude.sq_root (hA : IsMagnitude A) : √(A : ℝ) ^ 2 = A :=
  Real.sq_sqrt (by exact_mod_cast hA.nonneg)

theorem IsMagnitude.le_root (hA : IsMagnitude A) : (1 / 10 ^ 14 : ℝ) ≤ √(A : ℝ) := by
  have hcast : ((1 / 10 ^ 28 : ℚ) : ℝ) ≤ A := by exact_mod_cast hA.low
  apply Real.le_sqrt_of_sq_le
  push_cast at hcast
  norm_num at hcast ⊢
  linarith

theorem IsMagnitude.root_le (hA : IsMagnitude A) : √(A : ℝ) ≤ 2 ^ 48 := by
  have hcast : (A : ℝ) < 2 ^ 96 := by exact_mod_cast hA.high
  rw [Real.sqrt_le_left (by norm_num)]
  norm_num at hcast ⊢
  linarith

/-- A step that is not rounded ends above the root by the square of the distance. -/
theorem IsMagnitude.mean_sub_root (hA : IsMagnitude A) (hx : 0 < x) :
    ((x : ℝ) + A / x) / 2 - √(A : ℝ) = (x - √(A : ℝ)) ^ 2 / (2 * x) := by
  have hpos : (0 : ℝ) < x := by exact_mod_cast hx
  have hsq := hA.sq_root
  field_simp
  linarith

theorem IsMagnitude.root_le_mean (hA : IsMagnitude A) (hx : 0 < x) :
    √(A : ℝ) ≤ ((x : ℝ) + A / x) / 2 := by
  have hpos : (0 : ℝ) < x := by exact_mod_cast hx
  have hnonneg : 0 ≤ (x - √(A : ℝ)) ^ 2 / (2 * x) := by positivity
  have hmean := hA.mean_sub_root hx
  linarith

theorem IsMagnitude.abs_newtonStep_sub_mean_le (hA : IsMagnitude A) (h : InRange A x) :
    |(newtonStep A x : ℝ) - ((x : ℝ) + A / x) / 2| ≤
      3 / 2 / 10 ^ 28 + 20 / 2 ^ 96 * (((x : ℝ) + A / x) / 2) := by
  have hstep := abs_newtonStep_sub_le hA.nonneg h
  rw [halfUnit, relativeError, ← Rat.cast_le (K := ℝ)] at hstep
  push_cast at hstep
  refine hstep.trans (le_of_eq ?_)
  ring

/-- After a step the approximation is no less than half of the root. -/
theorem IsMagnitude.half_root_le_newtonStep (hA : IsMagnitude A) (h : InRange A x) :
    √(A : ℝ) / 2 ≤ newtonStep A x := by
  have hstep := (abs_le.1 (hA.abs_newtonStep_sub_mean_le h)).1
  have hmean := hA.root_le_mean h.pos
  have hroot := hA.le_root
  linarith

theorem IsMagnitude.inRange_newtonStep (hA : IsMagnitude A) (h : InRange A x) :
    InRange A (newtonStep A x) := by
  have hhalf := hA.half_root_le_newtonStep h
  have hroot := hA.le_root
  have hpos : (0 : ℝ) < newtonStep A x := by linarith
  have hpos' : 0 < newtonStep A x := by exact_mod_cast hpos
  refine ⟨hpos', ?_, ?_⟩
  · have hstep := (abs_le.1 (abs_newtonStep_sub_le hA.nonneg h)).2
    have hle := h.le
    have hquotient := h.quotient_le
    rw [halfUnit, relativeError] at hstep
    linarith
  · have hle := hA.root_le
    have hquotient : (A : ℝ) / newtonStep A x ≤ 2 ^ 50 := by
      rw [div_le_iff₀ hpos, ← hA.sq_root, sq]
      nlinarith
    exact_mod_cast hquotient

/-- The part of the distance to the root that rounding may leave. -/
noncomputable def roundingPart (A : ℚ) : ℝ := 3 / 2 / 10 ^ 28 + 20 / 2 ^ 96 * √(A : ℝ)

/-- A step takes off two fifths of the distance to the root, but for rounding. -/
theorem IsMagnitude.abs_newtonStep_sub_root_le (hA : IsMagnitude A) (h : InRange A x)
    (hhalf : √(A : ℝ) / 2 ≤ x) :
    |(newtonStep A x : ℝ) - √(A : ℝ)| ≤ 3 / 5 * |(x : ℝ) - √(A : ℝ)| + roundingPart A := by
  have hpos : (0 : ℝ) < x := by exact_mod_cast h.pos
  have hroot := hA.le_root
  have hstep := hA.abs_newtonStep_sub_mean_le h
  have hmean := hA.mean_sub_root h.pos
  -- From half of the root on, the square of the distance over `2 * x` is at most half of the distance.
  have hdistance : |(x : ℝ) - √(A : ℝ)| ≤ x := by
    rw [abs_le]
    constructor <;> linarith
  have hsquare : (x - √(A : ℝ)) ^ 2 / (2 * x) ≤ |(x : ℝ) - √(A : ℝ)| / 2 := by
    rw [← sq_abs, div_le_iff₀ (by positivity)]
    nlinarith [abs_nonneg ((x : ℝ) - √(A : ℝ))]
  have hnonneg := abs_nonneg ((x : ℝ) - √(A : ℝ))
  have hsquare' : 0 ≤ (x - √(A : ℝ)) ^ 2 / (2 * x) := by positivity
  generalize |(x : ℝ) - √(A : ℝ)| = distance at *
  generalize (x - √(A : ℝ)) ^ 2 / (2 * x) = excess at *
  have hvalue : ((x : ℝ) + A / x) / 2 = √(A : ℝ) + excess := by linarith
  rw [hvalue, abs_le] at hstep
  rw [roundingPart, abs_le]
  constructor <;> linarith

/-! ### The whole orbit -/

theorem IsMagnitude.inRange_iterate (hA : IsMagnitude A) (h : InRange A x) (n : ℕ) :
    InRange A ((newtonStep A)^[n] x) := by
  induction n with
  | zero => exact h
  | succ n ih =>
    rw [Function.iterate_succ_apply']
    exact hA.inRange_newtonStep ih

theorem IsMagnitude.half_root_le_iterate (hA : IsMagnitude A) (h : InRange A x)
    (hhalf : √(A : ℝ) / 2 ≤ x) (n : ℕ) : √(A : ℝ) / 2 ≤ (newtonStep A)^[n] x := by
  cases n with
  | zero => exact hhalf
  | succ n =>
    rw [Function.iterate_succ_apply']
    exact hA.half_root_le_newtonStep (hA.inRange_iterate h n)

theorem IsMagnitude.abs_iterate_sub_root_le (hA : IsMagnitude A) (h : InRange A x)
    (hhalf : √(A : ℝ) / 2 ≤ x) (n : ℕ) :
    |((newtonStep A)^[n] x : ℝ) - √(A : ℝ)| ≤
      (3 / 5) ^ n * |(x : ℝ) - √(A : ℝ)| + 5 / 2 * roundingPart A := by
  -- What rounding adds in all steps is the geometric series with ratio `3 / 5`.
  induction n with
  | zero =>
    have hnonneg : 0 ≤ roundingPart A := by
      rw [roundingPart]
      positivity
    rw [Function.iterate_zero_apply, pow_zero]
    linarith
  | succ n ih =>
    have hstep := hA.abs_newtonStep_sub_root_le (hA.inRange_iterate h n)
      (hA.half_root_le_iterate h hhalf n)
    rw [Function.iterate_succ_apply', pow_succ]
    linarith

/-- The number of steps after which the iteration is near the root. -/
def settling : ℕ := 261

theorem pow_settling_le (k : ℕ) : (3 / 5 : ℝ) ^ (k + 260) ≤ 15 / 10 ^ 30 * (15 / 10 ^ 30) := by
  have hhalf : (3 / 5 : ℝ) ^ 130 ≤ 15 / 10 ^ 30 := by norm_num
  calc (3 / 5 : ℝ) ^ (k + 260) ≤ (3 / 5) ^ (130 + 130) :=
        pow_le_pow_of_le_one (by norm_num) (by norm_num) (Nat.le_add_left 260 k)
    _ = (3 / 5) ^ 130 * (3 / 5) ^ 130 := pow_add _ _ _
    _ ≤ 15 / 10 ^ 30 * (15 / 10 ^ 30) := by gcongr

/-- After a while the iteration stays within a few last places of the root. -/
theorem IsMagnitude.near_root (hA : IsMagnitude A) (h : InRange A x) {n : ℕ} (hn : settling ≤ n) :
    |((newtonStep A)^[n] x : ℝ) - √(A : ℝ)| ≤ 3 * roundingPart A := by
  -- The first step leads above half of the root, from where on the distance shrinks.
  obtain ⟨k, rfl⟩ : ∃ k, n = k + 260 + 1 := ⟨n - 261, by simp only [settling] at hn; omega⟩
  have hfirst := hA.inRange_newtonStep h
  have hdistance := hA.abs_iterate_sub_root_le hfirst (hA.half_root_le_newtonStep h) (k + 260)
  have hstart : |(newtonStep A x : ℝ) - √(A : ℝ)| ≤ 2 ^ 96 := by
    have hpos : (0 : ℝ) < newtonStep A x := by exact_mod_cast hfirst.pos
    have hle : (newtonStep A x : ℝ) ≤ 2 ^ 95 + 4 := by exact_mod_cast hfirst.le
    have hroot := hA.root_le
    have hnonneg := Real.sqrt_nonneg (A : ℝ)
    rw [abs_le]
    constructor <;> linarith
  have hpart : (3 / 2 / 10 ^ 28 : ℝ) ≤ roundingPart A := by
    rw [roundingPart]
    exact le_add_of_nonneg_right (by positivity)
  have hleft : (3 / 5 : ℝ) ^ (k + 260) * |(newtonStep A x : ℝ) - √(A : ℝ)| ≤
      15 / 10 ^ 30 * (15 / 10 ^ 30) * 2 ^ 96 :=
    mul_le_mul (pow_settling_le k) hstart (abs_nonneg _) (by positivity)
  rw [Function.iterate_succ_apply]
  generalize (3 / 5 : ℝ) ^ (k + 260) * |(newtonStep A x : ℝ) - √(A : ℝ)| = left at *
  linarith

/-! ### Few decimals are near the root -/

/-- Decimals from a bound on are whole multiples of the last place at the bound. -/
theorem exists_mul_pow_room {c : Decimal} {bound : ℚ} (hpos : 0 < bound) (h : bound ≤ c.toRat) :
    ∃ n : ℤ, c.toRat * 10 ^ room bound = n := by
  have hvalue : c.toRat = c.mantissa / 10 ^ c.scale := by
    rw [eq_div_iff (by positivity), mantissa_eq_abs, abs_of_pos (hpos.trans_le h)]
  have hfits : c.toRat * 10 ^ c.scale < mantissaBound := by
    rw [hvalue, div_mul_cancel₀ _ (by positivity)]
    exact_mod_cast c.mantissa_lt
  have hlt : c.toRat < mantissaBound := ((toRat_mem_Ioo c).2).trans limit_lt_bound
  have hscale : c.scale ≤ room bound := (le_room c.scale_le hfits).trans (room_anti h hlt)
  have hsplit : (10 : ℚ) ^ room bound = 10 ^ (room bound - c.scale) * 10 ^ c.scale := by
    rw [← pow_add, Nat.sub_add_cancel hscale]
  refine ⟨c.mantissa * 10 ^ (room bound - c.scale), ?_⟩
  rw [hvalue, hsplit]
  push_cast
  field_simp

/-- More indices than there are integers between the bounds. -/
theorem exists_eq_of_between {low high : ℝ} {count : ℕ} (g : ℕ → ℤ) (hlen : high - low + 1 < count)
    (hg : ∀ n, low ≤ g n ∧ (g n : ℝ) ≤ high) : ∃ i j, i < j ∧ j < count ∧ g i = g j := by
  have hmaps : ∀ n ∈ Finset.range count, g n ∈ Finset.Icc ⌈low⌉ ⌊high⌋ := fun n _ =>
    Finset.mem_Icc.2 ⟨Int.ceil_le.2 (hg n).1, Int.le_floor.2 (hg n).2⟩
  have hcard : (Finset.Icc ⌈low⌉ ⌊high⌋).card < (Finset.range count).card := by
    rw [Int.card_Icc, Finset.card_range]
    have hfloor := Int.floor_le high
    have hceil := Int.le_ceil low
    have hcount : ((⌊high⌋ + 1 - ⌈low⌉ : ℤ) : ℝ) < count := by
      push_cast
      linarith
    have hcount' : ⌊high⌋ + 1 - ⌈low⌉ < count := by exact_mod_cast hcount
    have hpos : 0 < count := by
      have hreal : (0 : ℝ) < count := by linarith [(hg 0).1.trans (hg 0).2]
      exact_mod_cast hreal
    omega
  obtain ⟨i, hi, j, hj, hne, heq⟩ := Finset.exists_ne_map_eq_of_card_lt_of_maps_to hcard hmaps
  rw [Finset.mem_range] at hi hj
  obtain hlt | hlt := Nat.lt_or_gt_of_ne hne
  · exact ⟨i, j, hlt, hj, heq⟩
  · exact ⟨j, i, hlt, hi, heq.symm⟩

/-- Near the root there are fewer values than this. -/
def crowd : ℕ := 491

theorem IsMagnitude.roundingPart_le (hA : IsMagnitude A) : 9 * roundingPart A ≤ √(A : ℝ) := by
  have hroot := hA.le_root
  rw [roundingPart]
  linarith

/-- The numbers near the root, counted in last places at a quarter of it. -/
theorem roundingPart_mul_lt_crowd {bound : ℚ} (hbound : √(A : ℝ) / 4 ≤ bound)
    (hlt : bound < mantissaBound) : 6 * (roundingPart A * 10 ^ room bound) + 1 < crowd := by
  have hfits := mul_pow_room_lt hlt
  rw [mantissaBound_eq] at hfits
  have hfits' : (bound : ℝ) * 10 ^ room bound < 2 ^ 96 := by exact_mod_cast hfits
  have hfinest : (10 : ℝ) ^ room bound ≤ 10 ^ 28 :=
    pow_le_pow_right₀ (by norm_num) (room_le bound)
  have hroot : √(A : ℝ) * 10 ^ room bound ≤ 2 ^ 98 := by
    have hmul := mul_le_mul_of_nonneg_right hbound (by positivity : (0 : ℝ) ≤ 10 ^ room bound)
    linarith
  have hspread : roundingPart A * 10 ^ room bound =
      3 / 2 / 10 ^ 28 * 10 ^ room bound + 20 / 2 ^ 96 * (√(A : ℝ) * 10 ^ room bound) := by
    rw [roundingPart]
    ring
  have hcrowd : (crowd : ℝ) = 491 := by norm_num [crowd]
  rw [hcrowd]
  linarith

/-- An orbit of decimals has a value near the root twice. -/
theorem IsMagnitude.exists_repeat (hA : IsMagnitude A) (hrange : InRange A x) {xs : ℕ → Decimal}
    (hxs : ∀ n, (xs n).toRat = (newtonStep A)^[n] x) :
    ∃ i j, i < j ∧ j < settling + crowd ∧ (xs i).toRat = (xs j).toRat := by
  have hroot := hA.le_root
  have hnear : ∀ n, |((xs (settling + n)).toRat : ℝ) - √(A : ℝ)| ≤ 3 * roundingPart A := fun n => by
    rw [hxs]
    exact hA.near_root hrange (Nat.le_add_right _ _)
  have hpart := hA.roundingPart_le
  have hfirst := abs_le.1 (hnear 0)
  rw [Nat.add_zero] at hfirst
  -- All of these decimals are whole multiples of the last place at half of the first of them.
  let bound : ℚ := (xs settling).toRat / 2
  have hbound : √(A : ℝ) / 4 ≤ bound := by
    simp only [bound]
    push_cast
    linarith
  have hpos : 0 < bound := by
    have hreal : (0 : ℝ) < bound := by linarith
    exact_mod_cast hreal
  have habove : ∀ n, bound ≤ (xs (settling + n)).toRat := fun n => by
    have hother := (abs_le.1 (hnear n)).1
    have hreal : (bound : ℝ) ≤ (xs (settling + n)).toRat := by
      simp only [bound]
      push_cast
      linarith
    exact_mod_cast hreal
  choose g hg using fun n => exists_mul_pow_room hpos (habove n)
  have hplaces : (0 : ℝ) < 10 ^ room bound := by positivity
  have hg' : ∀ n, (g n : ℝ) = (xs (settling + n)).toRat * 10 ^ room bound := fun n => by
    exact_mod_cast (hg n).symm
  have hcount := roundingPart_mul_lt_crowd hbound
    ((habove 0).trans_lt ((toRat_mem_Ioo _).2.trans limit_lt_bound))
  have hlen : (√(A : ℝ) + 3 * roundingPart A) * 10 ^ room bound -
      (√(A : ℝ) - 3 * roundingPart A) * 10 ^ room bound + 1 < crowd := by
    linarith
  obtain ⟨i, j, hlt, hj, heq⟩ := exists_eq_of_between g hlen fun n => by
    obtain ⟨hlow, hhigh⟩ := abs_le.1 (hnear n)
    rw [hg']
    constructor
    · exact mul_le_mul_of_nonneg_right (by linarith) hplaces.le
    · exact mul_le_mul_of_nonneg_right (by linarith) hplaces.le
  refine ⟨settling + i, settling + j, by omega, by omega, ?_⟩
  have hsame : (xs (settling + i)).toRat * 10 ^ room bound =
      (xs (settling + j)).toRat * 10 ^ room bound := by rw [hg, hg, heq]
  exact mul_right_cancel₀ (by positivity) hsame

end MarkovFit.Proofs
