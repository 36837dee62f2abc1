import MarkovFit.Sampling.Bound
import Mathlib.Algebra.Order.Ring.Nat
import Mathlib.Data.Nat.Choose.Basic

/-!
# The number of coefficients

The count of coefficients multiplies and divides in turn. What it has after some steps is a binomial
coefficient, so every division is exact. The products on the way may leave the range of 128 bits, but
only on the way to a number that is no count of 64 bits: a product is at most the square of that number,
since binomial coefficients grow up to the middle of their row.
-/

namespace MarkovFit.Proofs

open Sampling

variable {n i j k : ℕ}

/-! ### Binomial coefficients -/

/-- Up to the middle of a row its entries grow. -/
theorem choose_le_choose_of_le_half (hij : i ≤ j) (hj : j ≤ n / 2) : n.choose i ≤ n.choose j := by
  induction j, hij using Nat.le_induction with
  | base => exact le_rfl
  | succ j _ ih =>
    have hstep : n.choose j ≤ n.choose (j + 1) := Nat.choose_le_succ_of_lt_half_left (by omega)
    exact (ih (by omega)).trans hstep

theorem choose_mul_sub_div (n i : ℕ) : n.choose i * (n - i) / (i + 1) = n.choose (i + 1) := by
  rw [← Nat.choose_succ_right_eq]
  exact Nat.mul_div_cancel _ (Nat.succ_pos i)

/-- The products on the way to an entry are at most its square. -/
theorem choose_mul_sub_le (hj : j < k) (hk : k ≤ n / 2) :
    n.choose j * (n - j) ≤ n.choose k * n.choose k := by
  have hnext : n.choose (j + 1) ≤ n.choose k := choose_le_choose_of_le_half hj hk
  -- The second entry of the row is its length, and the index lies in the first half.
  have hindex : j + 1 ≤ n.choose k := by
    calc j + 1 ≤ n := by omega
      _ = n.choose 1 := (Nat.choose_one_right n).symm
      _ ≤ n.choose k := choose_le_choose_of_le_half (by omega) hk
  rw [← Nat.choose_succ_right_eq]
  exact Nat.mul_le_mul hnext hindex

theorem choose_min_degree (unknowns degree : ℕ) :
    (unknowns + degree).choose (min degree unknowns) = (unknowns + degree).choose degree := by
  obtain hle | hle := Nat.le_total degree unknowns
  · rw [Nat.min_eq_left hle]
  · rw [Nat.min_eq_right hle]
    exact Nat.choose_symm_add

/-! ### The running product -/

/-- The running product is a binomial coefficient. -/
theorem binomialFrom_eq_some {steps acc count : ℕ} (hacc : acc = n.choose i)
    (h : binomialFrom n steps i acc = some count) : count = n.choose (i + steps) := by
  induction steps generalizing i acc with
  | zero =>
    cases h
    exact hacc
  | succ steps ih =>
    rw [binomialFrom] at h
    split at h
    · rw [ih (hacc ▸ choose_mul_sub_div n i) h, Nat.add_right_comm, Nat.add_assoc]
    · cases h

/-- If the running product is lost, one of its products was too large. -/
theorem exists_of_binomialFrom_eq_none {steps acc : ℕ} (hacc : acc = n.choose i)
    (h : binomialFrom n steps i acc = none) :
    ∃ j < i + steps, 2 ^ 128 ≤ n.choose j * (n - j) := by
  induction steps generalizing i acc with
  | zero => cases h
  | succ steps ih =>
    rw [binomialFrom] at h
    split at h
    · obtain ⟨j, hj, hlarge⟩ := ih (hacc ▸ choose_mul_sub_div n i) h
      exact ⟨j, by omega, hlarge⟩
    · rename_i hlarge
      exact ⟨i, by omega, by rw [← hacc]; exact Nat.not_lt.1 hlarge⟩

theorem le_choose_of_binomialFrom_eq_none {unknowns degree : ℕ}
    (h : binomialFrom (unknowns + degree) (min degree unknowns) 0 1 = none) :
    2 ^ 64 ≤ (unknowns + degree).choose degree := by
  obtain ⟨j, hj, hlarge⟩ := exists_of_binomialFrom_eq_none (Nat.choose_zero_right _).symm h
  have hsquare := choose_mul_sub_le (n := unknowns + degree) (hj.trans_eq (Nat.zero_add _)) (by omega)
  rw [choose_min_degree] at hsquare
  -- A count of 64 bits has a square, and with it every product on the way, of 128 bits.
  by_contra hsmall
  have hbound := Nat.mul_lt_mul'' (Nat.not_le.1 hsmall) (Nat.not_le.1 hsmall)
  omega

/-! ### The count -/

theorem coefficientCount_eq (unknowns degree : ℕ) : coefficientCount unknowns degree =
    if (unknowns + degree).choose degree < 2 ^ 64 then some ((unknowns + degree).choose degree)
    else none := by
  unfold coefficientCount
  split
  · rename_i count hcount
    have hvalue := binomialFrom_eq_some (Nat.choose_zero_right _).symm hcount
    rw [Nat.zero_add, choose_min_degree] at hvalue
    rw [hvalue]
    rfl
  · rename_i hnone
    exact (if_neg (Nat.not_lt.2 (le_choose_of_binomialFrom_eq_none hnone))).symm

theorem coefficientCount_eq_some {unknowns degree count : ℕ}
    (h : coefficientCount unknowns degree = some count) :
    count = (unknowns + degree).choose degree := by
  rw [coefficientCount_eq] at h
  split at h
  · exact (Option.some.inj h).symm
  · cases h

/-- The count is the number of monomials up to a degree, exactly if that is a count. -/
theorem coefficients_counted_exactly (unknowns degree : ℕ) :
    coefficientCount unknowns degree =
        (if (unknowns + degree).choose degree < 2 ^ 64 then
          some ((unknowns + degree).choose degree)
        else none) ∧
      (∀ steps product, binomialFrom (unknowns + degree) steps 0 1 = some product →
        product = (unknowns + degree).choose steps ∧
          steps + 1 ∣ product * (unknowns + degree - steps)) ∧
      (binomialFrom (unknowns + degree) (min degree unknowns) 0 1 = none →
        2 ^ 64 ≤ (unknowns + degree).choose degree) := by
  refine ⟨coefficientCount_eq unknowns degree, ?_, le_choose_of_binomialFrom_eq_none⟩
  intro steps product h
  have hproduct : product = (unknowns + degree).choose steps := by
    rw [binomialFrom_eq_some (Nat.choose_zero_right _).symm h, Nat.zero_add]
  refine ⟨hproduct, ?_⟩
  rw [hproduct, ← Nat.choose_succ_right_eq]
  exact Nat.dvd_mul_left _ _

-- With one variable more, the monomials up to degree two are too many for a count.
example : coefficientCount 6074000998 2 = some 18446744070963499500 ∧
    coefficientCount 6074000999 2 = none := by decide +kernel

end MarkovFit.Proofs
