import MarkovFit.Proofs.DualTableau
import Mathlib.LinearAlgebra.Matrix.Notation

/-!
# Basic columns

As long as no move divides by zero, the basic columns are unit columns without a reduced cost. The
lines are then the inverse of the basic columns, so that whatever is a combination of lines is given
in every column by its values in the basic ones.
-/

namespace MarkovFit.Proofs

open Simplex

section canonical

variable {n width : Nat} {t : Tableau ℚ n width} {r : Fin n} {c : Fin width}

/-- The basic columns are unit columns. -/
def UnitBasis (t : Tableau ℚ n width) : Prop :=
  ∀ i j, (t.lines.get i).entry (t.basis.get j) = if i = j then 1 else 0

/-- The basic columns have no reduced cost. -/
def FreeBasis (t : Tableau ℚ n width) : Prop := ∀ j, t.cost.entry (t.basis.get j) = 0

lemma entry_pivotLine (c' : Fin width) : (pivotLine t r c).entry c' =
    (t.lines.get r).entry c' / (t.lines.get r).entry c :=
  get_pivotLine t r c c'.castSucc

lemma entry_reduce (line other : TableauLine ℚ width) (f : ℚ) (c : Fin width) :
    (line.reduce f other).entry c = line.entry c - f * other.entry c :=
  get_reduce line other f c.castSucc

lemma entry_pivotLine_self (h : (t.lines.get r).entry c ≠ 0) : (pivotLine t r c).entry c = 1 := by
  rw [entry_pivotLine, div_self h]

/-- The pivot line has nothing in the basic columns that stay. -/
lemma UnitBasis.entry_pivotLine (hunit : UnitBasis t) {j : Fin n} (hj : r ≠ j) :
    (pivotLine t r c).entry (t.basis.get j) = 0 := by
  rw [Proofs.entry_pivotLine, hunit r j, if_neg hj, zero_div]

theorem UnitBasis.pivot (hunit : UnitBasis t) (h : (t.lines.get r).entry c ≠ 0) :
    UnitBasis (t.pivot r c) := by
  intro i j
  rw [basis_pivot, lines_pivot]
  by_cases hj : r = j
  · rw [if_pos hj]
    by_cases hi : i = r
    · rw [if_pos hi, if_pos (hi.trans hj), entry_pivotLine_self h]
    · rw [if_neg hi, if_neg fun hij => hi (hij.trans hj.symm), entry_reduce, entry_pivotLine_self h,
        mul_one, sub_self]
  · rw [if_neg hj]
    by_cases hi : i = r
    · rw [if_pos hi, hunit.entry_pivotLine hj, if_neg fun hij => hj (hi.symm.trans hij)]
    · rw [if_neg hi, entry_reduce, hunit.entry_pivotLine hj, mul_zero, sub_zero, hunit i j]

theorem FreeBasis.pivot (hfree : FreeBasis t) (hunit : UnitBasis t)
    (h : (t.lines.get r).entry c ≠ 0) : FreeBasis (t.pivot r c) := by
  intro j
  rw [basis_pivot, cost_pivot, entry_reduce]
  by_cases hj : r = j
  · rw [if_pos hj, entry_pivotLine_self h, mul_one, sub_self]
  · rw [if_neg hj, hunit.entry_pivotLine hj, mul_zero, sub_zero, hfree j]

theorem UnitBasis.advance (hunit : UnitBasis t) (h : (t.lines.get r).entry c ≠ 0) :
    UnitBasis (t.advance r c) := by
  intro i j
  rw [Tableau.advance, lines_clamp, entry_clamp]
  exact hunit.pivot h i j

theorem FreeBasis.advance (hfree : FreeBasis t) (hunit : UnitBasis t)
    (h : (t.lines.get r).entry c ≠ 0) : FreeBasis (t.advance r c) :=
  hfree.pivot hunit h

/-- What a run keeps of the basis. -/
theorem Reaches.basis {limit : Nat} {t₀ : Tableau ℚ n width} (h : Reaches limit t₀ t)
    (hunit : UnitBasis t₀) (hfree : FreeBasis t₀) : UnitBasis t ∧ FreeBasis t :=
  h.invariant (P := fun t => UnitBasis t ∧ FreeBasis t)
    (fun _ _ _ hentry h => ⟨h.1.advance hentry.ne', h.2.advance h.1 hentry.ne'⟩) ⟨hunit, hfree⟩

end canonical

variable {n : Nat} {s : InequalitySystem ℚ n} {t : Tableau ℚ n (width s)}

/-! ## The phases -/

lemma start_basis (j : Fin n) : (start s).basis.get j = artificial s j := Vector.get_ofFn _ j

theorem unitBasis_start : UnitBasis (start s) := by
  intro i j
  rw [start_basis, start_lines, line_artificial]

lemma artificialCost_get (k : Fin (width s + 1)) : (artificialCost s).get k =
    if s.inequalities.length ≤ k.val ∧ k.val < width s then 1 else 0 :=
  Vector.get_ofFn _ k

theorem freeBasis_start : FreeBasis (start s) := by
  intro j
  have hcost : (artificialCost s).get (artificial s j).castSucc = 1 :=
    (artificialCost_get _).trans (if_pos ⟨Nat.le_add_right _ _, (artificial s j).isLt⟩)
  have hentry : ∀ i, (line s i).get (artificial s j).castSucc = if i = j then 1 else 0 :=
    fun i => line_artificial i j
  rw [start_basis]
  change (start s).cost.get (artificial s j).castSucc = 0
  rw [start_cost, hcost]
  simp only [hentry]
  rw [Finset.sum_ite_eq', if_pos (Finset.mem_univ j), sub_self]

lemma replacement?_entry {r : Fin n} {c : Fin (width s)} (h : replacement? s t r = some c) :
    (t.lines.get r).entry c ≠ 0 := by
  have hmem := (List.mem_filter.1 (lastGreatest?_mem h)).2
  dsimp only at hmem
  rw [Bool.and_eq_true, lt_eq_true, magnitude_eq_abs, pivotTolerance_eq] at hmem
  intro hzero
  rw [hzero, abs_zero] at hmem
  exact absurd hmem.2 (by norm_num)

theorem UnitBasis.driveOut (hunit : UnitBasis t) (r : Fin n) : UnitBasis (driveOut s t r) := by
  unfold Simplex.driveOut
  split
  · exact hunit
  · split
    · exact hunit
    · exact hunit.pivot (replacement?_entry ‹_›)

theorem UnitBasis.secondStart (hunit : UnitBasis t) : UnitBasis (secondStart s t) :=
  List.foldlRecOn (List.finRange n) (Simplex.driveOut s) (motive := UnitBasis) hunit
    fun _ hunit r _ => hunit.driveOut r

/-- Taking off every line as often as its basic column costs leaves no basic column with a cost. -/
theorem freeBasis_secondStart (hunit : UnitBasis t) : FreeBasis (secondStart s t) := by
  have hunit' := hunit.secondStart
  intro j
  have hfold : ∀ (is : List (Fin n)) (cost : TableauLine ℚ (width s)),
      j ∈ is ∨ cost.entry ((secondStart s t).basis.get j) = 0 →
      (is.foldl (fun cost i => cost.reduce (cost.entry ((secondStart s t).basis.get i))
        ((secondStart s t).lines.get i)) cost).entry ((secondStart s t).basis.get j) = 0 := by
    intro is
    induction is with
    | nil => exact fun cost h => h.resolve_left List.not_mem_nil
    | cons i is ih =>
      intro cost h
      refine ih _ ?_
      rw [entry_reduce, hunit' i j]
      by_cases hij : i = j
      · rw [if_pos hij, mul_one, hij, sub_self]
        exact .inr rfl
      · rw [if_neg hij, mul_zero, sub_zero]
        exact h.imp_left fun hmem => (List.mem_cons.1 hmem).resolve_left (Ne.symm hij)
  exact hfold _ _ (.inl (List.mem_finRange j))

/-! ## Columns in terms of the basic ones -/

/-- The first lines are given by their values in the basic columns. -/
theorem line_eq_sum_basis (hunit : UnitBasis t) (hlines : ∀ c : Fin (width s), LinesCombine c.castSucc t)
    (j : Fin n) (c : Fin (width s)) :
    (line s j).entry c = ∑ i, (line s j).entry (t.basis.get i) * (t.lines.get i).entry c := by
  -- The weights of the lines times the basic columns is one, so the other way round it is one too.
  let weights : Matrix (Fin n) (Fin n) ℚ := fun i j => (t.lines.get i).entry (artificial s j)
  let columns : Matrix (Fin n) (Fin n) ℚ := fun j i => (line s j).entry (t.basis.get i)
  have hinverse : weights * columns = 1 := by
    ext i i'
    have hcombination : (t.lines.get i).entry (t.basis.get i') =
        ∑ j, (t.lines.get i).entry (artificial s j) * (line s j).entry (t.basis.get i') :=
      hlines (t.basis.get i') i
    rw [Matrix.mul_apply, Matrix.one_apply, ← hcombination, hunit i i']
  have hlinesOf : ∀ i, (t.lines.get i).entry c = ∑ j', weights i j' * (line s j').entry c :=
    hlines c
  calc (line s j).entry c
      = ∑ j', (columns * weights) j j' * (line s j').entry c := by
        simp [mul_eq_one_comm.1 hinverse, Matrix.one_apply]
    _ = ∑ j', ∑ i, columns j i * (weights i j' * (line s j').entry c) := by
        simp only [Matrix.mul_apply, Finset.sum_mul, mul_assoc]
    _ = ∑ i, columns j i * (t.lines.get i).entry c := by
        rw [Finset.sum_comm]
        simp only [hlinesOf, Finset.mul_sum]

/-- A combination of lines is given in every column by its values in the basic columns. -/
theorem eq_sum_basis (hunit : UnitBasis t) (hlines : ∀ c : Fin (width s), LinesCombine c.castSucc t)
    {f : Fin (width s + 1) → ℚ} (hf : ∀ c : Fin (width s), IsCombination s c.castSucc f)
    (c : Fin (width s)) :
    f c.castSucc = ∑ i, f (t.basis.get i).castSucc * (t.lines.get i).entry c := by
  have hcolumn : ∀ c : Fin (width s),
      f c.castSucc = ∑ j, f (artificial s j).castSucc * (line s j).entry c := hf
  calc f c.castSucc
      = ∑ j, f (artificial s j).castSucc * (line s j).entry c := hcolumn c
    _ = ∑ j, ∑ i, f (artificial s j).castSucc * (line s j).entry (t.basis.get i) *
          (t.lines.get i).entry c := by
        refine Finset.sum_congr rfl fun j _ => ?_
        rw [line_eq_sum_basis hunit hlines j c, Finset.mul_sum]
        simp only [mul_assoc]
    _ = ∑ i, f (t.basis.get i).castSucc * (t.lines.get i).entry c := by
        rw [Finset.sum_comm]
        simp only [hcolumn (t.basis.get _), Finset.sum_mul]

/-- A combination is not negative in a column where no basic column contributes less than zero. -/
theorem combination_nonneg (hunit : UnitBasis t)
    (hlines : ∀ c : Fin (width s), LinesCombine c.castSucc t) {f : Fin (width s + 1) → ℚ}
    (hf : ∀ c : Fin (width s), IsCombination s c.castSucc f) {c : Fin (width s)}
    (h : ∀ i, 0 ≤ f (t.basis.get i).castSucc * (t.lines.get i).entry c) : 0 ≤ f c.castSucc := by
  rw [eq_sum_basis hunit hlines hf c]
  exact Finset.sum_nonneg fun i _ => h i

end MarkovFit.Proofs
