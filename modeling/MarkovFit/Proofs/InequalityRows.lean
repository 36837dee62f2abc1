import MarkovFit.Proofs.Feasibility
import MarkovFit.Proofs.RationalTableau

/-!
# Linear programs as systems of inequalities

The solver sees a linear program as inequalities `coefficients · x ≥ bound`, one for each row and
each finite end of an interval. A point misses no inequality by more than a tolerance exactly if it
misses no row and no interval of the program by more.
-/

namespace MarkovFit.Proofs

/-- The row holds up to a tolerance. -/
def RowHoldsWithin (tolerance : ℚ) (row : Row) (x : List ℚ) : Prop :=
  match row.sense with
  | .atLeast => row.bound.toRat - tolerance ≤ rowValue row.coefficients x
  | .atMost => rowValue row.coefficients x ≤ row.bound.toRat + tolerance

/-- The value lies in the interval up to a tolerance. -/
def AdmitsWithin (tolerance : ℚ) (i : Interval) (v : ℚ) : Prop :=
  (∀ l ∈ i.lower, l.toRat - tolerance ≤ v) ∧ ∀ u ∈ i.upper, v ≤ u.toRat + tolerance

/-- The assignment misses no interval and no row by more than a tolerance. -/
def FeasibleWithin (tolerance : ℚ) (p : LinearProgram) (x : List ℚ) : Prop :=
  List.Forall₂ (AdmitsWithin tolerance) p.intervals x ∧ ∀ row ∈ p.rows, RowHoldsWithin tolerance row x

lemma feasibleWithin_zero {p : LinearProgram} {x : List ℚ} : FeasibleWithin 0 p x ↔ Feasible p x := by
  have hrow : ∀ row, RowHoldsWithin 0 row x ↔ RowHolds row x := by
    intro row
    unfold RowHoldsWithin RowHolds
    cases row.sense <;> simp
  have hinterval : AdmitsWithin 0 = Admits := by
    funext i v
    unfold AdmitsWithin Admits
    simp only [sub_zero, add_zero]
  unfold FeasibleWithin Feasible
  rw [hinterval]
  simp only [hrow]

variable {n : Nat} {tolerance : ℚ} {x : Vector ℚ n}

/-- The inequality holds up to a tolerance. -/
def InequalityHolds (tolerance : ℚ) (i : Inequality ℚ n) (x : Vector ℚ n) : Prop :=
  i.bound - tolerance ≤ dot i.coefficients x

/-- The value of a list of decimals at a vector is a sum over the unknowns. -/
lemma rowValue_eq_sum {ds : List Decimal} (h : n ≤ ds.length) (x : Vector ℚ n) :
    rowValue ds x.toList = ∑ j : Fin n, (ds.get (j.castLE h)).toRat * x.get j := by
  rw [← List.sum_ofFn, rowValue]
  congr 1
  refine List.ext_getElem (by simp [h]) fun j _ _ => ?_
  simp only [List.getElem_zipWith, List.getElem_map, List.getElem_ofFn, Vector.getElem_toList]
  rfl

/-- The entries of a list that belong to the unknowns. -/
lemma get_take {ds : List Decimal} (h : n ≤ ds.length) (j : Fin n) :
    (⟨(ds.take n).toArray, by simp [h]⟩ : Vector Decimal n).get j = ds.get (j.castLE h) :=
  List.getElem_take

/-- The sign that makes a row one with `≥`. -/
def senseSign : Sense → ℚ
  | .atLeast => 1
  | .atMost => -1

lemma ofRow_eq (row : Row) (h : n ≤ row.coefficients.length) :
    (Inequality.ofRow row h : Inequality ℚ n) =
      ⟨(⟨(row.coefficients.take n).toArray, by simp [h]⟩ : Vector Decimal n).map fun a =>
        senseSign row.sense * a.toRat, senseSign row.sense * row.bound.toRat⟩ := by
  obtain ⟨coefficients, sense, bound⟩ := row
  cases sense <;> rfl

lemma dot_ofRow (row : Row) (h : n ≤ row.coefficients.length) (x : Vector ℚ n) :
    dot (Inequality.ofRow row h).coefficients x =
      senseSign row.sense * rowValue row.coefficients x.toList := by
  rw [ofRow_eq, dot_eq_sum, rowValue_eq_sum h, Finset.mul_sum]
  refine Finset.sum_congr rfl fun j _ => ?_
  rw [Vector.get_map, get_take, mul_assoc]

theorem inequalityHolds_ofRow {row : Row} (h : n ≤ row.coefficients.length) :
    InequalityHolds tolerance (.ofRow row h) x ↔ RowHoldsWithin tolerance row x.toList := by
  unfold InequalityHolds RowHoldsWithin
  rw [dot_ofRow, ofRow_eq]
  cases row.sense with
  | atLeast => rw [senseSign, one_mul, one_mul]
  | atMost => rw [senseSign, neg_one_mul, neg_one_mul, ← neg_add', neg_le_neg_iff]

lemma dot_single (j : Fin n) (sign bound : ℚ) :
    dot (Inequality.single j sign bound).coefficients x = sign * x.get j := by
  have hentry : ∀ i, (Inequality.single j sign bound).coefficients.get i * x.get i =
      if j = i then sign * x.get i else 0 := by
    intro i
    have hzero : (Vector.replicate n (0 : ℚ)).get i = 0 := Vector.get_replicate n 0 i
    have hget : (Inequality.single j sign bound).coefficients.get i = if j = i then sign else 0 :=
      (get_set _ j i sign).trans (congrArg (ite (j = i) sign) hzero)
    rw [hget, ite_mul, zero_mul]
  rw [dot_eq_sum]
  simp only [hentry]
  rw [Finset.sum_ite_eq, if_pos (Finset.mem_univ j)]

theorem inequalityHolds_ofInterval {j : Fin n} {interval : Interval} :
    (∀ i ∈ Inequality.ofInterval j interval, InequalityHolds tolerance i x) ↔
      AdmitsWithin tolerance interval (x.get j) := by
  have hlower : ∀ l : Decimal, InequalityHolds tolerance (.single j 1 l.toRat) x ↔
      l.toRat - tolerance ≤ x.get j := by
    intro l
    rw [InequalityHolds, dot_single, one_mul, Inequality.single]
  have hupper : ∀ u : Decimal, InequalityHolds tolerance (.single j (-1) (-u.toRat)) x ↔
      x.get j ≤ u.toRat + tolerance := by
    intro u
    rw [InequalityHolds, dot_single, neg_one_mul, Inequality.single, ← neg_add', neg_le_neg_iff]
  have hends : Inequality.ofInterval j interval =
      (interval.lower.map fun l => Inequality.single j 1 l.toRat).toList ++
        (interval.upper.map fun u => Inequality.single j (-1) (-u.toRat)).toList := rfl
  rw [hends, List.forall_mem_append, AdmitsWithin]
  refine and_congr ?_ ?_
  · cases interval.lower with
    | none => simp
    | some l => simp [hlower l]
  · cases interval.upper with
    | none => simp
    | some u => simp [hupper u]

/-- A point misses no inequality by more than the tolerance exactly if it misses nothing in the
program by more. -/
theorem inequalitiesHold_iff {p : LinearProgram} (h : p.WellFormed) (x : Vector ℚ p.unknowns.length) :
    (∀ i ∈ (InequalitySystem.ofProgram p h.fits).inequalities, InequalityHolds tolerance i x) ↔
      FeasibleWithin tolerance p x.toList := by
  have hrows : (∀ row ∈ p.rows, RowHoldsWithin tolerance row x.toList) ↔
      ∀ i ∈ p.rows.attach.map fun row => Inequality.ofRow row.1 (h.fits.2.1 row.1 row.2),
        InequalityHolds tolerance i x := by
    simp only [List.forall_mem_map, inequalityHolds_ofRow]
    exact ⟨fun hall row _ => hall row.1 row.2, fun hall row hrow => hall ⟨row, hrow⟩ (List.mem_attach _ _)⟩
  have hintervals : List.Forall₂ (AdmitsWithin tolerance) p.intervals x.toList ↔
      ∀ i ∈ (List.finRange p.unknowns.length).flatMap fun j =>
          Inequality.ofInterval j (p.intervals.getD j {}),
        InequalityHolds tolerance i x := by
    have hlength : x.toList.length = p.intervals.length := by rw [Vector.length_toList, h.1]
    rw [List.forall₂_iff_get]
    constructor
    · rintro ⟨-, hall⟩ i hi
      obtain ⟨j, -, hi⟩ := List.mem_flatMap.1 hi
      have hj : j.val < x.toList.length := by
        rw [Vector.length_toList]
        exact j.isLt
      rw [List.getD_eq_getElem _ _ (hlength ▸ hj)] at hi
      exact inequalityHolds_ofInterval.2 (hall j.val (hlength ▸ hj) hj) i hi
    · intro hall
      refine ⟨hlength.symm, fun j hj hj' => ?_⟩
      have hj'' : j < p.unknowns.length := h.1 ▸ hj
      refine inequalityHolds_ofInterval (j := ⟨j, hj''⟩).1 fun i hi => hall i ?_
      refine List.mem_flatMap.2 ⟨⟨j, hj''⟩, List.mem_finRange _, ?_⟩
      rwa [List.getD_eq_getElem _ _ hj]
  rw [FeasibleWithin, hrows, hintervals, and_comm, ← List.forall_mem_append]
  rfl

/-! ## The objective -/

/-- The inequalities and weights of a linear program over the rationals. -/
abbrev rationalSystem (p : LinearProgram) (h : p.WellFormed) :
    InequalitySystem ℚ p.unknowns.length :=
  .ofProgram p h.fits

/-- The sign that makes an objective one to make small. -/
def directionSign : Direction → ℚ
  | .min => 1
  | .max => -1

lemma weights_eq (p : LinearProgram) (h : p.WellFormed) :
    (rationalSystem p h).weights =
      (⟨(p.objective.take p.unknowns.length).toArray, by simp [h.2.1]⟩ :
          Vector Decimal p.unknowns.length).map fun a =>
        directionSign p.direction * a.toRat := by
  obtain ⟨unknowns, intervals, direction, objective, rows⟩ := p
  cases direction <;> rfl

lemma dot_weights (p : LinearProgram) (h : p.WellFormed) (x : Vector ℚ p.unknowns.length) :
    dot (rationalSystem p h).weights x =
      directionSign p.direction * rowValue p.objective x.toList := by
  rw [weights_eq, dot_eq_sum, rowValue_eq_sum h.fits.1, Finset.mul_sum]
  refine Finset.sum_congr rfl fun j _ => ?_
  rw [Vector.get_map, get_take, mul_assoc]

/-- The objective gets beyond every bound in its direction. -/
def UnboundedObjective (p : LinearProgram) : Prop :=
  ∀ bound : ℚ, ∃ x, Feasible p x ∧
    match p.direction with
    | .min => rowValue p.objective x < bound
    | .max => bound < rowValue p.objective x

end MarkovFit.Proofs
