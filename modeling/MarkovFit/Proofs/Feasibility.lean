import MarkovFit.Proofs.DecimalValue

/-!
# Exact feasibility

What it means for an assignment of rational numbers to satisfy a linear program, read over the
exact values of its decimals.
-/

namespace MarkovFit.Proofs

/-- The value of a row of coefficients at an assignment. -/
def rowValue (coefficients : List Decimal) (x : List ℚ) : ℚ :=
  (List.zipWith (· * ·) (coefficients.map Decimal.toRat) x).sum

/-- The row holds at an assignment. -/
def RowHolds (row : Row) (x : List ℚ) : Prop :=
  match row.sense with
  | .atLeast => row.bound.toRat ≤ rowValue row.coefficients x
  | .atMost => rowValue row.coefficients x ≤ row.bound.toRat

instance (row : Row) (x : List ℚ) : Decidable (RowHolds row x) := by
  unfold RowHolds
  cases row.sense <;> infer_instance

/-- The value lies in the interval. -/
def Admits (i : Interval) (v : ℚ) : Prop :=
  (∀ l ∈ i.lower, l.toRat ≤ v) ∧ ∀ u ∈ i.upper, v ≤ u.toRat

instance (i : Interval) (v : ℚ) : Decidable (Admits i v) := inferInstanceAs (Decidable (_ ∧ _))

/-- The assignment has a value in the interval of each unknown, and all rows hold. -/
def Feasible (p : LinearProgram) (x : List ℚ) : Prop :=
  List.Forall₂ Admits p.intervals x ∧ ∀ row ∈ p.rows, RowHolds row x

instance (p : LinearProgram) (x : List ℚ) : Decidable (Feasible p x) :=
  inferInstanceAs (Decidable (_ ∧ _))

end MarkovFit.Proofs
