import MarkovFit.LinearProgram.Basic
import MarkovFit.LinearProgram.Scalar

/-!
# Systems of inequalities

A linear program as the solver sees it: weights that are to be made small, and inequalities
`coefficients · x ≥ bound` for its rows and for the finite ends of its intervals. What the lists of a
program hold beyond its unknowns is left out, and an unknown without an interval is free.
-/

namespace MarkovFit

namespace LinearProgram

/-- Whether there is a weight and in each row a coefficient for every unknown, and no end of an interval
without an unknown. -/
def Fits (p : LinearProgram) : Prop :=
  p.unknowns.length ≤ p.objective.length ∧
    (∀ row ∈ p.rows, p.unknowns.length ≤ row.coefficients.length) ∧
    ∀ interval ∈ p.intervals.drop p.unknowns.length, interval = {}

instance (p : LinearProgram) : Decidable p.Fits := inferInstanceAs (Decidable (_ ∧ _ ∧ _))

theorem WellFormed.fits {p : LinearProgram} (h : p.WellFormed) : p.Fits := by
  refine ⟨Nat.le_of_eq h.2.1.symm, fun row hrow => Nat.le_of_eq (h.2.2 row hrow).symm, ?_⟩
  rw [List.drop_eq_nil_of_le (Nat.le_of_eq h.1)]
  exact fun _ hinterval => absurd hinterval List.not_mem_nil

end LinearProgram

/-- `coefficients · x ≥ bound`. -/
structure Inequality (α : Type) (n : Nat) where
  coefficients : Vector α n
  bound : α

/-- Weights to make small, under inequalities. -/
structure InequalitySystem (α : Type) (n : Nat) where
  weights : Vector α n
  inequalities : List (Inequality α n)
  /-- Weights of no unknown. -/
  surplus : List α := []

variable {α : Type} [Scalar α] {n : Nat}

/-- The sum of `a * b` over two vectors, from the left. -/
def dot (a b : Vector α n) : α := (a.zipWith (· * ·) b).foldl (· + ·) 0

namespace Inequality

/-- `sign * x_j ≥ bound`. -/
def single (j : Fin n) (sign bound : α) : Inequality α n :=
  ⟨(Vector.replicate n 0).set j sign, bound⟩

/-- A row with `≥`; a row with `≤` is negated. -/
def ofRow (row : Row) (h : n ≤ row.coefficients.length) : Inequality α n :=
  let sign : α := match row.sense with
    | .atLeast => 1
    | .atMost => -1
  { coefficients :=
      (⟨(row.coefficients.take n).toArray, by simp [h]⟩ : Vector Decimal n).map
        fun a => sign * Scalar.ofDecimal a
    bound := sign * Scalar.ofDecimal row.bound }

/-- The finite ends of the interval of an unknown. -/
def ofInterval (j : Fin n) (interval : Interval) : List (Inequality α n) :=
  (interval.lower.map fun lower => single j 1 (Scalar.ofDecimal lower)).toList ++
    (interval.upper.map fun upper => single j (-1) (-Scalar.ofDecimal upper)).toList

/-- By how much a point misses the bound. -/
def violation (i : Inequality α n) (x : Vector α n) : α := i.bound - dot i.coefficients x

/-- The size of the numbers that meet in an inequality at a point. -/
def size (i : Inequality α n) (x : Vector α n) : α :=
  (i.coefficients.zipWith (fun a v => Scalar.magnitude (a * v)) x).foldl (· + ·)
    (1 + Scalar.magnitude i.bound)

end Inequality

namespace InequalitySystem

/-- The system of a linear program. Weights to make large are negated. -/
def ofProgram (p : LinearProgram) (h : p.Fits) : InequalitySystem α p.unknowns.length :=
  let n := p.unknowns.length
  let sign : α := match p.direction with
    | .min => 1
    | .max => -1
  { weights :=
      (⟨(p.objective.take n).toArray, by simp [n, h.1]⟩ : Vector Decimal n).map
        fun c => sign * Scalar.ofDecimal c
    inequalities :=
      p.rows.attach.map (fun row => Inequality.ofRow row.1 (h.2.1 row.1 row.2)) ++
        (List.finRange n).flatMap fun j => Inequality.ofInterval j (p.intervals.getD j {})
    surplus := (p.objective.drop n).map fun c => sign * Scalar.ofDecimal c }

end InequalitySystem
end MarkovFit
