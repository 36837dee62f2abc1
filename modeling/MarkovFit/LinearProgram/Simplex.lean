import MarkovFit.LinearProgram.Tableau
import MarkovFit.Double.Text

/-!
# The simplex method

Programs with few unknowns and many rows are solved by their dual: one line for each unknown. The
values of the unknowns are the reduced costs of the artificial columns at the end, and they are held
against every inequality before they are given out.
-/

namespace MarkovFit

open Scalar

namespace Simplex

variable {α : Type} [Scalar α] {n : Nat}

/-- Why there is a tableau at the end and still no answer. -/
inductive Defect (α : Type) where
  | outOfPivots
  | violated (index : Nat) (violation : α)
  | gap (primal dual : α)

/-- What the method finds. -/
inductive Verdict (α : Type) (n : Nat) where
  | point (values : Vector α n)
  | noSolution
  | defect (cause : Defect α)

/-- How far a solution may be off, relative to the numbers involved. -/
def residualTolerance : α := ofDecimal (Decimal.unit 6)

/-- The number of columns: the inequalities and the artificial ones. -/
def width (s : InequalitySystem α n) : Nat := s.inequalities.length + n

/-- The artificial column of an unknown. -/
def artificial (s : InequalitySystem α n) (j : Fin n) : Fin (width s) :=
  ⟨s.inequalities.length + j.val, by have := j.isLt; unfold width; omega⟩

/-- Signs that make all weights positive. -/
def signs (s : InequalitySystem α n) : Vector α n :=
  s.weights.map fun c => if lt c 0 then -1 else 1

/-- The line of an unknown: its coefficients in all inequalities, its artificial column and its
weight, with the sign that makes the weight positive. -/
def line (s : InequalitySystem α n) (j : Fin n) : TableauLine α (width s) :=
  let sign := (signs s).get j
  let coefficients :=
    (s.inequalities.map fun i => sign * i.coefficients.get j).toArray
  Vector.ofFn fun k =>
    if h : k.val < coefficients.size then coefficients[k.val]
    else if k.val = s.inequalities.length + j.val then 1
    else if k.val = width s then sign * s.weights.get j
    else 0

/-- The cost of each artificial column is one. -/
def artificialCost (s : InequalitySystem α n) : TableauLine α (width s) :=
  Vector.ofFn fun k => if s.inequalities.length ≤ k.val ∧ k.val < width s then 1 else 0

/-- The tableau of phase one: the artificial columns are basic and their sum is the cost. -/
def start (s : InequalitySystem α n) : Tableau α n (width s) :=
  let lines := Vector.ofFn (line s)
  { lines := lines
    basis := Vector.ofFn (artificial s)
    cost := lines.foldl (fun cost line => cost.zipWith (· - ·) line) (artificialCost s) }

/-- Whether phase one has left more than rounding in the artificial columns. -/
def isInfeasible (s : InequalitySystem α n) (t : Tableau α n (width s)) : Bool :=
  let scale := 1 + (s.surplus.map magnitude).foldl (· + ·) ((s.weights.map magnitude).foldl (· + ·) 0)
  lt (residualTolerance * scale) (-t.cost.rhs)

/-- The column that replaces an artificial one as the basic column of a line: the last one with the
largest entry. -/
def replacement? (s : InequalitySystem α n) (t : Tableau α n (width s)) (r : Fin n) :
    Option (Fin (width s)) :=
  let size (k : Fin (width s)) := magnitude ((t.lines.get r).entry k)
  lastGreatest? size
    ((List.finRange (width s)).filter fun k =>
      k.val < s.inequalities.length && lt Tableau.pivotTolerance (size k))

/-- Drives the artificial column of a line out of the basis, where that is possible. -/
def driveOut (s : InequalitySystem α n) (t : Tableau α n (width s)) (r : Fin n) :
    Tableau α n (width s) :=
  if (t.basis.get r).val < s.inequalities.length then t
  else
    match replacement? s t r with
    | none => t
    | some k => t.pivot r k

/-- The cost of an inequality is the negative of its bound. -/
def dualCost (s : InequalitySystem α n) : TableauLine α (width s) :=
  let bounds := (s.inequalities.map fun i => -i.bound).toArray
  Vector.ofFn fun k => if h : k.val < bounds.size then bounds[k.val] else 0

/-- The reduced costs of phase two. -/
def dualStart (s : InequalitySystem α n) (t : Tableau α n (width s)) : Tableau α n (width s) :=
  let cost := (List.finRange n).foldl
    (fun cost i => cost.reduce (cost.entry (t.basis.get i)) (t.lines.get i)) (dualCost s)
  { t with cost := cost }

/-- The values of the unknowns: the reduced costs of the artificial columns, with the sign of the
line. -/
def point (s : InequalitySystem α n) (t : Tableau α n (width s)) : Vector α n :=
  Vector.ofFn fun j => (signs s).get j * t.cost.entry (artificial s j)

/-- The first inequality, with its index, that a point violates by more than rounding. -/
def violated? (x : Vector α n) : Nat → List (Inequality α n) → Option (Nat × α)
  | _, [] => none
  | k, i :: is =>
    if lt (residualTolerance * i.size x) (i.violation x) then some (k, i.violation x)
    else violated? x (k + 1) is

/-- Holds the values at the end of phase two against all inequalities and against the value of the
dual program. -/
def check (s : InequalitySystem α n) (t : Tableau α n (width s)) : Verdict α n :=
  let x := point s t
  match violated? x 0 s.inequalities with
  | some (k, violation) => .defect (.violated k violation)
  | none =>
    let primal := dot s.weights x
    let dual := t.cost.rhs
    if lt (residualTolerance * (1 + magnitude dual)) (magnitude (primal - dual)) then
      .defect (.gap primal dual)
    else .point x

/-- Phase two, from a basis of phase one. -/
def secondPhase (pivots : Nat) (s : InequalitySystem α n) (t : Tableau α n (width s)) :
    Verdict α n :=
  match Tableau.optimize s.inequalities.length pivots 0 (dualStart s t) with
  | .outOfPivots => .defect .outOfPivots
  | .unbounded _ => .noSolution
  | .optimal t => check s t

/-- Solves a system with at most `pivots` moves in each phase. -/
def solve (pivots : Nat) (s : InequalitySystem α n) : Verdict α n :=
  match Tableau.optimize (width s) pivots 0 (start s) with
  | .outOfPivots => .defect .outOfPivots
  | .optimal t | .unbounded t =>
    if isInfeasible s t then .noSolution
    else secondPhase pivots s ((List.finRange n).foldl (driveOut s) t)

/-- The failure of a defect. -/
def defectCause (pivots : Nat) : Defect Float → LpCause
  | .outOfPivots => .pivotBudget pivots
  | .violated index violation => .violatedConstraint index (Double.scientific violation)
  | .gap primal dual =>
    .dualityGap (Double.scientific (primal - dual)) (Double.display primal) (Double.display dual)

/-- The values of a verdict as decimals. -/
def values (pivots : Nat) : Verdict Float n → Except Failure (Option (List Decimal))
  | .defect cause => .error (.lp (defectCause pivots cause))
  | .noSolution => .ok none
  | .point x => do
    let decimals ← x.toList.mapM fun v =>
      match Decimal.ofFloat? v with
      | some d => Except.ok d
      | none => .error (.lp (.notADecimal (Double.display v)))
    return some decimals

/-- Solves a linear program in doubles. Nothing can be read beyond the end of a list. -/
def solveProgram (pivots : Nat) (p : LinearProgram) : Except Failure (Option (List Decimal)) :=
  if h : p.Fits then
    values pivots (solve pivots (InequalitySystem.ofProgram (α := Float) p h))
  else .error (.fault .crash)

/-- The number of pivots for each phase, unless something else is said. -/
def defaultPivots : Nat := 100000

/-- The built-in backend. -/
def solver {μ : Type → Type} [Monad μ] (pivots : Nat := defaultPivots) : LpSolver μ :=
  { name := "simplex", solve := fun p => return solveProgram pivots p }

end Simplex
end MarkovFit
