import MarkovFit.Decimal.Text
import MarkovFit.Document
import MarkovFit.Failure

/-!
# Linear programs

A linear program asks for values of its unknowns that satisfy all rows and bounds and make the
objective as small, or as large, as possible.
-/

namespace MarkovFit

/-- The direction of an optimization. -/
inductive Direction where
  | min | max
deriving DecidableEq, Repr

namespace Direction

def text : Direction → String
  | .min => "min"
  | .max => "max"

def document (d : Direction) : Document := .text d.text

end Direction

/-- The relation between the value of a row and its bound. -/
inductive Sense where
  | atLeast | atMost
deriving DecidableEq, Repr

/-- The interval of an unknown; an end that is missing is infinite. -/
structure Interval where
  lower : Option Decimal := none
  upper : Option Decimal := none
deriving DecidableEq, Repr

/-- A linear condition: a coefficient for each unknown, a relation and a bound. -/
structure Row where
  coefficients : List Decimal
  sense : Sense
  bound : Decimal
deriving DecidableEq, Repr

/-- A linear program. The lists of intervals, of weights and of coefficients follow the list of
unknowns. -/
structure LinearProgram where
  unknowns : List String
  intervals : List Interval
  direction : Direction
  objective : List Decimal
  rows : List Row
deriving DecidableEq, Repr

/-- A number without what is at most `precision` away from zero. -/
def Decimal.snap (value precision : Decimal) : Decimal :=
  if value.abs ≤ precision then Decimal.zero else value

def Sense.document : Sense → Document
  | .atLeast => .text "Ge"
  | .atMost => .text "Le"

def Interval.document (i : Interval) : Document :=
  .record [("lower", .option (fun d => .text d.text) i.lower),
    ("upper", .option (fun d => .text d.text) i.upper)]

def Row.document (r : Row) : Document :=
  .record [("coefficients", .list (r.coefficients.map fun d => .text d.text)),
    ("sense", r.sense.document), ("bound", .text r.bound.text)]

namespace LinearProgram

/-- Whether intervals, objective and rows have one entry for each unknown. -/
def WellFormed (p : LinearProgram) : Prop :=
  p.intervals.length = p.unknowns.length ∧ p.objective.length = p.unknowns.length ∧
    ∀ row ∈ p.rows, row.coefficients.length = p.unknowns.length

instance (p : LinearProgram) : Decidable p.WellFormed := inferInstanceAs (Decidable (_ ∧ _ ∧ _))

def document (p : LinearProgram) : Document :=
  .record [("variables", .list (p.unknowns.map .text)),
    ("bounds", .list (p.intervals.map Interval.document)),
    ("direction", p.direction.document),
    ("objective", .list (p.objective.map fun d => .text d.text)),
    ("rows", .list (p.rows.map Row.document))]

end LinearProgram

/-- A backend that solves linear programs: values in the order of the unknowns, or nothing when it
finds no solution. -/
structure LpSolver (m : Type → Type) where
  name : String
  solve : LinearProgram → m (Except Failure (Option (List Decimal)))

end MarkovFit
