import MarkovFit.LinearProgram.Basic
import MarkovFit.Decimal.Text
import MarkovFit.Parameter

/-!
# Outcomes of a search

A search ends with the best point it has seen, or at a point where the oracle answered with
infinity.
-/

namespace MarkovFit

/-- The result of a search. -/
inductive SearchOutcome where
  /-- The best value, where it was found, the number of its query and the number of all queries. -/
  | optimum (value : Decimal) (point : List Constant) (iteration evaluations : Nat)
  | infinite (point : List Constant)
deriving DecidableEq, Repr

namespace SearchOutcome

def document : SearchOutcome → Document
  | .optimum value point iteration evaluations =>
    .record [("kind", .text "optimum"), ("value", .text value.text),
      ("point", .list (point.map Constant.document)), ("iteration", .natural iteration),
      ("evaluations", .natural evaluations)]
  | .infinite point =>
    .record [("kind", .text "infinite"), ("point", .list (point.map Constant.document))]

/-- The coordinates of a point. -/
def pointText (point : List Constant) : String :=
  "[" ++ ", ".intercalate (point.map Constant.text) ++ "]"

/-- The lines that tell the result. -/
def lines : SearchOutcome → List String
  | .optimum value point iteration _ =>
    [s!"Optimal value: {value.shortText}", s!"Coordinates of optimal value: {pointText point}",
      s!"Iteration of optimal value: {iteration}"]
  | .infinite point => [s!"Optimal value: infinity (at {pointText point})"]

def text (outcome : SearchOutcome) : String := "\n".intercalate outcome.lines

end SearchOutcome

/-- A finished search. -/
structure SearchReport where
  direction : Direction
  outcome : SearchOutcome
deriving DecidableEq, Repr

def SearchReport.text (r : SearchReport) : String := r.outcome.text

end MarkovFit
