import MarkovFit.Search.Envelope
import MarkovFit.Sample
import MarkovFit.Settings.Basic

/-!
# When a search stops

A search goes on while all criteria that are set still see progress. The number of queries is always
limited. The other criteria compare the best point with the one that was best before it.
-/

namespace MarkovFit

/-- The best point at some moment of a search. -/
structure Incumbent where
  /-- The value in the sign that makes greater values better. -/
  value : Float
  /-- The value as the oracle gave it. -/
  raw : Decimal
  point : List Float
  sample : Sample
  /-- The number of its query, counted from zero. -/
  iteration : Nat

/-- The criteria of a search. -/
structure StoppingRule where
  iterationLimit : Nat
  valueAbsolute : Option Float
  valueRelative : Option Float
  parametersAbsolute : Option Float
  parametersRelative : Option Float

/-- Whether some criterion is set. -/
def SearchSettings.hasCriterion (s : SearchSettings) : Bool :=
  s.iterationLimit.isSome || s.valueAbsolute.isSome || s.valueRelative.isSome ||
    s.parametersAbsolute.isSome || s.parametersRelative.isSome

namespace StoppingRule

/-- The limit of queries where none is set. -/
def defaultIterationLimit : Nat := 1000

/-- The tolerance for values where no criterion is set. -/
def defaultValueAbsolute : Float := 1e-8

/-- The criteria that settings ask for. -/
def ofSettings (s : SearchSettings) : StoppingRule :=
  { iterationLimit := s.iterationLimit.getD defaultIterationLimit
    valueAbsolute := if s.hasCriterion then s.valueAbsolute else some defaultValueAbsolute
    valueRelative := s.valueRelative
    parametersAbsolute := s.parametersAbsolute
    parametersRelative := s.parametersRelative }

/-- Whether a change is below a tolerance, if there is one. -/
def isBelow (tolerance : Option Float) (change : Float) : Bool :=
  tolerance.any fun t => change < t

/-- Whether some criterion sees no progress from `second` to `best`. Relative changes count only
where there is something to relate them to. -/
def hasSettled (rule : StoppingRule) (best second : Incumbent) : Bool :=
  let valueChange := (best.value - second.value).abs
  let pointChange := Search.distance best.point second.point
  let size := Search.norm best.point
  isBelow rule.valueAbsolute valueChange ||
    (best.value != 0 && isBelow rule.valueRelative (valueChange / best.value).abs) ||
    isBelow rule.parametersAbsolute pointChange ||
    (size != 0 && isBelow rule.parametersRelative (pointChange / size))

/-- Whether a search goes on after this many queries. -/
def canImprove (rule : StoppingRule) (queries : Nat) (best : Incumbent)
    (second : Option Incumbent) : Bool :=
  decide (queries < rule.iterationLimit) && !second.any (rule.hasSettled best)

end StoppingRule
end MarkovFit
