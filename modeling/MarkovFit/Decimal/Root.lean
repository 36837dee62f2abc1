import MarkovFit.Decimal.Arithmetic

/-!
# Square roots of decimals

Newton's iteration from half the number, until a step no longer changes the value.
-/

namespace MarkovFit.Decimal

/-- Why there is no square root. -/
inductive RootFailure where
  /-- The number carries a minus sign, be it zero. -/
  | negative
  /-- The iteration does not come to rest, or a step of it leaves the range. -/
  | unsettled
deriving DecidableEq, Repr

/-- The greatest number of steps that Newton's iteration may take. -/
def maxRootSteps : Nat := 999

/-- One step of Newton's iteration for the root of `a`. -/
def rootStep? (a x : Decimal) : Option Decimal := do
  let q ← a.div? x
  let sum ← x.add? q
  sum.div? two

/-- Iterates from `x` until a step gives the same value again. -/
def iterateRoot (a : Decimal) : Nat → Decimal → Except RootFailure Decimal
  | 0, _ => .error .unsettled
  | steps + 1, x =>
    match rootStep? a x with
    | none => .error .unsettled
    | some y => if y.SameValue x then .ok y else iterateRoot a steps y

/-- The square root. -/
def sqrt (a : Decimal) : Except RootFailure Decimal :=
  if a.negative then .error .negative
  else if a.isZero then .ok zero
  else
    match a.div? two with
    | none => .error .unsettled
    | some half => iterateRoot a maxRootSteps (if half.isZero then a else half)

end MarkovFit.Decimal
