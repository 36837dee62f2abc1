import MarkovFit.Failure
import MarkovFit.Decimal.Power
import MarkovFit.Decimal.Root

/-!
# Values of expressions

The value of an expression under an assignment of decimals to names. A whole exponent is a repeated
product, a fractional one goes through a logarithm and asks for a base without a minus sign.
-/

namespace MarkovFit

/-- The value of an optional result, or a failure by this cause. -/
def orArithmetic {α : Type} (cause : ArithmeticCause) : Option α → Except Failure α
  | some a => .ok a
  | none => .error (.arithmetic cause)

/-- A power. -/
def Operator.applyPow (a b : Decimal) : Except Failure Decimal :=
  if b.isInteger then
    match b.toInt64? with
    | none => .error (.arithmetic (.exponentOutOfRange b))
    | some e =>
      if e < 0 ∧ a.isZero then .error (.arithmetic (.zeroToNegative e))
      else orArithmetic (.overflow a .pow b) (a.powInt? e)
  else if a.negative then .error (.arithmetic (.negativeBase a b))
  else orArithmetic (.overflow a .pow b) (a.powFraction? b)

/-- The result of an operation. -/
def Operator.apply (op : Operator) (a b : Decimal) : Except Failure Decimal :=
  match op with
  | .add => orArithmetic (.overflow a op b) (a.add? b)
  | .sub => orArithmetic (.overflow a op b) (a.sub? b)
  | .mul => orArithmetic (.overflow a op b) (a.mul? b)
  | .div =>
    if b.isZero then .error (.arithmetic (.divisionByZero a))
    else orArithmetic (.overflow a op b) (a.div? b)
  | .pow => applyPow a b

namespace Expr

/-- The value of an expression, with names resolved by `lookup`. -/
def evaluate (lookup : String → Option Decimal) : Expr → Except Failure Decimal
  | .number value => .ok value
  | .ident name =>
    match lookup name with
    | some value => .ok value
    | none => .error (.undefinedIdentifier name)
  | .neg e => do return -(← e.evaluate lookup)
  | .ceil e => do return (← e.evaluate lookup).ceil
  | .sqrt e => do
    let value ← e.evaluate lookup
    match value.sqrt with
    | .ok root => .ok root
    | .error .negative => .error (.arithmetic (.negativeRoot value))
    | .error .unsettled => .error (.fault .unsettledRoot)
  | .binary op l r => do
    let a ← l.evaluate lookup
    let b ← r.evaluate lookup
    op.apply a b

end Expr
end MarkovFit
