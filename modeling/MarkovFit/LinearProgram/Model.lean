import MarkovFit.LinearProgram.Basic
import MarkovFit.Template.Basic

/-!
# Models

A model is a linear program under construction: its unknowns are registered first, then its objective
is set, and then rows are added one after another. Values are given by name, and the model knows the
position of each name. Every row is multiplied by a power of ten before it enters the program, and
values of a solution that are close to zero become zero.
-/

namespace MarkovFit

/-- The name of the unknown that bounds all deviations. -/
def lambdaName : String := "lambda"

/-- A linear program that takes rows. -/
structure Model where
  program : LinearProgram
  /-- The position of each unknown. -/
  index : Std.TreeMap String Nat
  factor : Decimal
  precision : Decimal

/-- The values of a solved model by name. -/
structure Solution where
  values : Valuation

namespace Solution

def get? (s : Solution) (name : String) : Option Decimal := s.values[name]?

/-- The bound on all deviations. -/
def lambda (s : Solution) : Decimal := (s.get? lambdaName).getD Decimal.zero

/-- All values but the bound on deviations. -/
def coefficients (s : Solution) : Valuation := s.values.erase lambdaName

end Solution

namespace Model

/-- The power of ten that rows are multiplied by. -/
def scalingFactor (scaling : Nat) : Except Failure Decimal :=
  match Decimal.ten.powNat? scaling with
  | some factor => .ok factor
  | none => .error (.invalidInput (.scalingTooLarge scaling))

/-- A model without unknowns. Rows will be multiplied by `10 ^ scaling`. -/
def empty (scaling : Nat) (precision : Decimal) : Except Failure Model := do
  let factor ← scalingFactor scaling
  return {
    program := { unknowns := [], intervals := [], direction := .min, objective := [], rows := [] }
    index := ∅
    factor := factor
    precision := precision }

/-- Registers an unknown behind the others. A name is registered once. -/
def push (m : Model) (name : String) (interval : Interval) : Except Failure Model :=
  if m.index.contains name then .error (.invalidInput (.duplicateUnknown name))
  else .ok {
    m with
    program := {
      m.program with
      unknowns := m.program.unknowns ++ [name]
      intervals := m.program.intervals ++ [interval] }
    index := m.index.insert name m.program.unknowns.length }

/-- Registers `lambda`, which lies between zero and its bound, and the free unknowns
`coefficients`. -/
def setUnknowns (m : Model) (lambdaBound : Option Decimal) (coefficients : List String) :
    Except Failure Model := do
  let m ← m.push lambdaName ⟨some Decimal.zero, lambdaBound⟩
  coefficients.foldlM (fun m name => m.push name {}) m

/-- Writes the value of a name, multiplied by `factor`, to the position of the name. Nothing can be
written beyond the end of a list. -/
def writeEntry (m : Model) (factor : Decimal) (entries : List Decimal) :
    String × Decimal → Except Failure (List Decimal)
  | (name, value) =>
    match m.index[name]? with
    | none => .error (.invalidInput (.noSuchUnknown name))
    | some i =>
      match value.mul? factor with
      | none => .error (.arithmetic (.scalingOverflow value))
      | some product =>
        if i < entries.length then .ok (entries.set i product) else .error (.fault .crash)

/-- An entry for each unknown from values by name, each multiplied by `factor`; an unknown without a
value has zero. The first name, in order, that is no unknown or whose value leaves the range decides
about the failure. -/
def dense (m : Model) (terms : Valuation) (factor : Decimal) : Except Failure (List Decimal) :=
  terms.toList.foldlM (m.writeEntry factor)
    (List.replicate m.program.unknowns.length Decimal.zero)

/-- Sets the objective. -/
def setObjective (m : Model) (direction : Direction) (weights : Valuation) :
    Except Failure Model := do
  let objective ← m.dense weights Decimal.one
  return { m with program := { m.program with direction := direction, objective := objective } }

/-- The model without rows over `lambda` and the unknowns `coefficients`. -/
def make (scaling : Nat) (precision : Decimal) (lambdaBound : Option Decimal)
    (coefficients : List String) (direction : Direction) (weights : Valuation) :
    Except Failure Model := do
  let m ← empty scaling precision
  let m ← m.setUnknowns lambdaBound coefficients
  m.setObjective direction weights

/-- The weights of the objective that is `lambda` alone. -/
def lambdaAlone : Valuation := Std.TreeMap.ofList [(lambdaName, Decimal.one)]

/-- The model that makes `lambda` as small as possible. -/
def minimizeLambda (scaling : Nat) (precision : Decimal) (lambdaBound : Option Decimal)
    (coefficients : List String) : Except Failure Model :=
  make scaling precision lambdaBound coefficients .min lambdaAlone

/-- Adds a row, scaled. -/
def addRow (m : Model) (terms : Valuation) (sense : Sense) (bound : Decimal) :
    Except Failure Model := do
  let coefficients ← m.dense terms m.factor
  let scaledBound ← orArithmetic (.boundScalingOverflow bound) (bound.mul? m.factor)
  let row : Row := ⟨coefficients, sense, scaledBound⟩
  return { m with program := { m.program with rows := m.program.rows ++ [row] } }

/-- The values of the unknowns as a solution. -/
def solution (m : Model) (solver : String) (values : List Decimal) : Except Failure Solution :=
  if values.length = m.program.unknowns.length then
    .ok ⟨Std.TreeMap.ofList
      (m.program.unknowns.zip (values.map fun value => value.snap m.precision))⟩
  else .error (.lp (.wrongLength solver values.length m.program.unknowns.length))

/-- Solves the model; nothing when the solver finds no solution. -/
def solve {μ : Type → Type} [Monad μ] (m : Model) (solver : LpSolver μ) :
    μ (Except Failure (Option Solution)) := do
  let found ← solver.solve m.program
  return found.bind fun
    | none => .ok none
    | some values => (m.solution solver.name values).map some

end Model
end MarkovFit
