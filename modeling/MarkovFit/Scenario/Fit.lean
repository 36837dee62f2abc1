import MarkovFit.LinearProgram.Model
import MarkovFit.Pool
import MarkovFit.Scenario.Basic
import MarkovFit.Scenario.Outcome
import MarkovFit.Template.Render

/-!
# Fitting

The values at the samples become a linear program: for each sample the function may lie above and
below the value by `lambda` at most, and `lambda` is made as small as possible. An infinite value
ends the fit before the program is built.
-/

namespace MarkovFit.Scenario

/-- A sample with its value. -/
abbrev Measurement := Sample × Decimal

/-- The samples with their values, or the first sample without a finite one. -/
def measurements (answers : Answers) : List (Sample × Nat) → Except Sample (List Measurement)
  | [] => .ok []
  | (sample, i) :: rest =>
    match answers[i]? with
    | some (.finite value) => (measurements answers rest).map ((sample, value) :: ·)
    | _ => .error sample

/-- Adds the two rows of a sample: the function plus `lambda` is at least the value, and the
function minus `lambda` at most. -/
def addMeasurement (template : Template) (model : Model) (x : Measurement) :
    Except Failure Model := do
  let terms ← template.evaluate x.1
  let model ← model.addRow (terms.insert lambdaName Decimal.one) .atLeast x.2
  model.addRow (terms.insert lambdaName (-Decimal.one)) .atMost x.2

/-- The linear program of a fit. -/
def model (s : Scenario) (data : List Measurement) : Except Failure Model := do
  let lp := s.settings.lp
  let start ← Model.minimizeLambda lp.scaling lp.precision s.settings.scenario.lambda
    s.template.coefficients
  data.foldlM (addMeasurement s.template) start

/-- The outcome that a solution stands for. -/
def conclude (s : Scenario) : Option Solution → Except Failure ScenarioOutcome
  | none => .ok (.failed s.property)
  | some solution => do
    let expression ← s.template.render s.settings.output.format solution.coefficients
    return .approximated solution.lambda expression solution.coefficients

variable {m : Type → Type} [Monad m]

/-- Fits a function to the values at samples. -/
def approximate (s : Scenario) (solver : LpSolver m) (data : List Measurement) :
    m (Except Failure ScenarioOutcome) := do
  match s.model data with
  | .error e => return .error e
  | .ok model => return (← model.solve solver).bind s.conclude

/-- The outcome for the answers of all samples. -/
def evaluate (s : Scenario) (solver : LpSolver m) (samples : List Sample) (answers : Answers) :
    m (Except Failure ScenarioOutcome) :=
  match measurements answers samples.zipIdx with
  | .error sample => return .ok (.notComputed sample.toConstants)
  | .ok data => s.approximate solver data

/-- Checks the samples and fits a function to their values. -/
def fit (s : Scenario) (pool : Pool m) (solver : LpSolver m) (samples : List Sample) :
    m (Except Failure ScenarioReport) := do
  match ← pool.run samples with
  | .error e => return .error e
  | .ok checked =>
    let outcome ← s.evaluate solver samples checked.answers
    return outcome.map fun outcome => ⟨outcome, checked.range, samples.length⟩

/-- Draws the samples, checks them and fits a function to their values. -/
def run {γ : Type} [RandomSource γ] (s : Scenario) (pool : Pool m) (solver : LpSolver m)
    (source : γ) : m (Except Failure ScenarioReport) :=
  match s.samples source with
  | .error e => return .error e
  | .ok samples => s.fit pool solver samples

end MarkovFit.Scenario
