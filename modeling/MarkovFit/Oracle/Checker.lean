import MarkovFit.Oracle.Basic
import MarkovFit.Oracle.Line
import MarkovFit.Double.Text

/-!
# Model checkers that run once for each sample

Storm and the statistical engine of PRISM get the constants of one sample on their command line and
print a value behind a marker. The first run that fails ends the call.
-/

namespace MarkovFit.Oracle

/-- The simulation methods of PRISM. -/
inductive SimulationMethod where
  | ci | aci | apmc | sprt
deriving DecidableEq, Repr

def SimulationMethod.text : SimulationMethod → String
  | .ci => "ci"
  | .aci => "aci"
  | .apmc => "apmc"
  | .sprt => "sprt"

/-- What the statistical engine is told. -/
structure Simulation where
  method : SimulationMethod := .apmc
  approx : Option Float := none
  conf : Option Float := none
  pathLength : Option Nat := none
  samples : Option Nat := none

/-- A model checker and how it is called. -/
structure Checker where
  name : String
  defaultProgram : String
  /-- What stands in front of the value. -/
  marker : String
  /-- The arguments for a model and all constants. -/
  arguments : ModelSpec → ModelSpec.Required → List Constant → List String

/-- An option with a value, if there is one. -/
def optional (name : String) : Option String → List String
  | none => []
  | some value => [name, value]

/-- The assignments, if there are any. -/
def assignment? (constants : List Constant) : Option String :=
  if constants.isEmpty then none else some (Constant.listText constants)

def storm : Checker :=
  { name := "storm"
    defaultProgram := "storm"
    marker := stormMarker
    arguments := fun spec model constants =>
      ["--" ++ model.type.text, model.file, "--prop", model.property] ++
        (if model.type = .prism then ["--prismcompat"] else []) ++
        optional "--constants" (assignment? constants) ++ spec.options }

/-- The options of a simulation. -/
def Simulation.arguments (s : Simulation) : List String :=
  ["-sim", "-simmethod", s.method.text] ++
    optional "-simapprox" (s.approx.map Double.display) ++
    optional "-simconf" (s.conf.map Double.display) ++
    optional "-simpathlen" (s.pathLength.map toString) ++
    optional "-simsamples" (s.samples.map toString)

def prism (simulation : Simulation) : Checker :=
  { name := "prismsmc"
    defaultProgram := "prism"
    marker := prismMarker
    arguments := fun spec model constants =>
      [model.file, "-pf", model.property] ++ optional "-const" (assignment? constants) ++
        simulation.arguments ++ spec.options }

namespace Checker

/-- The call for the constants of a sample. -/
def invocation (c : Checker) (spec : ModelSpec) (model : ModelSpec.Required)
    (sample : List Constant) : Invocation :=
  { program := spec.program.getD c.defaultProgram
    arguments := c.arguments spec model (spec.constants ++ sample)
    timeout := spec.timeout }

/-- The answer of a run. -/
def readOutcome (c : Checker) (spec : ModelSpec) (id : Nat) : Outcome → Except Failure Answer
  | .refused reason => .error (.io "running the model checker" reason)
  | .late => .error (lateness spec.timeout)
  | .finished output =>
    (readOutput? c.marker output.text).getD
      (.error (.oracleProtocol (.failedRun id output.status (Text.trim output.text)
        (Text.trim output.diagnostics))))

variable {m : Type → Type} [Monad m]

/-- Runs the checker for one request after another, until one fails. -/
def checkAll (c : Checker) (host : Host m) (spec : ModelSpec) (model : ModelSpec.Required) :
    Answers → List (Nat × List Constant) → m (Except Failure Answers)
  | answers, [] => return .ok answers
  | answers, (id, sample) :: rest => do
    match c.readOutcome spec id (← host.run (c.invocation spec model sample)) with
    | .error e => return .error e
    | .ok value => checkAll c host spec model (answers.insert id value) rest

/-- The oracle of a checker. -/
def oracle (c : Checker) (host : Host m) (spec : ModelSpec) : BatchOracle m :=
  { name := c.name
    check := fun requests =>
      match spec.require host.readable with
      | .error e => return .error e
      | .ok model => checkAll c host spec model ∅ requests.toList }

end Checker
end MarkovFit.Oracle
