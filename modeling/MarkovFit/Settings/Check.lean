import MarkovFit.Settings.Basic

/-!
# Checking settings

Every setting is held against its range before a run. The first one that is out of its range is
reported.
-/

namespace MarkovFit

/-- Why settings are refused. -/
inductive SettingsCause where
  | noParameters
  | parameterName (name : String)
  | repeatedParameter (name : String)
  | emptyInterval (name : String) (lower upper : Decimal)
  | parameterIsConstant (name : String)
  | constantName (name : String)
  | epsilon (value : String)
  | eta (value : String)
  | negativeLambda (value : Decimal)
  | noSamples
  | noThreads
  | noTime
  | noExpression
  | noModelFile
  | noProperty
  | prismOnly
  | simulationFraction (name : String) (value : String)
  | simulationCount (name : String)
  | negativePrecision
  | scaling (value : Nat)
  | exploration (value : String)
  | noIterations
  | negativeTolerance (name : String)
deriving DecidableEq, Repr

namespace SettingsCause

def text : SettingsCause → String
  | .noParameters => "at least one [[parameters]] entry is required"
  | .parameterName name => s!"'{name}' is not a valid parameter name"
  | .repeatedParameter name => s!"parameter '{name}' declared twice"
  | .emptyInterval name lower upper =>
    s!"parameter '{name}': lower bound {lower} must be below upper bound {upper}"
  | .parameterIsConstant name => s!"'{name}' is both a parameter and a model constant"
  | .constantName name => s!"'{name}' is not a valid constant name"
  | .epsilon value => s!"epsilon must be in (0, 1), got {value}"
  | .eta value => s!"eta must be in (0, 1), got {value}"
  | .negativeLambda value => s!"lambda must be non-negative, got {value}"
  | .noSamples => "samples must be positive"
  | .noThreads => "oracle.threads must be at least 1"
  | .noTime => "oracle.timeout_secs must be positive"
  | .noExpression => "the synthetic oracle needs oracle.expression"
  | .noModelFile => "model.file is required"
  | .noProperty => "model.property is required"
  | .prismOnly => "the stormsmcc backend only supports prism models"
  | .simulationFraction name value =>
    s!"oracle.smc.{name} must be strictly between 0 and 1, got {value}"
  | .simulationCount name => s!"oracle.smc.{name} must be at least 1"
  | .negativePrecision => "lp.precision must be non-negative"
  | .scaling value => s!"lp.scaling {value} is too large"
  | .exploration value => s!"search.exploration must be in [0, 1], got {value}"
  | .noIterations => "search.iteration_limit must be positive"
  | .negativeTolerance name => s!"search.{name} must be non-negative"

/-- The wording of a refusal. -/
def message (cause : SettingsCause) : String := "Invalid configuration: " ++ cause.text

end SettingsCause

namespace Settings

/-- A letter or an underscore, and then letters, digits and underscores. -/
def isIdentifier (s : String) : Bool :=
  match s.toList with
  | [] => false
  | c :: cs => (c.isAlpha || c == '_') && cs.all fun c => c.isAlphanum || c == '_'

/-- Refuses for a cause unless a condition holds. -/
def demand (condition : Bool) (cause : SettingsCause) : Except SettingsCause Unit :=
  if condition then .ok () else .error cause

/-- Checks parameters, of which those before are named `seen`. -/
def checkParameters (constants : List String) :
    List String → List ParameterSettings → Except SettingsCause Unit
  | _, [] => .ok ()
  | seen, p :: ps => do
    demand (isIdentifier p.name) (.parameterName p.name)
    demand (!seen.contains p.name) (.repeatedParameter p.name)
    demand (decide (p.lower < p.upper)) (.emptyInterval p.name p.lower p.upper)
    demand (!constants.contains p.name) (.parameterIsConstant p.name)
    checkParameters constants (p.name :: seen) ps

/-- Checks the names of constants. -/
def checkConstants : List String → Except SettingsCause Unit
  | [] => .ok ()
  | name :: names => do
    demand (isIdentifier name) (.constantName name)
    checkConstants names

/-- Whether a number is strictly between zero and one. -/
def isFraction (x : Float) : Bool := 0 < x && x < 1

def checkScenario (s : ScenarioSettings) : Except SettingsCause Unit := do
  demand (isFraction s.epsilon) (.epsilon (Double.display s.epsilon))
  demand (isFraction s.eta) (.eta (Double.display s.eta))
  match s.lambda with
  | some lambda => demand (!lambda.negative) (.negativeLambda lambda)
  | none => pure ()
  demand (s.samples != some 0) .noSamples

/-- A fraction among the settings of a simulation. -/
def checkFraction (name : String) : Option Float → Except SettingsCause Unit
  | none => .ok ()
  | some x => demand (isFraction x) (.simulationFraction name (Double.display x))

def checkOracle (s : Settings) : Except SettingsCause Unit := do
  demand (s.oracle.threads != 0) .noThreads
  demand (s.oracle.timeout != some 0) .noTime
  if s.oracle.backend = .synthetic then
    demand s.oracle.expression.isSome .noExpression
  else
    demand s.model.file.isSome .noModelFile
    demand s.model.property.isSome .noProperty
  demand (s.oracle.backend != .stormsmcc || s.model.type == .prism) .prismOnly
  let simulation := s.oracle.simulation
  checkFraction "approx" simulation.approx
  checkFraction "conf" simulation.conf
  demand (simulation.pathLength != some 0) (.simulationCount "pathlen")
  demand (simulation.samples != some 0) (.simulationCount "samples")

def checkLp (s : LpSettings) : Except SettingsCause Unit := do
  demand (!s.precision.negative) .negativePrecision
  demand (decide (s.scaling ≤ 20)) (.scaling s.scaling)

/-- A tolerance among the settings of a search. -/
def checkTolerance (name : String) : Option Float → Except SettingsCause Unit
  | none => .ok ()
  | some x => demand (!(x.isNaN || decide (x < 0))) (.negativeTolerance name)

def checkSearch (s : SearchSettings) : Except SettingsCause Unit := do
  demand (0 ≤ s.exploration && s.exploration ≤ 1) (.exploration (Double.display s.exploration))
  demand (s.iterationLimit != some 0) .noIterations
  checkTolerance "value_absolute" s.valueAbsolute
  checkTolerance "value_relative" s.valueRelative
  checkTolerance "parameters_absolute" s.parametersAbsolute
  checkTolerance "parameters_relative" s.parametersRelative

/-- Checks all settings. -/
def validate (s : Settings) : Except SettingsCause Unit := do
  demand (!s.parameters.isEmpty) .noParameters
  let constants := s.model.constants.map (·.1)
  checkParameters constants [] s.parameters
  checkConstants constants
  checkScenario s.scenario
  checkOracle s
  checkLp s.lp
  checkSearch s.search

end Settings
end MarkovFit
