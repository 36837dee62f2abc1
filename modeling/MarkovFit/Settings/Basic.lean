import MarkovFit.Toml.Text
import MarkovFit.LinearProgram.Basic
import MarkovFit.Expr.Render
import MarkovFit.Oracle.Checker
import MarkovFit.Sampling.Plan

/-!
# Settings

What a configuration text sets: the model, its parameters, the oracle, and how a function is fitted
or an optimum is searched. Every setting but the parameters has a default.
-/

namespace MarkovFit

/-- What a run does: fit a function, or search an optimum. -/
inductive Strategy where
  | scenario | direct
deriving DecidableEq, Repr

/-- What computes the values of samples. -/
inductive Backend where
  | wrapper | storm | stormsmcc | prismsmc | synthetic
deriving DecidableEq, Repr

/-- What solves linear programs. -/
inductive LpBackend where
  | simplex | octave
deriving DecidableEq, Repr

structure ModelSettings where
  file : Option String := none
  type : ModelType := .prism
  property : Option String := none
  /-- Fixed constants, in the order of their names. -/
  constants : List (String × Toml.Value) := []

structure ParameterSettings where
  name : String
  lower : Decimal
  upper : Decimal
deriving DecidableEq, Repr

structure OracleSettings where
  backend : Backend := .wrapper
  path : Option String := none
  options : List String := []
  threads : Nat := 1
  /-- The limit for each call, in seconds. -/
  timeout : Option Nat := none
  expression : Option String := none
  simulation : Oracle.Simulation := {}

structure ScenarioSettings where
  epsilon : Float := 0.05
  eta : Float := 0.05
  /-- The greatest deviation that is accepted. -/
  lambda : Option Decimal := none
  degree : Nat := 2
  template : Option String := none
  samples : Option Nat := none
  vertices : VertexMode := .none
  boundaryPoints : Nat := 0
  seed : Option Nat := none
  showRange : Bool := false

/-- Values up to this magnitude count as zero, unless something else is set: `1e-9`. -/
def defaultPrecision : Decimal := Decimal.unit 9

structure LpSettings where
  solver : LpBackend := .simplex
  precision : Decimal := defaultPrecision
  /-- Rows are multiplied by this power of ten. -/
  scaling : Nat := 0
  octavePath : Option String := none

structure SearchSettings where
  direction : Direction := .min
  exploration : Float := 0.1
  /-- The greatest number of candidates that are rejected for one query. -/
  exploitationLimit : Nat := 1000
  iterationLimit : Option Nat := none
  valueAbsolute : Option Float := none
  valueRelative : Option Float := none
  parametersAbsolute : Option Float := none
  parametersRelative : Option Float := none
  seed : Option Nat := none

structure OutputSettings where
  format : Style := .math
  report : Option String := none

/-- All settings. -/
structure Settings where
  strategy : Strategy := .scenario
  model : ModelSettings := {}
  parameters : List ParameterSettings := []
  oracle : OracleSettings := {}
  scenario : ScenarioSettings := {}
  lp : LpSettings := {}
  search : SearchSettings := {}
  output : OutputSettings := {}

def Strategy.words : List (String × Strategy) := [("scenario", .scenario), ("direct", .direct)]

def ModelType.words : List (String × ModelType) := [("prism", .prism), ("jani", .jani)]

def Backend.words : List (String × Backend) :=
  [("wrapper", .wrapper), ("storm", .storm), ("stormsmcc", .stormsmcc), ("prismsmc", .prismsmc),
    ("synthetic", .synthetic)]

def Oracle.SimulationMethod.words : List (String × Oracle.SimulationMethod) :=
  [("aci", .aci), ("apmc", .apmc), ("ci", .ci), ("sprt", .sprt)]

def VertexMode.words : List (String × VertexMode) :=
  [("none", .none), ("replace", .replace), ("additive", .additive)]

def LpBackend.words : List (String × LpBackend) := [("simplex", .simplex), ("octave", .octave)]

def Direction.words : List (String × Direction) := [("min", .min), ("max", .max)]

def Style.words : List (String × Style) :=
  [("latex", .latex), ("math", .math), ("matlab", .matlab)]

/-- The word for a value in a list of words. -/
def wordOf {α : Type} [DecidableEq α] (words : List (String × α)) (a : α) : String :=
  ((words.find? fun w => w.2 = a).map (·.1)).getD ""

namespace Settings

/-- The text of a constant: a text stands for itself. -/
def constantText : Toml.Value → String
  | .text value => value
  | value => value.render

/-- The constants of the model. -/
def constants (s : Settings) : List Constant :=
  s.model.constants.map fun (name, value) => ⟨name, constantText value⟩

/-- The parameters, if all their intervals are proper. -/
def parameterSpace (s : Settings) : Except Failure (List Parameter) :=
  s.parameters.mapM fun p => Parameter.make p.name p.lower p.upper

end Settings
end MarkovFit
