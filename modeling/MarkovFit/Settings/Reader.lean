import MarkovFit.Settings.Basic
import MarkovFit.Toml.Parser

/-!
# Reading settings

Settings are read from TOML. A group of settings is a table by names, or a list in the order of the
settings; what is missing has its default, and names that are not known do not count.
-/

namespace MarkovFit.Settings

open Toml (Value)

/-- The settings of a group as they are written. -/
inductive Group where
  | named (entries : List (String × Value))
  | listed (items : List Value)

namespace Group

def ofValue? : Value → Option Group
  | .table entries => some (.named entries)
  | .list items => some (.listed items)
  | _ => none

/-- The setting of a name, which is the setting at an index. -/
def get? (g : Group) (index : Nat) (name : String) : Option Value :=
  match g with
  | .named entries => entries.lookup name
  | .listed items => items[index]?

/-- A setting with a default. -/
def read {α : Type} (g : Group) (index : Nat) (name : String) (reader : Value → Option α)
    (default : α) : Option α :=
  match g.get? index name with
  | none => some default
  | some value => reader value

/-- A setting that may be missing. -/
def optional {α : Type} (g : Group) (index : Nat) (name : String) (reader : Value → Option α) :
    Option (Option α) :=
  g.read index name (fun value => (reader value).map some) none

/-- A setting that has to be there. -/
def required {α : Type} (g : Group) (index : Nat) (name : String) (reader : Value → Option α) :
    Option α :=
  (g.get? index name).bind reader

end Group

def readText : Value → Option String
  | .text value => some value
  | _ => none

def readFlag : Value → Option Bool
  | .boolean value => some value
  | _ => none

/-- An integer from zero up and below a bound. -/
def readNatBelow (bound : Nat) : Value → Option Nat
  | .integer value => if 0 ≤ value ∧ value < bound then some value.toNat else none
  | _ => none

/-- An integer of 64 bits from zero up. -/
def readNat : Value → Option Nat := readNatBelow (Nat.pow 2 64)

/-- A double; an integer stands for the nearest one. -/
def readFloat : Value → Option Float
  | .float value => some value
  | .integer value => some (Double.nearest (decide (value < 0)) value.natAbs 1)
  | _ => none

/-- A decimal: an integer, the digits of a double, or a text. -/
def readDecimal : Value → Option Decimal
  | .integer value => Decimal.ofInt? value
  | .float value => Decimal.parse? (Double.display value)
  | .text value => (Decimal.parse? value).or (Decimal.parseScientific? value)
  | _ => none

def readTexts : Value → Option (List String)
  | .list items => items.mapM readText
  | _ => none

/-- One of some words; a word may also be the name of an entry with nothing in it. -/
def readWord {α : Type} (words : List (String × α)) : Value → Option α
  | .text word => words.lookup word
  | .table [(word, .table [])] => words.lookup word
  | .table [(word, .list [])] => words.lookup word
  | _ => none

def readParameter (v : Value) : Option ParameterSettings := do
  let g ← Group.ofValue? v
  return {
    name := ← g.required 0 "name" readText
    lower := ← g.required 1 "lower" readDecimal
    upper := ← g.required 2 "upper" readDecimal }

def readParameters : Value → Option (List ParameterSettings)
  | .list items => items.mapM readParameter
  | _ => none

/-- The constants of a model, in the order of their names. -/
def readConstants : Value → Option (List (String × Value))
  | .table entries => some (Value.sortEntries entries)
  | _ => none

def readModel (v : Value) : Option ModelSettings := do
  let g ← Group.ofValue? v
  let d : ModelSettings := {}
  return {
    file := ← g.optional 0 "file" readText
    type := ← g.read 1 "type" (readWord ModelType.words) d.type
    property := ← g.optional 2 "property" readText
    constants := ← g.read 3 "constants" readConstants d.constants }

def readSimulation (v : Value) : Option Oracle.Simulation := do
  let g ← Group.ofValue? v
  let d : Oracle.Simulation := {}
  return {
    method := ← g.read 0 "method" (readWord Oracle.SimulationMethod.words) d.method
    approx := ← g.optional 1 "approx" readFloat
    conf := ← g.optional 2 "conf" readFloat
    pathLength := ← g.optional 3 "pathlen" readNat
    samples := ← g.optional 4 "samples" readNat }

def readOracle (v : Value) : Option OracleSettings := do
  let g ← Group.ofValue? v
  let d : OracleSettings := {}
  return {
    backend := ← g.read 0 "backend" (readWord Backend.words) d.backend
    path := ← g.optional 1 "path" readText
    options := ← g.read 2 "options" readTexts d.options
    threads := ← g.read 3 "threads" readNat d.threads
    timeout := ← g.optional 4 "timeout_secs" readNat
    expression := ← g.optional 5 "expression" readText
    simulation := ← g.read 6 "smc" readSimulation d.simulation }

def readScenario (v : Value) : Option ScenarioSettings := do
  let g ← Group.ofValue? v
  let d : ScenarioSettings := {}
  return {
    epsilon := ← g.read 0 "epsilon" readFloat d.epsilon
    eta := ← g.read 1 "eta" readFloat d.eta
    lambda := ← g.optional 2 "lambda" readDecimal
    degree := ← g.read 3 "degree" (readNatBelow (Nat.pow 2 32)) d.degree
    template := ← g.optional 4 "template" readText
    samples := ← g.optional 5 "samples" readNat
    vertices := ← g.read 6 "vertices" (readWord VertexMode.words) d.vertices
    boundaryPoints := ← g.read 7 "boundary_points" readNat d.boundaryPoints
    seed := ← g.optional 8 "seed" readNat
    showRange := ← g.read 9 "show_range" readFlag d.showRange }

def readLp (v : Value) : Option LpSettings := do
  let g ← Group.ofValue? v
  let d : LpSettings := {}
  return {
    solver := ← g.read 0 "solver" (readWord LpBackend.words) d.solver
    precision := ← g.read 1 "precision" readDecimal d.precision
    scaling := ← g.read 2 "scaling" (readNatBelow (Nat.pow 2 32)) d.scaling
    octavePath := ← g.optional 3 "octave_path" readText }

def readSearch (v : Value) : Option SearchSettings := do
  let g ← Group.ofValue? v
  let d : SearchSettings := {}
  return {
    direction := ← g.read 0 "direction" (readWord Direction.words) d.direction
    exploration := ← g.read 1 "exploration" readFloat d.exploration
    exploitationLimit := ← g.read 2 "exploitation_limit" readNat d.exploitationLimit
    iterationLimit := ← g.optional 3 "iteration_limit" readNat
    valueAbsolute := ← g.optional 4 "value_absolute" readFloat
    valueRelative := ← g.optional 5 "value_relative" readFloat
    parametersAbsolute := ← g.optional 6 "parameters_absolute" readFloat
    parametersRelative := ← g.optional 7 "parameters_relative" readFloat
    seed := ← g.optional 8 "seed" readNat }

def readOutput (v : Value) : Option OutputSettings := do
  let g ← Group.ofValue? v
  let d : OutputSettings := {}
  return {
    format := ← g.read 0 "format" (readWord Style.words) d.format
    report := ← g.optional 1 "report" readText }

/-- All settings of a table. -/
def ofValue? (v : Value) : Option Settings := do
  let g ← Group.ofValue? v
  let d : Settings := {}
  return {
    strategy := ← g.read 0 "strategy" (readWord Strategy.words) d.strategy
    model := ← g.read 1 "model" readModel d.model
    parameters := ← g.read 2 "parameters" readParameters d.parameters
    oracle := ← g.read 3 "oracle" readOracle d.oracle
    scenario := ← g.read 4 "scenario" readScenario d.scenario
    lp := ← g.read 5 "lp" readLp d.lp
    search := ← g.read 6 "search" readSearch d.search
    output := ← g.read 7 "output" readOutput d.output }

/-- Reads a configuration text. -/
def read? (s : String) : Option Settings := (Toml.read? s).bind ofValue?

end MarkovFit.Settings
