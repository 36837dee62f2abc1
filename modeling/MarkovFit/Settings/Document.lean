import MarkovFit.Settings.Basic

/-!
# Settings as documents

All settings with their names, those that are missing as null.
-/

namespace MarkovFit

/-- An optional text. -/
def textOption : Option String → Document := .option .text

/-- An optional number. -/
def naturalOption : Option Nat → Document := .option .natural

/-- An optional double. -/
def floatOption : Option Float → Document := .option .float

/-- The word of a value. -/
def wordDocument {α : Type} [DecidableEq α] (words : List (String × α)) (a : α) : Document :=
  .text (wordOf words a)

def ModelSettings.document (s : ModelSettings) : Document :=
  .record [("file", textOption s.file), ("type", .text s.type.text),
    ("property", textOption s.property),
    ("constants", .record (s.constants.map fun (name, value) => (name, value.document)))]

def ParameterSettings.document (p : ParameterSettings) : Document :=
  .record [("name", .text p.name), ("lower", .text p.lower.text), ("upper", .text p.upper.text)]

def Oracle.Simulation.document (s : Oracle.Simulation) : Document :=
  .record [("method", .text s.method.text), ("approx", floatOption s.approx),
    ("conf", floatOption s.conf), ("pathlen", naturalOption s.pathLength),
    ("samples", naturalOption s.samples)]

def OracleSettings.document (s : OracleSettings) : Document :=
  .record [("backend", wordDocument Backend.words s.backend), ("path", textOption s.path),
    ("options", .list (s.options.map .text)), ("threads", .natural s.threads),
    ("timeout_secs", naturalOption s.timeout), ("expression", textOption s.expression),
    ("smc", s.simulation.document)]

def ScenarioSettings.document (s : ScenarioSettings) : Document :=
  .record [("epsilon", .float s.epsilon), ("eta", .float s.eta),
    ("lambda", .option (fun d => .text d.text) s.lambda), ("degree", .natural s.degree),
    ("template", textOption s.template), ("samples", naturalOption s.samples),
    ("vertices", wordDocument VertexMode.words s.vertices),
    ("boundary_points", .natural s.boundaryPoints), ("seed", naturalOption s.seed),
    ("show_range", .bool s.showRange)]

def LpSettings.document (s : LpSettings) : Document :=
  .record [("solver", wordDocument LpBackend.words s.solver),
    ("precision", .text s.precision.text), ("scaling", .natural s.scaling),
    ("octave_path", textOption s.octavePath)]

def SearchSettings.document (s : SearchSettings) : Document :=
  .record [("direction", s.direction.document), ("exploration", .float s.exploration),
    ("exploitation_limit", .natural s.exploitationLimit),
    ("iteration_limit", naturalOption s.iterationLimit),
    ("value_absolute", floatOption s.valueAbsolute),
    ("value_relative", floatOption s.valueRelative),
    ("parameters_absolute", floatOption s.parametersAbsolute),
    ("parameters_relative", floatOption s.parametersRelative),
    ("seed", naturalOption s.seed)]

def OutputSettings.document (s : OutputSettings) : Document :=
  .record [("format", wordDocument Style.words s.format), ("report", textOption s.report)]

def Settings.document (s : Settings) : Document :=
  .record [("strategy", wordDocument Strategy.words s.strategy), ("model", s.model.document),
    ("parameters", .list (s.parameters.map ParameterSettings.document)),
    ("oracle", s.oracle.document), ("scenario", s.scenario.document), ("lp", s.lp.document),
    ("search", s.search.document), ("output", s.output.document)]

end MarkovFit
