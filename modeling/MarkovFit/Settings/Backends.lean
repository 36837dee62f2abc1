import MarkovFit.Settings.Basic
import MarkovFit.LinearProgram.Octave
import MarkovFit.LinearProgram.Simplex
import MarkovFit.Oracle.Synthetic
import MarkovFit.Oracle.Wrapper
import MarkovFit.Pool
import MarkovFit.Random.ChaCha

/-!
# Backends of settings

The oracles, the solver and the random draws that settings ask for.
-/

namespace MarkovFit.Settings

open Oracle

/-- What the model checker is told about the model. -/
def modelSpec (s : Settings) : ModelSpec :=
  { file := s.model.file
    type := some s.model.type
    property := s.model.property
    constants := s.constants
    options := s.oracle.options
    program := s.oracle.path
    timeout := s.oracle.timeout.map (1000 * ·) }

/-- The synthetic oracle over the names of the parameters. -/
def synthetic (s : Settings) : Except Failure Synthetic :=
  match s.oracle.expression with
  | none => .error (.oracleState .noExpression)
  | some source => Synthetic.make source (s.parameters.map (·.name)) s.constants

variable {m : Type → Type} [Monad m]

/-- A batch oracle. -/
def batchOracle (s : Settings) (host : Host m) : Except Failure (BatchOracle m) :=
  match s.oracle.backend with
  | .wrapper => .ok (wrapper .exact host s.modelSpec)
  | .stormsmcc => .ok (wrapper .statistical host s.modelSpec)
  | .storm => .ok (storm.oracle host s.modelSpec)
  | .prismsmc => .ok ((prism s.oracle.simulation).oracle host s.modelSpec)
  | .synthetic => s.synthetic.map (·.batch)

/-- The name of a backend where a failure mentions it. -/
def backendName : Backend → String
  | .wrapper => "Wrapper"
  | .storm => "Storm"
  | .stormsmcc => "Stormsmcc"
  | .prismsmc => "Prismsmc"
  | .synthetic => "Synthetic"

/-- The interactive oracle; only wrappers and the synthetic oracle are interactive. -/
def interactiveOracle (s : Settings) (host : Host m) :
    Except Failure (InteractiveOracle SessionM) :=
  match s.oracle.backend with
  | .wrapper => .ok (Client.oracle host s.modelSpec)
  | .synthetic => s.synthetic.map (·.interactive)
  | backend => .error (.invalidInput (.notInteractive (backendName backend)))

/-- A pool with an oracle for each thread, one at least. -/
def pool (s : Settings) (host : Host m) : Except Failure (Pool m) := do
  let workers ← (List.range (max s.oracle.threads 1)).mapM fun _ => s.batchOracle host
  Pool.ofWorkers workers

/-- The solver of linear programs. -/
def lpSolver (s : Settings) (host : Host m) : LpSolver m :=
  match s.lp.solver with
  | .simplex => Simplex.solver
  | .octave => Octave.solver host s.lp.octavePath

/-- The generator of a seed, or of a fresh one where none is set. -/
def generator (fresh : UInt64) (seed : Option Nat) : ChaCha.Generator :=
  .ofSeed ((seed.map UInt64.ofNat).getD fresh)

end MarkovFit.Settings
