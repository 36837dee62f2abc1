import MarkovFit.Oracle.Basic
import MarkovFit.Search.Candidate
import MarkovFit.Search.Outcome
import MarkovFit.Search.Stopping

/-!
# Adaptive Lipschitz search

The search queries an oracle one candidate at a time and keeps the best point. A candidate is
rejected when the Lipschitz envelope lies below the best value there. The Lipschitz constant is the
steepest slope seen so far, rounded up to a power of a base close to one. Nothing is promised about
points that were not queried. A search without an answer at some point ends there: infinity ends it
with that point, and a failure with the failure.
-/

namespace MarkovFit

/-- What a search looks for and how. -/
structure Search where
  parameters : List Parameter
  direction : Direction
  exploration : Float
  /-- The greatest number of candidates that are rejected for one query. -/
  exploitationLimit : Nat
  rule : StoppingRule

/-- What a search knows after its first query. -/
structure SearchState (γ : Type) where
  source : γ
  /-- All points with their values, the last one first. -/
  seen : List Search.Observation
  /-- The steepest slope. -/
  slope : Float
  /-- The Lipschitz constant. -/
  constant : Float
  best : Incumbent
  /-- The point that was best before `best`. -/
  second : Option Incumbent
  /-- The number of queries. -/
  queries : Nat

namespace Search

variable {γ : Type} [RandomSource γ]

/-- The search that settings ask for, over at least one parameter. -/
def make (parameters : List Parameter) (settings : SearchSettings) : Except Failure Search :=
  if parameters.isEmpty then .error (.invalidInput .noParameters)
  else .ok ⟨parameters, settings.direction, settings.exploration, settings.exploitationLimit,
    .ofSettings settings⟩

/-- The value of an answer in the sign that makes greater values better. -/
def worth (s : Search) (raw : Decimal) : Float :=
  match s.direction with
  | .max => raw.toFloat
  | .min => -raw.toFloat

/-- The candidate of a query as the best point. -/
def incumbent (s : Search) (c : Candidate) (raw : Decimal) (iteration : Nat) : Incumbent :=
  ⟨s.worth raw, raw, c.point, c.sample, iteration⟩

/-- The state after the first query. -/
def begin (s : Search) (c : Candidate) (raw : Decimal) (source : γ) : SearchState γ :=
  { source := source
    seen := [⟨c.point, s.worth raw⟩]
    slope := 0
    constant := 0
    best := s.incumbent c raw 0
    second := none
    queries := 1 }

/-- The candidate for the next query. -/
def next (s : Search) (state : SearchState γ) : Except Failure (Candidate × γ) :=
  propose s.parameters s.exploration s.exploitationLimit
    (fun c => envelope state.seen state.constant c.point < state.best.value) state.source

/-- The state after an answer. The best point changes only to a greater value. -/
def record (s : Search) (state : SearchState γ) (c : Candidate) (raw : Decimal) (source : γ) :
    SearchState γ :=
  let new : Observation := ⟨c.point, s.worth raw⟩
  let slope := steepest state.seen new state.slope
  let improved := state.best.value < new.value
  { source := source
    seen := new :: state.seen
    slope := slope
    constant := if slope > 0 then roundUp (slopeBase s.parameters.length) slope else state.constant
    best := if improved then s.incumbent c raw state.queries else state.best
    second := if improved then some state.best else state.second
    queries := state.queries + 1 }

/-- The outcome of a search that ends here. -/
def outcome (state : SearchState γ) : SearchOutcome :=
  .optimum state.best.raw state.best.sample.toConstants state.best.iteration state.queries

variable {m : Type → Type} [Monad m]

/-- Goes on for a number of queries at most. -/
def proceed (s : Search) (oracle : InteractiveOracle m) :
    Nat → SearchState γ → m (Except Failure SearchOutcome)
  | 0, state => return .ok (outcome state)
  | queries + 1, state =>
    if s.rule.canImprove state.queries state.best state.second then
      match s.next state with
      | .error e => return .error e
      | .ok (candidate, source) => do
        match ← oracle.check candidate.sample.toConstants with
        | .error e => return .error e
        | .ok .infinite => return .ok (.infinite candidate.sample.toConstants)
        | .ok (.finite raw) => s.proceed oracle queries (s.record state candidate raw source)
    else return .ok (outcome state)

/-- Searches with an oracle that is started. There is always a first query. -/
def run (s : Search) (oracle : InteractiveOracle m) (source : γ) :
    m (Except Failure SearchOutcome) :=
  match drawCandidate s.parameters source with
  | .error e => return .error e
  | .ok (candidate, source) => do
    match ← oracle.check candidate.sample.toConstants with
    | .error e => return .error e
    | .ok .infinite => return .ok (.infinite candidate.sample.toConstants)
    | .ok (.finite raw) =>
      s.proceed oracle (s.rule.iterationLimit - 1) (s.begin candidate raw source)

end Search
end MarkovFit
