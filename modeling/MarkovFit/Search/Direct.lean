import MarkovFit.Search.Adaptive

/-!
# Direct optimization

A run starts the oracle, searches, and stops the oracle, also when the search fails. Of two failures
the one of the search is reported.
-/

namespace MarkovFit.Search

variable {m : Type → Type} [Monad m] {γ : Type} [RandomSource γ]

/-- The failure of the search, or else that of the stop. -/
def conclude (searched : Except Failure SearchOutcome) (stopped : Except Failure Unit) :
    Except Failure SearchOutcome := do
  let outcome ← searched
  stopped
  return outcome

/-- Starts the oracle, searches and stops the oracle. -/
def bracket (s : Search) (oracle : InteractiveOracle m) (source : γ) :
    m (Except Failure SearchOutcome) := do
  match ← oracle.start with
  | .error e => return .error e
  | .ok () =>
    let searched ← s.run oracle source
    let stopped ← oracle.stop
    return conclude searched stopped

end Search

namespace Settings

variable {m : Type → Type} [Monad m]

/-- The search over the parameters of some settings. -/
def makeSearch (s : Settings) : Except Failure Search := do
  let parameters ← s.parameterSpace
  Search.make parameters s.search

/-- Searches the optimum with an oracle, with the draws of a source. -/
def optimizeWith {γ : Type} [RandomSource γ] (s : Settings) (oracle : InteractiveOracle m)
    (source : γ) : m (Except Failure SearchReport) := do
  match s.makeSearch with
  | .error e => return .error e
  | .ok search =>
    let outcome ← search.bracket oracle source
    return outcome.map fun outcome => ⟨s.search.direction, outcome⟩

end Settings
end MarkovFit
