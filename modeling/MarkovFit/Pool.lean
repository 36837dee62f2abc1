import MarkovFit.Oracle.Basic
import MarkovFit.Range
import MarkovFit.Sample

/-!
# Pools of oracles

A pool divides samples among its workers: sample `i` goes to worker `i` modulo their number. Each
worker has an oracle of its own, and answers and ranges are merged when all workers are done.
-/

namespace MarkovFit

/-- Batch oracles that work side by side. -/
structure Pool (m : Type → Type) where
  workers : List (BatchOracle m)
  workers_ne_nil : workers ≠ []

/-- The answer to each sample by its index, and their range. -/
structure PoolOutcome where
  answers : Answers
  range : Option Range

/-- What one worker contributes. -/
structure Contribution where
  answers : Answers
  range : Option Range

namespace Pool

/-- The samples of a worker out of `count`, as requests. -/
def bucket (count worker : Nat) (samples : List Sample) : Requests :=
  Std.TreeMap.ofList <|
    samples.zipIdx.filterMap fun (sample, i) =>
      if i % count = worker then some (i, sample.toConstants) else none

/-- The requests for each of `count` workers. -/
def buckets (count : Nat) (samples : List Sample) : List Requests :=
  (List.range count).map fun worker => bucket count worker samples

/-- Widens a range, if there is one already. -/
def observe (range : Option Range) (value : Answer) (witness : List Constant) : Range :=
  match range with
  | some range => range.observe value witness
  | none => Range.single value witness

/-- The range of some answers, with the constants of their requests as witnesses. Every answer has
to belong to a request. -/
def observeAll (requests : Requests) :
    Option Range → List (Nat × Answer) → Except Failure (Option Range)
  | range, [] => .ok range
  | range, (id, value) :: rest =>
    match requests[id]? with
    | none => .error (.oracleProtocol (.unknownRequest id))
    | some witness => observeAll requests (some (observe range value witness)) rest

/-- The contribution of a worker that gave these answers to its requests. -/
def contribution (requests : Requests) (answers : Answers) : Except Failure Contribution := do
  let range ← observeAll requests none answers.toList
  return ⟨answers, range⟩

/-- A worker that stops at a fault is reported and does not stop the others. -/
def contain {α : Type} : Except Failure α → Except Failure α
  | .error (.fault _) => .error (.internal .workerCrashed)
  | outcome => outcome

/-- The report of a worker on its requests. -/
def report (requests : Requests) (outcome : Except Failure Answers) : Except Failure Contribution :=
  contain (outcome.bind (contribution requests))

/-- Merges the reports of all workers in the order in which they came in. The first failure counts. -/
def gather (samples : Nat) (reports : List (Except Failure Contribution)) :
    Except Failure PoolOutcome := do
  let contributions ← reports.mapM id
  let answers := contributions.foldl (fun all c => all.insertMany c.answers.toList) (∅ : Answers)
  if answers.size = samples then
    return ⟨answers, Range.mergeAll (contributions.filterMap (·.range))⟩
  else throw (.internal (.lostAnswers answers.size samples))

variable {m : Type → Type} [Monad m]

/-- A pool of at least one worker. -/
def ofWorkers (workers : List (BatchOracle m)) : Except Failure (Pool m) :=
  if h : workers = [] then .error (.invalidInput .noWorkers) else .ok ⟨workers, h⟩

/-- The number of workers. -/
def size (pool : Pool m) : Nat := pool.workers.length

/-- Workers that have something to do, with their requests. -/
def jobs (pool : Pool m) (samples : List Sample) : List (BatchOracle m × Requests) :=
  (pool.workers.zip (buckets pool.size samples)).filter fun (_, requests) => !requests.isEmpty

/-- Checks all samples. -/
def run (pool : Pool m) (samples : List Sample) : m (Except Failure PoolOutcome) := do
  let reports ← (pool.jobs samples).mapM fun (worker, requests) => do
    return report requests (← worker.check requests)
  return gather samples.length reports

end Pool
end MarkovFit
