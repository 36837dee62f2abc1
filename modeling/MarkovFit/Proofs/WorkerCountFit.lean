import MarkovFit.Proofs.InfiniteAnswers
import MarkovFit.Proofs.WorkerCount

/-!
# Fits and the number of workers

A run of a scenario reads the answers of its pool by the numbers of the samples. For oracles that
answer by the constants of a request, what is read does not depend on which worker has answered and
which was done first. So neither do the linear program that is handed to the backend and the outcome.
Only the witnesses of the range may.
-/

namespace MarkovFit.Proofs

open Scenario (measurements)

variable {s : Scenario} {samples : List Sample} {answers answers' : Answers}

/-! ### Answers as they are read -/

theorem measurements_congr (h : ∀ i : Nat, answers[i]? = answers'[i]?) (xs : List (Sample × Nat)) :
    measurements answers xs = measurements answers' xs := by
  induction xs with
  | nil => rfl
  | cons x xs ih =>
    obtain ⟨sample, i⟩ := x
    rw [measurements, measurements, h, ih]

variable {μ : Type → Type} [Monad μ] {solver : LpSolver μ}

theorem evaluate_congr (h : ∀ i : Nat, answers[i]? = answers'[i]?) :
    s.evaluate solver samples answers = s.evaluate solver samples answers' := by
  rw [Scenario.evaluate, Scenario.evaluate, measurements_congr h]

/-! ### Programs that are handed over -/

/-- The backend, with the programs that are handed to it written down. -/
def handing (name : String)
    (backend : LinearProgram → Except Failure (Option (List Decimal))) :
    LpSolver (StateM (List LinearProgram)) where
  name := name
  solve program := fun handed => (backend program, handed ++ [program])

variable {name : String} {backend : LinearProgram → Except Failure (Option (List Decimal))}

/-- A fit hands over one program at most. -/
theorem length_handed_le (handed : List LinearProgram) :
    (s.evaluate (handing name backend) samples answers handed).2.length ≤ handed.length + 1 := by
  cases hdata : measurements answers samples.zipIdx with
  | error sample =>
    rw [evaluate_of_error hdata]
    exact Nat.le_succ _
  | ok data =>
    rw [evaluate_of_ok hdata, Scenario.approximate]
    cases s.model data with
    | error e => exact Nat.le_succ _
    | ok m =>
      change (handed ++ [m.program]).length ≤ _
      rw [List.length_append, List.length_singleton]

/-! ### Runs that can happen -/

/-- How a run goes on when its pool has ended. -/
def afterPool (s : Scenario) (solver : LpSolver μ) (samples : List Sample) :
    Except Failure PoolOutcome → μ (Except Failure ScenarioReport)
  | .error e => return .error e
  | .ok checked => do
    let outcome ← s.evaluate solver samples checked.answers
    return outcome.map fun outcome => ⟨outcome, checked.range, samples.length⟩

/-- A run can be this one: its pool ends in one of the ways in which it can. -/
def CanRun {γ : Type} [RandomSource γ] (s : Scenario) (pool : Pool Id) (solver : LpSolver μ)
    (source : γ) (run : μ (Except Failure ScenarioReport)) : Prop :=
  match s.samples source with
  | .error e => run = return .error e
  | .ok samples => ∃ result, CanEnd pool samples result ∧ run = afterPool s solver samples result

/-- The worker among other effects than its own. -/
def liftWorker (worker : BatchOracle Id) : BatchOracle μ where
  name := worker.name
  check requests := return worker.check requests

def liftPool (pool : Pool Id) : Pool μ where
  workers := pool.workers.map liftWorker
  workers_ne_nil := by simpa using pool.workers_ne_nil

theorem jobs_liftPool (pool : Pool Id) (samples : List Sample) :
    (liftPool pool : Pool μ).jobs samples =
      (pool.jobs samples).map fun job => (liftWorker job.1, job.2) := by
  have hsize : (liftPool pool : Pool μ).size = pool.size := List.length_map ..
  have hzip : (liftPool pool : Pool μ).workers.zip (Pool.buckets pool.size samples) =
      (pool.workers.zip (Pool.buckets pool.size samples)).map fun job =>
        (liftWorker job.1, job.2) := List.zip_map_left
  rw [Pool.jobs, Pool.jobs, hsize, hzip, List.filter_map]
  rfl

theorem run_liftPool [LawfulMonad μ] (pool : Pool Id) (samples : List Sample) :
    (liftPool pool : Pool μ).run samples = pure (pool.run samples : Except Failure PoolOutcome) := by
  have hrun : pool.run samples = Pool.gather samples.length (reports pool samples) :=
    congrArg (Pool.gather samples.length) List.mapM_pure
  have hreports : (pool.jobs samples).mapM (fun job => do
      return Pool.report job.2 (← (liftWorker job.1 : BatchOracle μ).check job.2)) =
        pure (reports pool samples) := by
    simp only [liftWorker, pure_bind]
    exact List.mapM_pure
  rw [Pool.run, jobs_liftPool, List.mapM_map, hrun]
  exact (congrArg (· >>= _) hreports).trans (pure_bind _ _)

/-- The run of a scenario is one of those that can be. -/
theorem canRun_run [LawfulMonad μ] {γ : Type} [RandomSource γ] (s : Scenario) (pool : Pool Id)
    (solver : LpSolver μ) (source : γ) :
    CanRun s pool solver source (s.run (liftPool pool) solver source) := by
  rw [CanRun]
  split
  · rename_i e hsamples
    rw [Scenario.run, hsamples]
  · rename_i samples hsamples
    refine ⟨pool.run samples, canEnd_run pool samples, ?_⟩
    rw [Scenario.run, hsamples]
    dsimp only
    rw [Scenario.fit, run_liftPool, pure_bind]
    cases (pool.run samples : Except Failure PoolOutcome) <;> rfl

/-! ### Outcomes -/

/-- The outcome of a run is that of the answers. -/
theorem map_outcome_afterPool [LawfulMonad μ] (checked : PoolOutcome) :
    Except.map ScenarioReport.outcome <$> afterPool s solver samples (.ok checked) =
      s.evaluate solver samples checked.answers := by
  have hid : ∀ outcome : Except Failure ScenarioOutcome, Except.map ScenarioReport.outcome
      (outcome.map fun outcome => ⟨outcome, checked.range, samples.length⟩) = outcome := by
    intro outcome
    cases outcome <;> rfl
  rw [afterPool, map_bind]
  simp only [map_pure, hid, bind_pure]

variable {γ : Type} [RandomSource γ] {source : γ} {f : List Constant → Answer}
  {pool pool' : Pool Id}

/-- Two runs with the same draws have the same outcome, and do the same on the way to it. -/
theorem map_outcome_eq [LawfulMonad μ] {run run' : μ (Except Failure ScenarioReport)}
    (hpool : ∀ worker ∈ pool.workers, AnswersBy f worker)
    (hpool' : ∀ worker ∈ pool'.workers, AnswersBy f worker)
    (hrun : CanRun s pool solver source run) (hrun' : CanRun s pool' solver source run') :
    Except.map ScenarioReport.outcome <$> run = Except.map ScenarioReport.outcome <$> run' := by
  rw [CanRun] at hrun hrun'
  cases hsamples : s.samples source with
  | error e =>
    rw [hsamples] at hrun hrun'
    rw [hrun, hrun']
  | ok samples =>
    rw [hsamples] at hrun hrun'
    obtain ⟨result, hresult, rfl⟩ := hrun
    obtain ⟨result', hresult', rfl⟩ := hrun'
    obtain ⟨checked, rfl, hanswers, -⟩ := exists_mergedEnds hpool hresult
    obtain ⟨checked', rfl, hanswers', -⟩ := exists_mergedEnds hpool' hresult'
    rw [map_outcome_afterPool, map_outcome_afterPool]
    exact evaluate_congr fun i => (hanswers i).trans (hanswers' i).symm

theorem length_handed_of_canRun {run : StateM (List LinearProgram) (Except Failure ScenarioReport)}
    (hrun : CanRun s pool (handing name backend) source run) : (run []).2.length ≤ 1 := by
  rw [CanRun] at hrun
  split at hrun
  · rw [hrun]
    exact Nat.zero_le 1
  · obtain ⟨result, -, rfl⟩ := hrun
    cases result with
    | error e => exact Nat.zero_le 1
    | ok checked => exact length_handed_le []

/-- The scenario with another number of threads set. -/
def withThreads (s : Scenario) (threads : Nat) : Scenario :=
  { s with settings := { s.settings with oracle := { s.settings.oracle with threads := threads } } }

/-- For every scenario with its draws, for oracles that answer by the constants of a request and for
a backend that answers by the program: two runs hand over the same program, or none, and have the
same outcome, whatever the numbers of workers and the orders in which these finish. -/
theorem worker_count_leaves_fit (s : Scenario) (source : γ) (f : List Constant → Answer)
    (name : String) (backend : LinearProgram → Except Failure (Option (List Decimal)))
    (pool pool' : Pool Id) (threads threads' : Nat)
    (hpool : ∀ worker ∈ pool.workers, AnswersBy f worker)
    (hpool' : ∀ worker ∈ pool'.workers, AnswersBy f worker)
    (run run' : StateM (List LinearProgram) (Except Failure ScenarioReport))
    (hrun : CanRun (withThreads s threads) pool (handing name backend) source run)
    (hrun' : CanRun (withThreads s threads') pool' (handing name backend) source run') :
    (run []).2 = (run' []).2 ∧ (run []).2.length ≤ 1 ∧
      (run []).1.map ScenarioReport.outcome = (run' []).1.map ScenarioReport.outcome := by
  -- The number of threads that is set is read by nothing in a run.
  have hsame : CanRun s pool (handing name backend) source run := hrun
  have hsame' : CanRun s pool' (handing name backend) source run' := hrun'
  have heq : ((run []).1.map ScenarioReport.outcome, (run []).2) =
      ((run' []).1.map ScenarioReport.outcome, (run' []).2) :=
    congrFun (map_outcome_eq hpool hpool' hsame hsame') []
  obtain ⟨houtcome, hhanded⟩ := Prod.mk.inj heq
  exact ⟨hhanded, length_handed_of_canRun hsame, houtcome⟩

/-- Zero where the parameter is zero, and one elsewhere. -/
def stepAnswer (constants : List Constant) : Answer :=
  .finite (if constants = [⟨"p", "0"⟩] then .zero else .one)

/-- The backend that returns one half for each unknown of a constant fit. -/
def halvesSolver : LpSolver (StateM (List LinearProgram)) :=
  handing "halves" (fixedSolver [half, half]).solve

/-- A worker alone, and two workers of which the second is done first. -/
theorem stepAnswer_fitted_alike : ∃ samples,
    constantScenario.samples zeroTape = .ok samples ∧
    let alone := (withThreads constantScenario 1).run (liftPool (poolOf stepAnswer 0)) halvesSolver
      zeroTape
    let divided := afterPool (withThreads constantScenario 2) halvesSolver samples
      (Pool.gather samples.length (reports (poolOf stepAnswer 1) samples).reverse)
    CanRun (withThreads constantScenario 1) (poolOf stepAnswer 0) halvesSolver zeroTape alone ∧
      CanRun (withThreads constantScenario 2) (poolOf stepAnswer 1) halvesSolver zeroTape divided ∧
      (alone []).2.length = 1 ∧ (alone []).2 = (divided []).2 ∧
      (alone []).1.map ScenarioReport.outcome = (divided []).1.map ScenarioReport.outcome := by
  obtain ⟨samples, hsamples⟩ := exists_eq_ok (x := constantScenario.samples zeroTape)
    (by decide +kernel)
  refine ⟨samples, hsamples, ?_⟩
  intro alone divided
  have halone : CanRun (withThreads constantScenario 1) (poolOf stepAnswer 0) halvesSolver zeroTape
      alone := canRun_run _ _ _ _
  have hdivided : CanRun (withThreads constantScenario 2) (poolOf stepAnswer 1) halvesSolver
      zeroTape divided := by
    have hends : ∃ result, CanEnd (poolOf stepAnswer 1) samples result ∧
        divided = afterPool (withThreads constantScenario 2) halvesSolver samples result :=
      ⟨_, ⟨_, List.reverse_perm _, rfl⟩, rfl⟩
    have hthreads : (withThreads constantScenario 2).samples zeroTape = .ok samples := hsamples
    rw [CanRun, hthreads]
    exact hends
  obtain ⟨hhanded, -, houtcome⟩ := worker_count_leaves_fit constantScenario zeroTape stepAnswer
    "halves" (fixedSolver [half, half]).solve (poolOf stepAnswer 0) (poolOf stepAnswer 1) 1 2
    (answersBy_poolOf _ 0) (answersBy_poolOf _ 1) alone divided halone hdivided
  exact ⟨halone, hdivided, by decide +kernel, hhanded, houtcome⟩

end MarkovFit.Proofs
