import MarkovFit.Proofs.FitDeviation
import MarkovFit.Proofs.PoolCompletion
import MarkovFit.Proofs.ResultRoundTrip
import MarkovFit.Proofs.ScenarioRun

/-!
# Infinite answers

One infinite answer voids a fit. The scan for values stops at the first sample without a finite one;
since a completed run of the pool has an answer to every sample, that is the first sample with an
infinite answer. The scan comes before the linear program, so that neither the template nor the
solver has a part in the outcome.
-/

namespace MarkovFit.Proofs

open Scenario (Measurement measurements)

variable {answers : Answers} {samples : List Sample}

/-- The first sample, in the order of drawing, whose answer is infinite. -/
structure FirstInfinite (answers : Answers) (i : Nat) : Prop where
  infinite : answers[i]? = some .infinite
  before : ∀ j < i, answers[j]? ≠ some .infinite

lemma exists_firstInfinite (h : ∃ i : Nat, answers[i]? = some .infinite) :
    ∃ i, FirstInfinite answers i :=
  ⟨Nat.find h, Nat.find_spec h, fun _ hj => Nat.find_min h hj⟩

/-! ## The scan for values -/

/-- An answer that is there and not infinite is finite. -/
lemma exists_finite {i : Nat} (hi : i ∈ answers) (hne : answers[i]? ≠ some .infinite) :
    ∃ value, answers[i]? = some (.finite value) := by
  obtain ⟨v, hv⟩ := mem_iff_exists_getElem?.1 hi
  cases v with
  | finite value => exact ⟨value, hv⟩
  | infinite => exact absurd hv hne

/-- The scan stops at a sample that has an infinite answer and only finite ones before it. -/
theorem measurements_zipIdx_eq_error {k i : Nat} {sample : Sample} (hsample : samples[i]? = some sample)
    (hinfinite : answers[k + i]? = some .infinite)
    (hbefore : ∀ j < i, ∃ value, answers[k + j]? = some (.finite value)) :
    measurements answers (samples.zipIdx k) = .error sample := by
  induction samples generalizing k i with
  | nil => cases hsample
  | cons first rest ih =>
    rw [List.zipIdx_cons, measurements]
    cases i with
    | zero =>
      obtain rfl := Option.some.inj hsample
      rw [Nat.add_zero] at hinfinite
      rw [hinfinite]
    | succ i =>
      obtain ⟨value, hvalue⟩ := hbefore 0 i.succ_pos
      rw [Nat.add_zero] at hvalue
      have hrest : measurements answers (rest.zipIdx (k + 1)) = .error sample := by
        refine ih hsample (by rwa [Nat.add_right_comm]) fun j hj => ?_
        obtain ⟨value, hvalue⟩ := hbefore (j + 1) (Nat.succ_lt_succ hj)
        exact ⟨value, by rwa [Nat.add_right_comm]⟩
      rw [hvalue, hrest]
      rfl

/-- The scan gets through where every answer is finite. -/
theorem exists_measurements_of_finite {xs : List (Sample × Nat)}
    (h : ∀ x ∈ xs, ∃ value, answers[x.2]? = some (.finite value)) :
    ∃ data, measurements answers xs = .ok data := by
  induction xs with
  | nil => exact ⟨[], rfl⟩
  | cons x xs ih =>
    obtain ⟨sample, i⟩ := x
    obtain ⟨value, hvalue⟩ := h _ List.mem_cons_self
    obtain ⟨data, hdata⟩ := ih fun x hx => h x (List.mem_cons_of_mem _ hx)
    refine ⟨(sample, value) :: data, ?_⟩
    rw [measurements, hvalue, hdata]
    rfl

/-- The measurements are those of all samples, in order. -/
lemma map_fst_measurements {data : List Measurement}
    (h : measurements answers samples.zipIdx = .ok data) : data.map Prod.fst = samples := by
  have hsamples : samples = samples.zipIdx.map Prod.fst := (List.zipIdx_map_fst 0 samples).symm
  conv_rhs => rw [hsamples]
  rw [← List.forall₂_eq_eq_eq, List.forall₂_map_left_iff, List.forall₂_map_right_iff]
  exact (measurements_eq_ok h).flip.imp fun _ _ hx => hx.1

lemma getElem?_measurements {data : List Measurement}
    (h : measurements answers samples.zipIdx = .ok data) {i : Nat} {x : Measurement}
    (hx : data[i]? = some x) : answers[i]? = some (.finite x.2) := by
  obtain ⟨hlength, hall⟩ := List.forall₂_iff_get.1 (measurements_eq_ok h)
  obtain ⟨hi, rfl⟩ := List.getElem?_eq_some_iff.1 hx
  simpa using (hall i (hlength ▸ hi) hi).2

/-! ## Completed runs of a pool -/

/-- Every sample has an answer, nothing else has one, and the range spans the answers. -/
structure Complete (samples : List Sample) (checked : PoolOutcome) : Prop where
  keys : ∀ i, i ∈ checked.answers ↔ i < samples.length
  spans : SpansIfAny checked.range fun v witness => ∃ (i : Nat) (sample : Sample),
    samples[i]? = some sample ∧ checked.answers[i]? = some v ∧ witness = sample.toConstants

theorem complete_of_canEnd {pool : Pool Id} {checked : PoolOutcome}
    (h : CanEnd pool samples (.ok checked)) : Complete samples checked := by
  obtain ⟨order, horder, hgather⟩ := h
  obtain ⟨cs, rfl, hsize, rfl⟩ := gather_eq_ok.1 hgather.symm
  have hall := allContributions_of_perm horder
  exact ⟨fun i => ⟨hall.lt_length, (size_eq_iff fun i => hall.lt_length).1 hsize i⟩, hall.spans⟩

lemma upper_eq_infinite {r : Range} {P : Answer → List Constant → Prop} (hspans : Spans r P)
    {witness : List Constant} (h : P .infinite witness) : r.upper.value = .infinite := by
  have hle := hspans.le_upper _ _ h
  cases hupper : r.upper.value with
  | finite value =>
    rw [hupper] at hle
    exact absurd hle (not_le.2 (WithTop.coe_lt_top _))
  | infinite => rfl

namespace Complete

variable {checked : PoolOutcome} {i : Nat}

theorem exists_sample (h : Complete samples checked) (hfirst : FirstInfinite checked.answers i) :
    ∃ sample, samples[i]? = some sample := by
  have hi := (h.keys i).1 (mem_iff_exists_getElem?.2 ⟨_, hfirst.infinite⟩)
  exact ⟨samples[i], List.getElem?_eq_getElem hi⟩

/-- With an infinite answer the range goes up to infinity. -/
theorem exists_range (h : Complete samples checked) (hfirst : FirstInfinite checked.answers i) :
    ∃ r, checked.range = some r ∧ r.upper.value = .infinite := by
  obtain ⟨sample, hsample⟩ := h.exists_sample hfirst
  have hobserved : ∃ (j : Nat) (other : Sample), samples[j]? = some other ∧
      checked.answers[j]? = some .infinite ∧ sample.toConstants = other.toConstants :=
    ⟨i, sample, hsample, hfirst.infinite, rfl⟩
  have hspans := h.spans
  cases hrange : checked.range with
  | none =>
    rw [hrange] at hspans
    exact absurd hobserved (hspans _ _)
  | some r =>
    rw [hrange] at hspans
    exact ⟨r, rfl, upper_eq_infinite hspans hobserved⟩

theorem measurements_eq_error (h : Complete samples checked) (hfirst : FirstInfinite checked.answers i)
    {sample : Sample} (hsample : samples[i]? = some sample) :
    measurements checked.answers samples.zipIdx = .error sample := by
  have hi : i < samples.length := (List.getElem?_eq_some_iff.1 hsample).1
  refine measurements_zipIdx_eq_error hsample (by rw [Nat.zero_add, hfirst.infinite]) fun j hj => ?_
  rw [Nat.zero_add]
  exact exists_finite ((h.keys j).2 (hj.trans hi)) (hfirst.before j hj)

theorem exists_measurements (h : Complete samples checked)
    (hnone : ¬∃ i : Nat, checked.answers[i]? = some .infinite) :
    ∃ data, measurements checked.answers samples.zipIdx = .ok data := by
  refine exists_measurements_of_finite ?_
  rintro ⟨sample, i⟩ hmem
  have hsample := List.mem_zipIdx_iff_getElem?.1 hmem
  have hi := (h.keys i).2 (List.getElem?_eq_some_iff.1 hsample).1
  exact exists_finite hi fun hinfinite => hnone ⟨i, hinfinite⟩

end Complete

/-! ## The outcome -/

/-- The constants have the names of the coordinates of a sample, and their texts are read as the values. -/
def NamesPoint (constants : List Constant) (sample : Sample) : Prop :=
  List.Forall₂ (fun c x => c.name = x.1 ∧ ∃ v, readDecimal c.value = .ok v ∧ v.SameValue x.2)
    constants sample.values

theorem namesPoint_toConstants (sample : Sample) : NamesPoint sample.toConstants sample := by
  rw [NamesPoint, Sample.toConstants, List.forall₂_map_left_iff, List.forall₂_same]
  intro x _
  exact ⟨rfl, _, readDecimal_shortText x.2, (sameValue_iff_toRat_eq _ _).2 (toRat_normalize x.2)⟩

section outcome

variable {μ : Type → Type} [Monad μ]

/-- Once the scan has stopped, the outcome does not depend on template and solver. -/
theorem evaluate_of_error {sample : Sample} (h : measurements answers samples.zipIdx = .error sample)
    (s : Scenario) (solver : LpSolver μ) :
    s.evaluate solver samples answers = pure (.ok (.notComputed sample.toConstants)) := by
  unfold Scenario.evaluate
  rw [h]

theorem evaluate_of_ok {data : List Measurement} (h : measurements answers samples.zipIdx = .ok data)
    (s : Scenario) (solver : LpSolver μ) :
    s.evaluate solver samples answers = s.approximate solver data := by
  unfold Scenario.evaluate
  rw [h]

end outcome

/-- A fit that gets to its linear program computes something or fails. -/
theorem approximate_ne_notComputed {s : Scenario} {solver : LpSolver Id} {data : List Measurement}
    {sample : List Constant} : s.approximate solver data ≠ .ok (.notComputed sample) := by
  intro h
  unfold Scenario.approximate at h
  cases hmodel : s.model data with
  | error e =>
    rw [hmodel] at h
    cases h
  | ok m =>
    rw [hmodel] at h
    obtain ⟨solution, -, h⟩ := bind_eq_ok.1 h
    cases solution with
    | none => cases h
    | some solution =>
      obtain ⟨_, -, h⟩ := bind_eq_ok.1 h
      cases h

/-- What a scenario reports once its pool has ended with these answers. -/
def reportOn (s : Scenario) (solver : LpSolver Id) (samples : List Sample) (checked : PoolOutcome) :
    Except Failure ScenarioReport :=
  (s.evaluate solver samples checked.answers).map fun outcome =>
    ⟨outcome, checked.range, samples.length⟩

lemma run_eq_reportOn {γ : Type} [RandomSource γ] {s : Scenario} {pool : Pool Id}
    {solver : LpSolver Id} {source : γ} {checked : PoolOutcome}
    (hsamples : s.samples source = .ok samples) (hchecked : pool.run samples = .ok checked) :
    s.run pool solver source = reportOn s solver samples checked := by
  unfold Scenario.run
  rw [hsamples]
  change s.fit pool solver samples = _
  unfold Scenario.fit
  rw [hchecked]
  rfl

/-- A report without a computed fit is one on an infinite answer. -/
theorem Complete.exists_infinite {checked : PoolOutcome} (h : Complete samples checked) {s : Scenario}
    {solver : LpSolver Id} {report : ScenarioReport} {sample : List Constant}
    (hreport : reportOn s solver samples checked = .ok report)
    (houtcome : report.outcome = .notComputed sample) :
    ∃ i : Nat, checked.answers[i]? = some .infinite := by
  by_contra hnone
  obtain ⟨data, hdata⟩ := h.exists_measurements hnone
  obtain ⟨outcome, hevaluate, rfl⟩ := map_eq_ok.1 hreport
  obtain rfl : outcome = .notComputed sample := houtcome
  rw [evaluate_of_ok hdata] at hevaluate
  exact approximate_ne_notComputed hevaluate

lemma reportOn_of_error {checked : PoolOutcome} {sample : Sample}
    (h : measurements checked.answers samples.zipIdx = .error sample) (s : Scenario)
    (solver : LpSolver Id) : reportOn s solver samples checked =
      .ok ⟨.notComputed sample.toConstants, checked.range, samples.length⟩ := by
  have hevaluate : s.evaluate solver samples checked.answers =
      .ok (.notComputed sample.toConstants) := evaluate_of_error h s solver
  rw [reportOn, hevaluate]
  rfl

/-- However the run of a pool came to its end: the fit is not computed exactly if some answer is
infinite. Then it names the first sample with an infinite answer, by its parameters and their values, the
range goes up to infinity, and neither template nor solver has been asked for anything. Otherwise the
linear program is made from a finite value for every sample. -/
theorem notComputed_iff_infinite_answer {γ : Type} [RandomSource γ] (s : Scenario) (pool : Pool Id)
    (source : γ) (samples : List Sample) (hsamples : s.samples source = .ok samples)
    (checked : PoolOutcome) (hchecked : CanEnd pool samples (.ok checked)) :
    (∀ solver, pool.run samples = .ok checked →
      s.run pool solver source = reportOn s solver samples checked) ∧
    (∀ solver, (∃ report sample, reportOn s solver samples checked = .ok report ∧
        report.outcome = .notComputed sample) ↔
      ∃ i : Nat, checked.answers[i]? = some .infinite) ∧
    (∀ i, FirstInfinite checked.answers i → ∃ sample r, samples[i]? = some sample ∧
      NamesPoint sample.toConstants sample ∧
      (∀ solver, reportOn s solver samples checked =
        .ok ⟨.notComputed sample.toConstants, some r, samples.length⟩) ∧
      r.upper.value = .infinite ∧
      ∀ (μ : Type → Type) [Monad μ] (template : Template) (solver : LpSolver μ),
        Scenario.evaluate { s with template := template } solver samples checked.answers =
          pure (.ok (.notComputed sample.toConstants))) ∧
    ((¬∃ i : Nat, checked.answers[i]? = some .infinite) → ∃ data : List Measurement,
      data.map Prod.fst = samples ∧
      (∀ (i : Nat) (x : Measurement), data[i]? = some x →
        checked.answers[i]? = some (.finite x.2)) ∧
      ∀ (μ : Type → Type) [Monad μ] (solver : LpSolver μ),
        s.evaluate solver samples checked.answers = s.approximate solver data) := by
  have hcomplete := complete_of_canEnd hchecked
  refine ⟨fun solver hrun => run_eq_reportOn hsamples hrun, fun solver => ⟨?_, ?_⟩, ?_, ?_⟩
  · rintro ⟨report, sample, hreport, houtcome⟩
    exact hcomplete.exists_infinite hreport houtcome
  · intro hinfinite
    obtain ⟨i, hfirst⟩ := exists_firstInfinite hinfinite
    obtain ⟨sample, hsample⟩ := hcomplete.exists_sample hfirst
    have herror := hcomplete.measurements_eq_error hfirst hsample
    exact ⟨_, _, reportOn_of_error herror s solver, rfl⟩
  · intro i hfirst
    obtain ⟨sample, hsample⟩ := hcomplete.exists_sample hfirst
    obtain ⟨r, hrange, hupper⟩ := hcomplete.exists_range hfirst
    have herror := hcomplete.measurements_eq_error hfirst hsample
    refine ⟨sample, r, hsample, namesPoint_toConstants sample, fun solver => ?_, hupper, ?_⟩
    · rw [← hrange]
      exact reportOn_of_error herror s solver
    · exact fun μ _ template solver => evaluate_of_error herror { s with template := template } solver
  · intro hnone
    obtain ⟨data, hdata⟩ := hcomplete.exists_measurements hnone
    refine ⟨data, map_fst_measurements hdata, fun i x hx => ?_,
      fun μ _ solver => evaluate_of_ok hdata s solver⟩
    exact getElem?_measurements hdata hx

/-- Of two samples the second has an infinite answer. -/
theorem constantScenario_notComputed : ∃ samples checked sample r,
    constantScenario.samples zeroTape = .ok samples ∧
      CanEnd twoWorkers samples (.ok checked) ∧ FirstInfinite checked.answers 1 ∧
      samples[1]? = some sample ∧ NamesPoint sample.toConstants sample ∧ r.upper.value = .infinite ∧
      ∀ solver, constantScenario.run twoWorkers solver zeroTape =
        .ok ⟨.notComputed sample.toConstants, some r, samples.length⟩ := by
  have hends : ∃ samples ∈ (constantScenario.samples zeroTape).toOption,
      ∃ checked ∈ (twoWorkers.run samples : Except Failure PoolOutcome).toOption,
        checked.answers[1]? = some .infinite ∧ ∀ j < 1, checked.answers[j]? ≠ some .infinite := by
    decide +kernel
  obtain ⟨samples, hsamples, checked, hchecked, hinfinite, hbefore⟩ := hends
  rw [Option.mem_def, toOption_eq_some] at hsamples hchecked
  have hcanEnd : CanEnd twoWorkers samples (.ok checked) := hchecked ▸ canEnd_run twoWorkers samples
  have hfirst : FirstInfinite checked.answers 1 := ⟨hinfinite, hbefore⟩
  obtain ⟨hrun, -, hat, -⟩ := notComputed_iff_infinite_answer constantScenario twoWorkers zeroTape
    samples hsamples checked hcanEnd
  obtain ⟨sample, r, hsample, hnames, hreport, hupper, -⟩ := hat 1 hfirst
  exact ⟨samples, checked, sample, r, hsamples, hcanEnd, hfirst, hsample, hnames, hupper, fun solver =>
    (hrun solver hchecked).trans (hreport solver)⟩

end MarkovFit.Proofs
