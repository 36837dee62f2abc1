import MarkovFit.Proofs.MinimaxProgram
import MarkovFit.Proofs.ScenarioRun

/-!
# The deviation of a reported fit

A solver may return any assignment that satisfies the program it was handed. The reported
function then deviates from every answer by at most the reported `lambda`, apart from what was
lost when small values were snapped to zero. Without such values the bound is `lambda` itself; with
them it can be exceeded.
-/

namespace MarkovFit.Proofs

open Scenario (Measurement measurements)

/-- The solver returns only assignments that satisfy the program it was handed, whatever that is. -/
def Sound (solver : LpSolver Id) : Prop :=
  ∀ p values, solver.solve p = .ok (some values) → values.length = p.unknowns.length →
    Feasible p (values.map Decimal.toRat)

/-- The exact value of a reported function where the terms have these values. -/
def reportedValue (t : Template) (coefficients terms : Valuation) : ℚ :=
  (t.coefficients.map fun name => valueOf coefficients name * valueOf terms name).sum

/-- What a reported value may have lost when it was snapped: the precision at most, and nothing
unless it is zero. -/
def slack (precision reported : ℚ) : ℚ := if reported = 0 then max precision 0 else 0

/-- What all snapped values together may add to the deviation where the terms have these values. -/
def drift (t : Template) (precision : ℚ) (lambda : Decimal) (coefficients terms : Valuation) : ℚ :=
  slack precision lambda.toRat +
    (t.coefficients.map fun name =>
      slack precision (valueOf coefficients name) * |valueOf terms name|).sum

lemma slack_nonneg (precision reported : ℚ) : 0 ≤ slack precision reported := by
  unfold slack
  split
  · exact le_max_right _ _
  · exact le_refl _

/-- Snapping moves a value by the slack at most. -/
theorem abs_sub_snap_le (value precision : Decimal) :
    |value.toRat - (value.snap precision).toRat| ≤
      slack precision.toRat (value.snap precision).toRat := by
  by_cases h : |value.toRat| ≤ precision.toRat
  · rw [snap_eq_zero h, toRat_zero, sub_zero, slack, if_pos rfl]
    exact h.trans (le_max_left _ _)
  · rw [snap_eq_self (not_le.1 h), sub_self, abs_zero]
    exact slack_nonneg _ _

/-- Snapping keeps a zero and what exceeds the precision. -/
theorem toRat_snap_of_kept {value precision : Decimal}
    (h : value.toRat = 0 ∨ precision.toRat < |value.toRat|) :
    (value.snap precision).toRat = value.toRat := by
  rcases h with h | h
  · by_cases hsnap : |value.toRat| ≤ precision.toRat
    · rw [snap_eq_zero hsnap, toRat_zero, h]
    · rw [snap_eq_self (not_le.1 hsnap)]
  · rw [snap_eq_self h]

lemma combination_map (t : Template) (coefficients terms : Valuation) :
    combination t.coefficients (t.coefficients.map (valueOf coefficients)) terms =
      reportedValue t coefficients terms := by
  rw [combination, reportedValue, List.zipWith_map_right, List.zipWith_self]

/-- Moving the coefficients moves the value by the weighted sum of the moves at most. -/
theorem combination_sub_le {names : List String} {a : List ℚ} {f move : String → ℚ}
    (terms : Valuation) (h : List.Forall₂ (fun name x => |x - f name| ≤ move name) names a) :
    |combination names a terms - combination names (names.map f) terms| ≤
      (names.map fun name => move name * |valueOf terms name|).sum := by
  induction h with
  | nil => simp [combination]
  | @cons name x names a hx _ ih =>
    have hfirst : |(x - f name) * valueOf terms name| ≤ move name * |valueOf terms name| := by
      rw [abs_mul]
      exact mul_le_mul_of_nonneg_right hx (abs_nonneg _)
    have hsplit : combination (name :: names) (x :: a) terms -
          combination (name :: names) ((name :: names).map f) terms =
        (x - f name) * valueOf terms name +
          (combination names a terms - combination names (names.map f) terms) := by
      simp only [combination, List.map_cons, List.zipWith_cons_cons, List.sum_cons]
      ring
    rw [hsplit, List.map_cons, List.sum_cons]
    exact (abs_add_le _ _).trans (add_le_add hfirst ih)

/-- A margin survives moving `lambda` and the coefficients, up to the moves. -/
theorem reportedValue_sub_le {t : Template} {a : List ℚ} {coefficients terms : Valuation}
    {y first lambda moved : ℚ} {move : String → ℚ}
    (hmargin : |combination t.coefficients a terms - y| ≤ first) (hfirst : first ≤ lambda + moved)
    (h : List.Forall₂ (fun name x => |x - valueOf coefficients name| ≤ move name) t.coefficients a) :
    |reportedValue t coefficients terms - y| ≤
      lambda + (moved + (t.coefficients.map fun name => move name * |valueOf terms name|).sum) := by
  have hmove := combination_sub_le terms h
  rw [combination_map, abs_sub_comm] at hmove
  calc |reportedValue t coefficients terms - y|
      ≤ |reportedValue t coefficients terms - combination t.coefficients a terms| +
          |combination t.coefficients a terms - y| := abs_sub_le _ _ _
    _ ≤ (t.coefficients.map fun name => move name * |valueOf terms name|).sum + (lambda + moved) :=
        add_le_add hmove (hmargin.trans hfirst)
    _ = _ := by ring

/-- Of every run that ends with a fit: at each sample the function deviates from the answer by at
most `lambda` and the drift of the snapped values, and by at most `lambda` if the solver returned
no value that had to be snapped. -/
theorem run_deviation_le {γ : Type} [RandomSource γ] (s : Scenario) (pool : Pool Id)
    (solver : LpSolver Id) (hsolver : Sound solver) (source : γ) (report : ScenarioReport)
    (hrun : s.run pool solver source = .ok report) (lambda : Decimal) (expression : String)
    (coefficients : Valuation)
    (houtcome : report.outcome = .approximated lambda expression coefficients) :
    ∃ (samples : List Sample) (checked : PoolOutcome) (data : List Measurement) (m : Model)
      (values : List Decimal), s.samples source = .ok samples ∧ pool.run samples = .ok checked ∧
      measurements checked.answers samples.zipIdx = .ok data ∧ s.model data = .ok m ∧
      solver.solve m.program = .ok (some values) ∧
      ∀ (i : Nat) (sample : Sample), samples[i]? = some sample →
        ∃ (y : Decimal) (terms : Valuation),
          checked.answers[i]? = some (.finite y) ∧ s.template.evaluate sample = .ok terms ∧
          (∀ name ∈ s.template.coefficients, name ∈ coefficients ∧ name ∈ terms) ∧
          |reportedValue s.template coefficients terms - y.toRat| ≤
            lambda.toRat +
              drift s.template s.settings.lp.precision.toRat lambda coefficients terms ∧
          ((∀ v ∈ values, v.toRat = 0 ∨ s.settings.lp.precision.toRat < |v.toRat|) →
            |reportedValue s.template coefficients terms - y.toRat| ≤ lambda.toRat) := by
  obtain ⟨samples, checked, hsamples, hchecked, hevaluate, -, -⟩ := run_eq_ok hrun
  rw [houtcome] at hevaluate
  obtain ⟨data, hdata, happroximate⟩ := evaluate_eq_approximated hevaluate
  obtain ⟨m, values, solution, hm, hvalues, hsolution, rfl, rfl⟩ :=
    approximate_eq_approximated happroximate
  obtain ⟨hprogram, hprecision⟩ := minimaxProgram_of_model hm
  obtain ⟨first, rest, rfl, hlambda, hrest⟩ :=
    report_of_solution hprogram.unknowns_eq hprogram.nodup hsolution
  rw [hprecision] at hlambda hrest
  have hlength : (first :: rest).length = m.program.unknowns.length := by
    rw [hprogram.unknowns_eq, List.length_cons, List.length_cons, hrest.length_eq]
  have hmargins := (hprogram.rows.hold_iff first.toRat (rest.map Decimal.toRat)).1
    (hsolver _ _ hvalues hlength).2
  refine ⟨samples, checked, data, m, first :: rest, hsamples, hchecked, hdata, hm, hvalues, ?_⟩
  intro i sample hsample
  obtain ⟨y, hx, hanswer⟩ := exists_measurement hdata hsample
  obtain ⟨terms, hterms, hmargin⟩ := hmargins _ hx
  refine ⟨y, terms, hanswer, hterms, ?_, ?_, ?_⟩
  · intro name hname
    obtain ⟨value, -, hvalue⟩ := exists_mem_of_forall₂ hrest hname
    refine ⟨mem_iff_exists_getElem?.2 ⟨_, hvalue⟩, ?_⟩
    exact (mem_evaluate_iff hterms name).2 hname
  · refine reportedValue_sub_le hmargin ?_ (List.forall₂_map_right_iff.2 (hrest.imp ?_))
    · have hle := (abs_le.1 (abs_sub_snap_le first s.settings.lp.precision)).2
      rw [hlambda]
      linarith
    · intro name value hvalue
      rw [valueOf_eq hvalue]
      exact abs_sub_snap_le _ _
  · intro hkept
    have hexact : List.Forall₂ (fun name x => |x - valueOf solution.coefficients name| ≤ 0)
        s.template.coefficients (rest.map Decimal.toRat) := by
      rw [List.forall₂_map_right_iff]
      rw [List.forall₂_iff_zip] at hrest ⊢
      refine ⟨hrest.1, fun {name value} hmem => ?_⟩
      have hvalue := hkept value (List.mem_cons_of_mem _ (List.of_mem_zip hmem).2)
      rw [valueOf_eq (hrest.2 hmem), toRat_snap_of_kept hvalue, sub_self, abs_zero]
    have hfirst : first.toRat ≤ solution.lambda.toRat + 0 := by
      rw [hlambda, toRat_snap_of_kept (hkept first List.mem_cons_self), add_zero]
    simpa using reportedValue_sub_le hmargin hfirst hexact

/-- The solver that returns these values if they satisfy the program, and nothing otherwise. -/
def fixedSolver (values : List Decimal) : LpSolver Id where
  name := "fixed"
  solve p := .ok <| if Feasible p (values.map Decimal.toRat) then some values else none

theorem sound_fixedSolver (values : List Decimal) : Sound (fixedSolver values) := by
  intro p found hfound _
  change Except.ok (if Feasible p (values.map Decimal.toRat) then some values else none) = _
    at hfound
  by_cases h : Feasible p (values.map Decimal.toRat)
  · rw [if_pos h] at hfound
    cases hfound
    exact h
  · rw [if_neg h] at hfound
    cases hfound

/-- Constants over a parameter in the unit interval, sampled at its two ends. -/
def constantScenario : Scenario where
  settings := {}
  parameters := [⟨"p", Decimal.zero, Decimal.one, by decide +kernel, by decide +kernel⟩]
  template := .polynomial { registry := oneVariable, maxDegree := 0 }
  plan := ⟨2, 2, 0⟩

/-- One worker, with the same answer to all requests. -/
def constantPool (answer : Decimal) : Pool Id where
  workers := [⟨"constant", fun requests => .ok (requests.map fun _ _ => .finite answer)⟩]
  workers_ne_nil := by simp

def half : Decimal := ⟨false, 5, 1, by decide, by decide⟩

/-- `lambda` and a constant, both half the precision above the optimum. -/
def noisyValues : List Decimal :=
  [⟨false, 5, 10, by decide, by decide⟩, ⟨false, 5000000005, 10, by decide, by decide⟩]

def zeroTape : Tape := { word := fun _ => 0 }

/-- The run in which the solver returns the noisy values. -/
def noisyRun : Except Failure ScenarioReport :=
  constantScenario.run (constantPool half) (fixedSolver noisyValues) zeroTape

/-- The fit of an outcome. -/
def fitted? : ScenarioOutcome → Option (Decimal × String × Valuation)
  | .approximated lambda expression coefficients => some (lambda, expression, coefficients)
  | .notComputed _ => none
  | .failed _ => none

lemma fitted?_eq_some {outcome : ScenarioOutcome} {lambda : Decimal} {expression : String}
    {coefficients : Valuation} (h : fitted? outcome = some (lambda, expression, coefficients)) :
    outcome = .approximated lambda expression coefficients := by
  cases outcome <;> cases h
  rfl

theorem noisyRun_deviation_le : ∃ report expression coefficients samples checked,
    noisyRun = .ok report ∧
      report.outcome = .approximated Decimal.zero expression coefficients ∧
      constantScenario.samples zeroTape = .ok samples ∧
      (constantPool half).run samples = .ok checked ∧
      ∀ (i : Nat) (sample : Sample), samples[i]? = some sample → ∃ (y : Decimal) (terms : Valuation),
        checked.answers[i]? = some (.finite y) ∧
          constantScenario.template.evaluate sample = .ok terms ∧
          |reportedValue constantScenario.template coefficients terms - y.toRat| ≤
            Decimal.zero.toRat +
              drift constantScenario.template defaultPrecision.toRat Decimal.zero coefficients
                terms := by
  have hrun : ∃ report ∈ noisyRun.toOption, ∃ fit ∈ fitted? report.outcome, fit.1 = Decimal.zero := by
    decide +kernel
  obtain ⟨report, hreport, ⟨_, expression, coefficients⟩, hfit, rfl⟩ := hrun
  have hrun := toOption_eq_some.1 hreport
  have houtcome := fitted?_eq_some hfit
  obtain ⟨samples, checked, data, m, values, hsamples, hchecked, -, -, -, h⟩ :=
    run_deviation_le constantScenario (constantPool half) (fixedSolver noisyValues)
      (sound_fixedSolver noisyValues) zeroTape report hrun _ _ _ houtcome
  refine ⟨report, expression, coefficients, samples, checked, hrun, houtcome, hsamples, hchecked, ?_⟩
  intro i sample hsample
  obtain ⟨y, terms, hy, hterms, -, hle, -⟩ := h i sample hsample
  exact ⟨y, terms, hy, hterms, hle⟩

/-- The function of the run deviates from an answer by more than the reported `lambda`. -/
theorem noisyRun_exceeds_lambda : Sound (fixedSolver noisyValues) ∧
    ∃ report expression coefficients samples checked sample terms,
      noisyRun = .ok report ∧
        report.outcome = .approximated Decimal.zero expression coefficients ∧
        constantScenario.samples zeroTape = .ok samples ∧
        (constantPool half).run samples = .ok checked ∧ samples[0]? = some sample ∧
        checked.answers[0]? = some (.finite half) ∧
        constantScenario.template.evaluate sample = .ok terms ∧
        ¬|reportedValue constantScenario.template coefficients terms - half.toRat| ≤
          Decimal.zero.toRat := by
  have hrun : ∃ report ∈ noisyRun.toOption, ∃ fit ∈ fitted? report.outcome,
      ∃ samples ∈ (constantScenario.samples zeroTape).toOption,
      ∃ checked ∈ ((constantPool half).run samples : Except Failure PoolOutcome).toOption,
      ∃ sample ∈ samples[0]?, ∃ terms ∈ (constantScenario.template.evaluate sample).toOption,
        fit.1 = Decimal.zero ∧ checked.answers[0]? = some (.finite half) ∧
          ¬|reportedValue constantScenario.template fit.2.2 terms - half.toRat| ≤
            Decimal.zero.toRat := by
    decide +kernel
  obtain ⟨report, hreport, ⟨_, expression, coefficients⟩, hfit, samples, hsamples, checked,
    hchecked, sample, hsample, terms, hterms, rfl, hanswer, hexceeds⟩ := hrun
  refine ⟨sound_fixedSolver noisyValues, report, expression, coefficients, samples, checked, sample,
    terms, toOption_eq_some.1 hreport, fitted?_eq_some hfit, toOption_eq_some.1 hsamples,
    toOption_eq_some.1 hchecked, hsample, hanswer, toOption_eq_some.1 hterms, hexceeds⟩

end MarkovFit.Proofs
