import MarkovFit.Proofs.ModelRows
import MarkovFit.Scenario.Fit

/-!
# Runs of a scenario

A run that ends without a failure has gone through all its stages: samples, answers of the pool,
measurements, model, values of the solver. The values are found again in the report by name.
-/

namespace MarkovFit.Proofs

open Scenario (Measurement measurements)

/-- The measurements are the samples with their finite answers, in order. -/
theorem measurements_eq_ok {answers : Answers} {samples : List (Sample × Nat)}
    {data : List Measurement} (h : measurements answers samples = .ok data) :
    List.Forall₂ (fun (sample : Sample × Nat) (x : Measurement) =>
      x.1 = sample.1 ∧ answers[sample.2]? = some (.finite x.2)) samples data := by
  induction samples generalizing data with
  | nil =>
    cases h
    exact .nil
  | cons sample samples ih =>
    obtain ⟨sample, i⟩ := sample
    rw [measurements] at h
    split at h
    · rename_i value hvalue
      obtain ⟨rest, hrest, rfl⟩ := map_eq_ok.1 h
      exact .cons ⟨rfl, hvalue⟩ (ih hrest)
    · cases h

/-- Every drawn sample is measured. -/
theorem exists_measurement {answers : Answers} {samples : List Sample} {data : List Measurement}
    (h : measurements answers samples.zipIdx = .ok data) {i : Nat} {sample : Sample}
    (hsample : samples[i]? = some sample) :
    ∃ y, (sample, y) ∈ data ∧ answers[i]? = some (.finite y) := by
  have hmem : (sample, i) ∈ samples.zipIdx := List.mem_zipIdx_iff_getElem?.2 hsample
  obtain ⟨⟨sample', y⟩, hx, rfl, hanswer⟩ := exists_mem_of_forall₂ (measurements_eq_ok h) hmem
  exact ⟨y, hx, hanswer⟩

/-- The values of a solver stand in the solution under the names of the unknowns, snapped. -/
theorem solution_eq_ok {m : Model} {solver : String} {values : List Decimal} {solution : Solution}
    (hnodup : m.program.unknowns.Nodup) (h : m.solution solver values = .ok solution) :
    List.Forall₂ (fun name value => solution.get? name = some (value.snap m.precision))
      m.program.unknowns values := by
  unfold Model.solution at h
  split at h
  · rename_i hlength
    cases h
    have hzip : ((m.program.unknowns.zip (values.map (·.snap m.precision))).map Prod.fst).Nodup := by
      rwa [List.map_fst_zip (by simp [hlength])]
    rw [List.forall₂_iff_zip]
    refine ⟨hlength.symm, ?_⟩
    intro name value hmem
    refine (getElem?_ofList_iff hzip).2 ?_
    rw [List.zip_map_right, List.mem_map]
    exact ⟨(name, value), hmem, rfl⟩
  · cases h

/-- The first unknown is reported as `lambda`, the others as coefficients. -/
theorem report_of_solution {m : Model} {solver : String} {values : List Decimal}
    {solution : Solution} {names : List String} (hunknowns : m.program.unknowns = lambdaName :: names)
    (hnodup : m.program.unknowns.Nodup) (h : m.solution solver values = .ok solution) :
    ∃ first rest, values = first :: rest ∧ solution.lambda = first.snap m.precision ∧
      List.Forall₂ (fun name value => solution.coefficients[name]? = some (value.snap m.precision))
        names rest := by
  have hvalues := solution_eq_ok hnodup h
  rw [hunknowns, List.forall₂_cons_left_iff] at hvalues
  obtain ⟨first, rest, hfirst, hrest, rfl⟩ := hvalues
  refine ⟨first, rest, rfl, by rw [Solution.lambda, hfirst]; rfl, ?_⟩
  rw [hunknowns, List.nodup_cons] at hnodup
  rw [List.forall₂_iff_zip] at hrest ⊢
  refine ⟨hrest.1, ?_⟩
  intro name value hmem
  have hne : ¬compare lambdaName name = .eq := fun heq =>
    hnodup.1 (Std.LawfulEqCmp.compare_eq_iff_eq.1 heq ▸ (List.of_mem_zip hmem).1)
  rw [Solution.coefficients, Std.TreeMap.getElem?_erase, if_neg hne]
  exact hrest.2 hmem

/-- A fit that approximates has solved its model. -/
theorem approximate_eq_approximated {s : Scenario} {solver : LpSolver Id} {data : List Measurement}
    {lambda : Decimal} {expression : String} {coefficients : Valuation}
    (h : s.approximate solver data = .ok (.approximated lambda expression coefficients)) :
    ∃ m values solution, s.model data = .ok m ∧ solver.solve m.program = .ok (some values) ∧
      m.solution solver.name values = .ok solution ∧ lambda = solution.lambda ∧
      coefficients = solution.coefficients := by
  unfold Scenario.approximate at h
  cases hm : s.model data with
  | error e =>
    rw [hm] at h
    cases h
  | ok m =>
    rw [hm] at h
    obtain ⟨found, hfound, h⟩ := bind_eq_ok.1 h
    obtain ⟨values, hvalues, hfound⟩ := bind_eq_ok.1 hfound
    cases values with
    | none =>
      cases hfound
      cases h
    | some values =>
      obtain ⟨solution, hsolution, rfl⟩ := map_eq_ok.1 hfound
      obtain ⟨_, -, h⟩ := bind_eq_ok.1 h
      cases h
      exact ⟨m, values, solution, rfl, hvalues, hsolution, rfl, rfl⟩

/-- A run with a report has drawn its samples, checked them and found its outcome. -/
theorem run_eq_ok {γ : Type} [RandomSource γ] {s : Scenario} {pool : Pool Id} {solver : LpSolver Id}
    {source : γ} {report : ScenarioReport} (h : s.run pool solver source = .ok report) :
    ∃ samples checked, s.samples source = .ok samples ∧ pool.run samples = .ok checked ∧
      s.evaluate solver samples checked.answers = .ok report.outcome ∧
      report.range = checked.range ∧ report.samples = samples.length := by
  unfold Scenario.run at h
  cases hsamples : s.samples source with
  | error e =>
    rw [hsamples] at h
    cases h
  | ok samples =>
    rw [hsamples] at h
    change s.fit pool solver samples = .ok report at h
    unfold Scenario.fit at h
    cases hchecked : pool.run samples with
    | error e =>
      rw [hchecked] at h
      cases h
    | ok checked =>
      rw [hchecked] at h
      obtain ⟨outcome, houtcome, rfl⟩ := map_eq_ok.1 h
      exact ⟨samples, checked, rfl, hchecked, houtcome, rfl, rfl⟩

/-- An outcome with a fit comes from measurements at all samples. -/
theorem evaluate_eq_approximated {s : Scenario} {solver : LpSolver Id} {samples : List Sample}
    {answers : Answers} {lambda : Decimal} {expression : String} {coefficients : Valuation}
    (h : s.evaluate solver samples answers = .ok (.approximated lambda expression coefficients)) :
    ∃ data, measurements answers samples.zipIdx = .ok data ∧
      s.approximate solver data = .ok (.approximated lambda expression coefficients) := by
  unfold Scenario.evaluate at h
  cases hdata : measurements answers samples.zipIdx with
  | error sample =>
    rw [hdata] at h
    cases h
  | ok data =>
    rw [hdata] at h
    exact ⟨data, rfl, h⟩

end MarkovFit.Proofs
