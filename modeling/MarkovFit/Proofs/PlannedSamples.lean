import MarkovFit.Proofs.PlanTotal

/-!
# Planned samples

The words of a source make an endless sequence of points, with as many words for each of them as there
are parameters. Drawing some samples takes the first points of that sequence, so that two runs on the
same words differ in the number of points only. A plan is made from numbers alone; the samples that are
generated by it are the vertices of the box, as many as planned, and behind them as many points of the
sequence as planned.
-/

namespace MarkovFit.Proofs

open Sampling

variable {ps : List Parameter} {vs : List Decimal} {m n : ℕ}

/-! ### The sequence of points -/

section Sources

variable {γ : Type} [RandomSource γ]

/-- The source after some more words. -/
def skip (n : ℕ) (source : γ) : γ := (fun s : γ => (RandomSource.next s).2)^[n] source

theorem skip_add (m n : ℕ) (source : γ) : skip (m + n) source = skip n (skip m source) := by
  rw [Nat.add_comm]
  exact Function.iterate_add_apply _ n m source

theorem skip_succ_mul (i n : ℕ) (source : γ) :
    skip ((i + 1) * n) source = skip (i * n) (skip n source) := by
  rw [← skip_add, Nat.succ_mul, Nat.add_comm]

/-- A point of the sequence, which has its own words of the source: one for each parameter. -/
def sequencePoint (ps : List Parameter) (source : γ) (i : ℕ) : Except Failure Sample := do
  let draws := ps.zip (fractions ps.length (skip (i * ps.length) source))
  let values ← draws.mapM fun x => valueAt x.1 x.2
  Sample.ofValues ps values

theorem sequencePoint_zero (ps : List Parameter) (source : γ) : sequencePoint ps source 0 =
    (ps.zip (fractions ps.length source)).mapM (fun x => valueAt x.1 x.2) >>= Sample.ofValues ps := by
  unfold sequencePoint
  rw [Nat.zero_mul]
  rfl

theorem sequencePoint_succ (ps : List Parameter) (source : γ) (i : ℕ) :
    sequencePoint ps source (i + 1) = sequencePoint ps (skip ps.length source) i := by
  unfold sequencePoint
  rw [skip_succ_mul]

theorem drawValues_eq (ps : List Parameter) (source : γ) : drawValues ps source =
    (fun values => (values, skip ps.length source)) <$>
      (ps.zip (fractions ps.length source)).mapM fun x => valueAt x.1 x.2 := by
  induction ps generalizing source with
  | nil => rfl
  | cons p ps ih =>
    have hdraw : drawValue p source = (fun v => (v, (RandomSource.next source).2)) <$>
        valueAt p (fraction (RandomSource.next source).1) := by
      rw [map_eq_pure_bind]
      rfl
    have hskip : skip (p :: ps).length source = skip ps.length (RandomSource.next source).2 := rfl
    rw [drawValues, hdraw, hskip, List.length_cons, fractions, List.zip_cons_cons, List.mapM_cons]
    simp only [bind_map_left, ih, map_bind, map_pure]

theorem drawSample_eq (ps : List Parameter) (source : γ) : drawSample ps source =
    (fun sample => (sample, skip ps.length source)) <$> sequencePoint ps source 0 := by
  simp only [drawSample, drawValues_eq, sequencePoint_zero, bind_map_left, map_bind, bind_pure_comp]

theorem drawOnto_eq (ps : List Parameter) (n : ℕ) (drawn : List Sample) (source : γ) :
    drawOnto ps n drawn source =
      (fun samples => (samples.reverse ++ drawn, skip (n * ps.length) source)) <$>
        (List.range n).mapM (sequencePoint ps source) := by
  induction n generalizing drawn source with
  | zero =>
    rw [Nat.zero_mul]
    rfl
  | succ n ih =>
    -- The points behind the first one are those of the source that it leaves behind.
    have hlater : sequencePoint ps source ∘ Nat.succ = sequencePoint ps (skip ps.length source) :=
      funext (sequencePoint_succ ps source)
    rw [drawOnto, drawSample_eq, List.range_succ_eq_map, List.mapM_cons, List.mapM_map, hlater,
      skip_succ_mul]
    simp only [ih, map_eq_pure_bind, bind_assoc, pure_bind, List.reverse_cons, List.append_assoc,
      List.singleton_append]

/-- Drawing samples takes the first points of the sequence and stops at the first that fails. -/
theorem drawSamples_eq (ps : List Parameter) (n : ℕ) (source : γ) : drawSamples ps n source =
    (fun samples => (samples, skip (n * ps.length) source)) <$>
      (List.range n).mapM (sequencePoint ps source) := by
  simp only [drawSamples, drawOnto_eq, map_eq_pure_bind, bind_assoc, pure_bind, List.append_nil,
    List.reverse_reverse]

/-! ### Plans carried out -/

variable {plan : SamplePlan} {source : γ} {samples : List Sample} {count : ℕ}

/-- Vertices are generated in front of the first points of the sequence, if all of them together are a
count. -/
theorem generate_eq_ok_iff : plan.generate ps count source = .ok samples ↔
    plan.vertices + plan.random < 2 ^ 64 ∧ ∃ vertices random : List Sample,
      (if plan.vertices = 0 then vertices = [] else vertexSamples ps count = .ok vertices) ∧
        (List.range plan.random).mapM (sequencePoint ps source) = .ok random ∧
        samples = vertices ++ random := by
  have htotal : (∃ total, plan.total = .ok total) ↔ plan.vertices + plan.random < 2 ^ 64 := by
    simp only [total_eq_ok_iff, exists_eq_left]
  rw [SamplePlan.generate, bind_eq_ok, exists_and_right, htotal]
  refine and_congr_right fun _ => ?_
  by_cases hzero : plan.vertices = 0
  · simp only [hzero, if_true, drawSamples_eq, map_eq_pure_bind, bind_assoc, pure_bind, bind_eq_ok]
    constructor
    · rintro ⟨random, hrandom, hresult⟩
      cases hresult
      exact ⟨[], random, rfl, hrandom, rfl⟩
    · rintro ⟨_, random, rfl, hrandom, hresult⟩
      rw [hresult]
      exact ⟨random, hrandom, rfl⟩
  · simp only [hzero, if_false, drawSamples_eq, map_eq_pure_bind, bind_assoc, pure_bind, bind_eq_ok]
    constructor
    · rintro ⟨vertices, hvertices, random, hrandom, hresult⟩
      cases hresult
      exact ⟨vertices, random, hvertices, hrandom, rfl⟩
    · rintro ⟨vertices, random, hvertices, hrandom, rfl⟩
      exact ⟨vertices, hvertices, random, hrandom, rfl⟩

end Sources

theorem length_vertexSamples {count : ℕ} {samples : List Sample}
    (h : vertexSamples ps count = .ok samples) : samples.length = vertexTotal ps.length count := by
  rw [vertexSamples_eq h, List.length_map, length_boxPoints]

/-- Computations that succeed on some more elements have the same results on the first ones. -/
theorem prefix_of_mapM {ε α β : Type} {f : α → Except ε β} {as bs : List α} {xs ys : List β}
    (h : as <+: bs) (hxs : as.mapM f = .ok xs) (hys : bs.mapM f = .ok ys) : xs <+: ys := by
  obtain ⟨rest, rfl⟩ := h
  simp only [List.mapM_append, hxs, bind_eq_ok] at hys
  obtain ⟨_, hfirst, zs, -, hresult⟩ := hys
  cases hfirst
  cases hresult
  exact List.prefix_append xs zs

theorem range_prefix_range (h : m ≤ n) : List.range m <+: List.range n := by
  rw [← Nat.add_sub_cancel' h, List.range_add]
  exact List.prefix_append _ _

variable {settings settings' : Settings} {scenario scenario' : Scenario}

/-- The total of a scenario is the sum. -/
theorem total_of_make (h : Scenario.make settings = .ok scenario) :
    scenario.plan.total = .ok (scenario.plan.vertices + scenario.plan.random) := by
  obtain ⟨-, -, -, total, htotal⟩ := parts_of_make h
  exact (total_eq_ok_iff.1 htotal).1 ▸ htotal

/-- The numbers of samples of each kind, by the mode of the vertices. -/
theorem counts_of_make (h : Scenario.make settings = .ok scenario) :
    scenario.plan.requested =
        requestedSamples settings.scenario.budget (scenario.template.coefficients.length + 1) ∧
      scenario.plan.vertices = (if settings.scenario.vertices = .none then 0
        else vertexTotal scenario.parameters.length settings.scenario.boundaryPoints) ∧
      scenario.plan.random = if settings.scenario.vertices = .replace then
        scenario.plan.requested - scenario.plan.vertices else scenario.plan.requested :=
  (planMake_eq_ok_iff.1 (parts_of_make h).2.2.1).2

theorem vertices_eq_zero_iff (h : Scenario.make settings = .ok scenario) :
    scenario.plan.vertices = 0 ↔ settings.scenario.vertices = .none := by
  have hvertices : scenario.plan.vertices =
      vertexDemand settings.scenario.budget scenario.parameters.length := (counts_of_make h).2.1
  rw [hvertices, vertexDemand_eq_zero_iff]
  rfl

theorem parameters_eq_of_make (hsame : settings'.parameters = settings.parameters)
    (h : Scenario.make settings = .ok scenario) (h' : Scenario.make settings' = .ok scenario') :
    scenario'.parameters = scenario.parameters := by
  have hps := (parts_of_make h').2.1
  unfold Settings.parameterSpace at hps
  rw [hsame] at hps
  exact (Except.ok.inj (hps.symm.trans (parts_of_make h).2.1))

/-- The samples of a scenario fall into the vertices and the first points of the sequence. -/
theorem exists_parts_of_samples {γ : Type} [RandomSource γ] {source : γ} {samples : List Sample}
    (h : Scenario.make settings = .ok scenario) (hsamples : scenario.samples source = .ok samples) :
    ∃ vertices random : List Sample, samples = vertices ++ random ∧
      vertices.length = scenario.plan.vertices ∧
      (settings.scenario.vertices ≠ .none →
        vertexSamples scenario.parameters settings.scenario.boundaryPoints = .ok vertices) ∧
      (List.range scenario.plan.random).mapM (sequencePoint scenario.parameters source) =
        .ok random := by
  rw [Scenario.samples, settings_of_make h] at hsamples
  obtain ⟨-, vertices, random, hparts, hrandom, rfl⟩ := generate_eq_ok_iff.1 hsamples
  have hmode := vertices_eq_zero_iff h
  refine ⟨vertices, random, rfl, ?_, ?_, hrandom⟩
  · split at hparts
    · rename_i hzero
      rw [hparts, hzero]
      rfl
    · rename_i hpos
      rw [(counts_of_make h).2.1, if_neg (mt hmode.2 hpos)]
      exact length_vertexSamples hparts
  · intro hsampled
    rwa [if_neg (mt hmode.1 hsampled)] at hparts

/-- The samples are the planned number of vertices and of points of the sequence, which does not depend
on the plan. -/
theorem samples_follow_plan {γ : Type} [RandomSource γ] {source : γ} {samples : List Sample}
    (h : Scenario.make settings = .ok scenario) (hsamples : scenario.samples source = .ok samples) :
    (scenario.plan.total = .ok samples.length ∧
        ∃ statistics, scenario.statistics = .ok statistics ∧
          statistics.totalSamples = samples.length) ∧
      (settings.scenario.vertices = .none → scenario.plan.vertices = 0) ∧
      (settings.scenario.vertices ≠ .none →
        vertexSamples scenario.parameters settings.scenario.boundaryPoints =
          .ok (samples.take scenario.plan.vertices)) ∧
      List.Forall₂ (fun i sample => sequencePoint scenario.parameters source i = .ok sample)
        (List.range scenario.plan.random) (samples.drop scenario.plan.vertices) ∧
      (∀ settings' scenario' samples', settings'.parameters = settings.parameters →
        Scenario.make settings' = .ok scenario' → scenario'.samples source = .ok samples' →
          samples.drop scenario.plan.vertices <+: samples'.drop scenario'.plan.vertices ∨
            samples'.drop scenario'.plan.vertices <+: samples.drop scenario.plan.vertices) ∧
      (settings.scenario.vertices = .replace →
        samples.length = max scenario.plan.requested scenario.plan.vertices) ∧
      scenario.plan.requested =
        requestedSamples settings.scenario.budget (scenario.template.coefficients.length + 1) ∧
      scenario.plan.requested ≤ samples.length := by
  obtain ⟨hrequested, -, hrandom⟩ := counts_of_make h
  obtain ⟨vertices, random, rfl, hcount, hmode, hpoints⟩ := exists_parts_of_samples h hsamples
  obtain ⟨-, -, hplan, -⟩ := parts_of_make h
  have htotal := total_of_make h
  have hlength : scenario.plan.vertices + scenario.plan.random = (vertices ++ random).length := by
    have hrange := (mapM_eq_ok.1 hpoints).length_eq
    rw [List.length_range] at hrange
    rw [List.length_append, hcount, ← hrange]
  have hstatistics : ∃ statistics, scenario.statistics = .ok statistics ∧
      statistics.totalSamples = scenario.plan.vertices + scenario.plan.random := by
    simp only [Scenario.statistics, htotal]
    exact ⟨_, rfl, rfl⟩
  rw [List.take_left' hcount, List.drop_left' hcount, ← hlength]
  refine ⟨⟨htotal, hstatistics⟩, (vertices_eq_zero_iff h).2, hmode, mapM_eq_ok.1 hpoints, ?_, ?_,
    hrequested, requested_le hplan⟩
  · intro settings' scenario' samples' hsame h' hsamples'
    obtain ⟨vertices', random', rfl, hcount', -, hpoints'⟩ := exists_parts_of_samples h' hsamples'
    rw [parameters_eq_of_make hsame h h'] at hpoints'
    rw [List.drop_left' hcount']
    obtain hle | hle := Nat.le_total scenario.plan.random scenario'.plan.random
    · exact .inl (prefix_of_mapM (range_prefix_range hle) hpoints hpoints')
    · exact .inr (prefix_of_mapM (range_prefix_range hle) hpoints' hpoints)
  · intro hreplace
    rw [hrandom, if_pos hreplace]
    omega

/-- Six samples of a rectangle. -/
def sixSamples (mode : VertexMode) : Settings where
  parameters := [⟨"p", .zero, .one⟩, ⟨"q", .zero, .two⟩]
  oracle := { backend := .synthetic, expression := some "p * q" }
  scenario := { degree := 1, samples := some 6, vertices := mode, seed := some 7 }

theorem exists_sixSamples {mode : VertexMode} (h : mode = .none ∨ mode = .replace) :
    ∃ scenario samples, Scenario.make (sixSamples mode) = .ok scenario ∧
      scenario.samples (ChaCha.Generator.ofSeed 7) = .ok samples := by
  obtain ⟨samples, hsamples⟩ := exists_eq_ok (x := Scenario.make (sixSamples mode) >>=
    fun scenario => scenario.samples (ChaCha.Generator.ofSeed 7))
    (by obtain rfl | rfl := h <;> decide +kernel)
  obtain ⟨scenario, hscenario, hsamples⟩ := bind_eq_ok.1 hsamples
  exact ⟨scenario, samples, hscenario, hsamples⟩

/-- The two points behind the four corners are points of the run without vertices, too. -/
theorem sixSamples_follow_plan : ∃ scenario samples scenario' samples',
    (Scenario.make (sixSamples .replace) = .ok scenario ∧
      scenario.samples (ChaCha.Generator.ofSeed 7) = .ok samples ∧
      Scenario.make (sixSamples .none) = .ok scenario' ∧
      scenario'.samples (ChaCha.Generator.ofSeed 7) = .ok samples') ∧
    scenario.plan = ⟨6, 4, 2⟩ ∧ scenario.plan.total = .ok samples.length ∧
      (samples.drop 4 <+: samples'.drop 0 ∨ samples'.drop 0 <+: samples.drop 4) := by
  obtain ⟨scenario, samples, h, hsamples⟩ := exists_sixSamples (.inr rfl)
  obtain ⟨scenario', samples', h', hsamples'⟩ := exists_sixSamples (.inl rfl)
  have hplan : scenario.plan = ⟨6, 4, 2⟩ := by
    cases h
    rfl
  have hplan' : scenario'.plan.vertices = 0 := (vertices_eq_zero_iff h').2 rfl
  obtain ⟨⟨htotal, -⟩, -, -, -, hprefix, -⟩ := samples_follow_plan h hsamples
  have hshared := hprefix (sixSamples .none) scenario' samples' rfl h' hsamples'
  rw [hplan, hplan'] at hshared
  exact ⟨scenario, samples, scenario', samples', ⟨h, hsamples, h', hsamples'⟩, hplan, htotal, hshared⟩

end MarkovFit.Proofs
