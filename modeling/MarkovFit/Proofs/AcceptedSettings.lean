import MarkovFit.Proofs.NamingFailures
import MarkovFit.Proofs.PlanTotal
import MarkovFit.Proofs.ResolvedNames
import MarkovFit.Proofs.RowRequests
import MarkovFit.Proofs.SettingsCheck
import MarkovFit.Search.Direct

/-!
# Settings that passed the check

What is made of settings has conditions of its own on names, intervals, powers of ten and unknowns. The
check of the settings implies all of them: parameters, their registry, a search and a linear program are
there, and a scenario can only fail by the template of its user or by the number of its samples. Too many
vertices are refused; a sum of both kinds of samples that is no count is a fault.
-/

namespace MarkovFit.Proofs

open Sampling

variable {s : Settings}

/-! ### What the check implies -/

/-- What is relied on after the check. -/
structure AcceptedSettings (s : Settings) : Prop where
  parameters : AcceptedParameters (s.model.constants.map (·.1)) [] s.parameters
  nonempty : s.parameters ≠ []
  scaling_le : s.lp.scaling ≤ 20

theorem acceptedSettings_of_validate (h : s.validate = .ok ()) : AcceptedSettings s := by
  obtain ⟨hnonempty, h⟩ := demand_bind_eq_ok_iff.1 h
  obtain ⟨_, hparameters, h⟩ := bind_eq_ok.1 h
  obtain ⟨_, -, h⟩ := bind_eq_ok.1 h
  obtain ⟨_, -, h⟩ := bind_eq_ok.1 h
  obtain ⟨_, -, h⟩ := bind_eq_ok.1 h
  obtain ⟨_, hlp, -⟩ := bind_eq_ok.1 h
  obtain ⟨-, hscaling⟩ := demand_bind_eq_ok_iff.1 hlp
  refine ⟨checkParameters_eq_ok_iff.1 hparameters, ?_, ?_⟩
  · intro hnil
    rw [hnil] at hnonempty
    cases hnonempty
  · exact of_decide_eq_true (demand_eq_ok_iff.1 hscaling)

/-! ### Parameters -/

theorem parameterMake_eq_ok {p : ParameterSettings} {constants seen : List String}
    {ps : List ParameterSettings} (h : AcceptedParameters constants seen ps) (hp : p ∈ ps) :
    ∃ parameter, Parameter.make p.name p.lower p.upper = .ok parameter :=
  ⟨_, (dif_pos (trim_ne_of_isIdentifier (h.isIdentifier p hp))).trans
    (dif_pos (h.lower_lt_upper p hp))⟩

theorem name_of_parameterMake {name : String} {lower upper : Decimal} {parameter : Parameter}
    (h : Parameter.make name lower upper = .ok parameter) : parameter.name = name := by
  unfold Parameter.make at h
  split at h
  · split at h
    · cases h
      rfl
    · cases h
  · cases h

/-- The parameters are there, under the names that the settings give them. -/
theorem AcceptedSettings.exists_parameterSpace (h : AcceptedSettings s) : ∃ parameters,
    s.parameterSpace = .ok parameters ∧
      parameters.map Parameter.name = s.parameters.map ParameterSettings.name := by
  obtain ⟨parameters, hparameters⟩ := exists_mapM_ok fun p hp => parameterMake_eq_ok h.parameters hp
  refine ⟨parameters, hparameters, ?_⟩
  symm
  rw [map_eq_map_iff_forall₂]
  exact (mapM_eq_ok.1 hparameters).imp fun _ _ hmake => (name_of_parameterMake hmake).symm

theorem ofParameters_eq_ok {parameters : List Parameter}
    (h : (parameters.map Parameter.name).Nodup) :
    Registry.ofParameters parameters = .ok ⟨parameters.map Parameter.name, h⟩ :=
  dif_pos h

theorem searchMake_eq_ok {parameters : List Parameter} (h : parameters ≠ [])
    (settings : SearchSettings) : ∃ search, Search.make parameters settings = .ok search :=
  ⟨_, if_neg (mt List.isEmpty_iff.1 h)⟩

/-! ### The linear program -/

/-- Names of coefficients never collide, and a power of ten of the check is a decimal. -/
theorem AcceptedSettings.exists_model (h : AcceptedSettings s) (t : Template) :
    ∃ m, Model.minimizeLambda s.lp.scaling s.lp.precision s.scenario.lambda t.coefficients =
      .ok m := by
  refine exists_make_iff.2 ⟨h.scaling_le.trans (by decide), nodup_unknowns t, fun name hname => ?_⟩
  exact mem_cons_of_mem_lambdaAlone hname _

/-! ### Scenarios -/

/-- What a scenario of accepted settings can fail with: the template that its user gives cannot be read,
or a name in it is neither a parameter nor a numeric constant, or there are too many vertices, or the
vertices are a count and all samples together are not. -/
inductive ScenarioFailure (s : Settings) : Failure → Prop
  | template {source : String} {cause : SyntaxCause} (given : s.scenario.template = some source)
      (unreadable : Expr.parseTerms source = .error (.template cause)) :
      ScenarioFailure s (.template cause)
  | name {source name : String} {terms : List Expr} {e : Expr}
      (given : s.scenario.template = some source) (read : Expr.parseTerms source = .ok terms)
      (term : e ∈ terms) (part : IsPart (.ident name) e)
      (unresolved : Unresolved (s.parameters.map ParameterSettings.name) s.constants name) :
      ScenarioFailure s (.undefinedIdentifier name)
  | vertices (tooMany : 2 ^ 64 ≤ vertexDemand s.scenario.budget s.parameters.length) :
      ScenarioFailure s (.invalidInput (.tooManyVertices s.parameters.length))
  | total {registry : Registry} {t : Template}
      (names : registry.names = s.parameters.map ParameterSettings.name)
      (made : Template.make s.scenario.template s.scenario.degree registry s.constants = .ok t)
      (vertices : vertexDemand s.scenario.budget s.parameters.length < 2 ^ 64)
      (tooMany : 2 ^ 64 ≤ sampleDemand s.scenario.budget s.parameters.length
        (t.coefficients.length + 1)) :
      ScenarioFailure s (.fault .countOverflow)

theorem failsOnly_parseTerms (source : String) :
    FailsOnly (fun f => ∃ cause, f = .template cause) (Expr.parseTerms source) := by
  refine FailsOnly.bind ?_ fun ts _ => ?_
  · cases Expr.scan source with
    | ok ts => exact failsOnly_ok ts
    | error unexpected => exact failsOnly_error ⟨_, rfl⟩
  · cases Expr.listOfTokens ts with
    | ok terms => exact failsOnly_ok terms
    | error e =>
      refine failsOnly_error ?_
      cases e <;> exact ⟨_, rfl⟩

theorem failsOnly_planMake (budget : SampleBudget) (parameters coefficients : ℕ) :
    FailsOnly (fun f => 2 ^ 64 ≤ vertexDemand budget parameters ∧
      f = .invalidInput (.tooManyVertices parameters))
      (SamplePlan.make budget parameters coefficients) := by
  refine FailsOnly.bind ?_ fun vertices _ => failsOnly_ok _
  rw [vertexShare_eq]
  split
  · exact failsOnly_ok _
  · exact failsOnly_error ⟨Nat.not_lt.1 ‹_›, rfl⟩

section

variable {registry : Registry} {f : Failure}

theorem scenarioFailure_of_termList {source : String} (hsource : s.scenario.template = some source)
    (hnames : registry.names = s.parameters.map ParameterSettings.name)
    (h : TermList.make source registry s.constants = .error f) : ScenarioFailure s f := by
  cases hterms : Expr.parseTerms source with
  | error f' =>
    rw [TermList.make, hterms] at h
    cases h
    obtain ⟨cause, rfl⟩ := failsOnly_parseTerms source f hterms
    exact .template hsource hterms
  | ok terms =>
    rw [make_terms_eq hterms] at h
    split at h
    · rename_i name hfind
      cases h
      obtain ⟨hmem, hunresolved⟩ := of_firstUnresolved? hfind
      obtain ⟨e, he, hname⟩ := List.mem_flatMap.1 hmem
      exact .name hsource hterms he (mem_identifiers_iff.1 hname) (hnames ▸ hunresolved)
    · cases h

theorem failsOnly_templateMake (hnames : registry.names = s.parameters.map ParameterSettings.name) :
    FailsOnly (ScenarioFailure s)
      (Template.make s.scenario.template s.scenario.degree registry s.constants) := by
  cases hsource : s.scenario.template with
  | none => exact failsOnly_ok _
  | some source =>
    exact FailsOnly.map (fun f h => scenarioFailure_of_termList hsource hnames h) Template.terms

theorem registry_eq_of_names {registry' : Registry} (h : registry'.names = registry.names) :
    registry' = registry := by
  cases registry
  cases registry'
  cases h
  rfl

/-- With a template there are too many vertices or samples left as a failure. -/
theorem limit_le_demand (hnames : registry.names = s.parameters.map ParameterSettings.name)
    {t : Template}
    (h : Template.make s.scenario.template s.scenario.degree registry s.constants = .ok t)
    (hfailure : ScenarioFailure s f) :
    2 ^ 64 ≤ vertexDemand s.scenario.budget s.parameters.length ∨
      2 ^ 64 ≤ sampleDemand s.scenario.budget s.parameters.length (t.coefficients.length + 1) := by
  cases hfailure with
  | vertices tooMany => exact .inl tooMany
  | template given unreadable =>
    rw [given, Template.make, TermList.make, unreadable] at h
    cases h
  | name given read term part unresolved =>
    obtain ⟨name, hname⟩ :=
      (make_terms_eq_error_iff read).2 ⟨_, term, _, part, hnames ▸ unresolved⟩
    rw [given, Template.make, hname] at h
    cases h
  | @total registry' t' names made vertices tooMany =>
    rw [registry_eq_of_names (names.trans hnames.symm), h] at made
    cases made
    exact .inr tooMany

variable {parameters : List Parameter}

theorem scenarioMake_eq (hparameters : s.parameterSpace = .ok parameters)
    (hregistry : Registry.ofParameters parameters = .ok registry) :
    Scenario.make s = (do
      let template ← Template.make s.scenario.template s.scenario.degree registry s.constants
      let plan ← SamplePlan.make s.scenario.budget parameters.length
        (template.coefficients.length + 1)
      let _ ← plan.total
      return ⟨s, parameters, template, plan⟩) := by
  rw [Scenario.make, hparameters]
  change (do
    let registry ← Registry.ofParameters parameters
    _) = _
  rw [hregistry]
  rfl

/-- A scenario fails in these ways only, and it fails if there is one of them. -/
theorem scenarioMake_fails_iff (hparameters : s.parameterSpace = .ok parameters)
    (hlength : parameters.length = s.parameters.length)
    (hregistry : Registry.ofParameters parameters = .ok registry)
    (hnames : registry.names = s.parameters.map ParameterSettings.name) :
    FailsOnly (ScenarioFailure s) (Scenario.make s) ∧
      ((∃ f, ScenarioFailure s f) → ∃ f, Scenario.make s = .error f) := by
  rw [scenarioMake_eq hparameters hregistry, hlength]
  constructor
  · refine (failsOnly_templateMake hnames).bind fun t ht => FailsOnly.bind ?_ fun plan hplan =>
      FailsOnly.bind ?_ fun _ _ => failsOnly_ok _
    · refine (failsOnly_planMake _ _ _).mono ?_
      rintro f ⟨htooMany, rfl⟩
      exact .vertices htooMany
    · rw [total_eq, planned_eq_sampleDemand hplan]
      split
      · exact failsOnly_ok _
      · exact failsOnly_error (.total hnames ht (planMake_eq_ok_iff.1 hplan).1 (Nat.not_lt.1 ‹_›))
  · rintro ⟨f, hfailure⟩
    cases hmake : (do
      let template ← Template.make s.scenario.template s.scenario.degree registry s.constants
      let plan ← SamplePlan.make s.scenario.budget s.parameters.length
        (template.coefficients.length + 1)
      let _ ← plan.total
      return ⟨s, parameters, template, plan⟩ : Except Failure Scenario) with
    | error f' => exact ⟨f', rfl⟩
    | ok scenario =>
      obtain ⟨t, ht, hplan⟩ := bind_eq_ok.1 hmake
      obtain ⟨plan, hplan, htotal⟩ := bind_eq_ok.1 hplan
      obtain ⟨total, htotal, -⟩ := bind_eq_ok.1 htotal
      have hvertices := (planMake_eq_ok_iff.1 hplan).1
      have hsamples := (total_eq_ok_iff.1 htotal).2
      rw [planned_eq_sampleDemand hplan] at hsamples
      obtain hlimit | hlimit := limit_le_demand hnames ht hfailure
      · exact absurd hvertices (Nat.not_lt.2 hlimit)
      · exact absurd hsamples (Nat.not_lt.2 hlimit)

/-- The overflow of the sum is reached where it is in the list. -/
theorem scenarioMake_eq_countOverflow (hparameters : s.parameterSpace = .ok parameters)
    (hlength : parameters.length = s.parameters.length)
    (hregistry : Registry.ofParameters parameters = .ok registry)
    (hnames : registry.names = s.parameters.map ParameterSettings.name)
    (h : ScenarioFailure s (.fault .countOverflow)) :
    Scenario.make s = .error (.fault .countOverflow) := by
  cases h with
  | @total registry' t names made vertices tooMany =>
    rw [registry_eq_of_names (names.trans hnames.symm)] at made
    obtain ⟨plan, hplan⟩ := exists_planMake (t.coefficients.length + 1) vertices
    have htotal : plan.total = .error (.fault .countOverflow) := by
      rw [total_eq, planned_eq_sampleDemand hplan, if_neg (Nat.not_lt.2 tooMany)]
    rw [scenarioMake_eq hparameters hregistry, hlength, made]
    change (do
      let plan ← SamplePlan.make s.scenario.budget s.parameters.length (t.coefficients.length + 1)
      let _ ← plan.total
      _) = _
    rw [hplan]
    change (do
      let _ ← plan.total
      _) = _
    rw [htotal]
    rfl

end

/-- After the check, parameters, their registry, a search and the linear program of a template are there,
and a scenario fails exactly if its user gave a template that cannot be read or names something unknown,
or if there are too many vertices or too many samples in all. The last of these failures, the overflow of
a sum, is met exactly where the list has it. -/
theorem accepted_settings_fail_as_listed (s : Settings) (h : s.validate = .ok ()) :
    ∃ parameters registry search, s.parameterSpace = .ok parameters ∧
      Registry.ofParameters parameters = .ok registry ∧
      Search.make parameters s.search = .ok search ∧
      (∀ t, Template.make s.scenario.template s.scenario.degree registry s.constants = .ok t →
        ∃ m, Model.minimizeLambda s.lp.scaling s.lp.precision s.scenario.lambda t.coefficients =
          .ok m) ∧
      (∀ f, Scenario.make s = .error f → ScenarioFailure s f) ∧
      ((∃ f, ScenarioFailure s f) → ∃ f, Scenario.make s = .error f) ∧
      (Scenario.make s = .error (.fault .countOverflow) ↔
        ScenarioFailure s (.fault .countOverflow)) := by
  have haccepted := acceptedSettings_of_validate h
  obtain ⟨parameters, hparameters, hnames⟩ := haccepted.exists_parameterSpace
  have hlength : parameters.length = s.parameters.length := by
    simpa using congrArg List.length hnames
  have hregistry := ofParameters_eq_ok (hnames ▸ haccepted.parameters.nodup)
  have hnonempty : parameters ≠ [] := by
    rintro rfl
    exact haccepted.nonempty (List.length_eq_zero_iff.1 hlength.symm)
  obtain ⟨search, hsearch⟩ := searchMake_eq_ok hnonempty s.search
  obtain ⟨honly, hfails⟩ := scenarioMake_fails_iff hparameters hlength hregistry hnames
  exact ⟨parameters, _, search, hparameters, hregistry, hsearch, fun t _ => haccepted.exists_model t,
    honly, hfails, honly _, scenarioMake_eq_countOverflow hparameters hlength hregistry hnames⟩

/-- Two edges of a square with as many points as a signed number of 64 bits can be. -/
def crowdedEdges : Settings where
  model := { constants := [("rate", .text "high")] }
  parameters := [⟨"p", .zero, .one⟩, ⟨"q_1", .one, .ten⟩]
  oracle := { backend := .synthetic, expression := some "p" }
  scenario := { vertices := .replace, boundaryPoints := 2 ^ 63 - 1 }
  lp := { scaling := 20 }

theorem crowdedEdges_fail_as_listed : crowdedEdges.validate = .ok () ∧
    ∃ parameters registry search t m f, crowdedEdges.parameterSpace = .ok parameters ∧
      Registry.ofParameters parameters = .ok registry ∧
      Search.make parameters crowdedEdges.search = .ok search ∧
      Template.make none 2 registry crowdedEdges.constants = .ok t ∧
      Model.minimizeLambda 20 defaultPrecision none t.coefficients = .ok m ∧
      Scenario.make crowdedEdges = .error f ∧ ScenarioFailure crowdedEdges f := by
  have hvalid : crowdedEdges.validate = .ok () := by decide +kernel
  obtain ⟨parameters, registry, search, hparameters, hregistry, hsearch, hmodel, honly, hfails, -⟩ :=
    accepted_settings_fail_as_listed crowdedEdges hvalid
  obtain ⟨m, hm⟩ := hmodel _ rfl
  obtain ⟨f, hf⟩ := hfails ⟨_, .vertices (by decide +kernel)⟩
  exact ⟨hvalid, parameters, registry, search, _, m, f, hparameters, hregistry, hsearch, rfl, hm, hf,
    honly f hf⟩

/-- Not in the list of failures that are refusals: the sum that is no count. -/
theorem longEdge_fails : longEdge.validate = .ok () ∧
    Scenario.make longEdge = .error (.fault .countOverflow) :=
  ⟨by decide +kernel, rfl⟩

end MarkovFit.Proofs
