import MarkovFit.Proofs.IntervalPoints
import MarkovFit.Proofs.UnitDraws
import MarkovFit.Random.ChaCha
import MarkovFit.Scenario.Basic
import MarkovFit.Settings.Check

/-!
# Sampling a box

Which boxes can be sampled whatever the source hands out. The corners lie in the box in any case. A
drawn point fails on an interval only that is too wide, and the points on the edges fail exactly if
the last of them, moved by the rounding of the step, has passed the upper end of its interval.
-/

namespace MarkovFit.Proofs

open Sampling

variable {ps : List Parameter} {p : Parameter} {vs corner : List Decimal} {v : Decimal}
  {count axis n : ℕ}

/-! ### Points of a box -/

/-- The values lie in the intervals of the parameters, one in each. -/
def InBox (ps : List Parameter) (vs : List Decimal) : Prop :=
  List.Forall₂ (fun p v => p.contains v = true) ps vs

theorem exists_pairValues (h : InBox ps vs) : ∃ pairs, Sample.pairValues ps vs = .ok pairs := by
  induction h with
  | nil => exact ⟨[], rfl⟩
  | @cons p v _ _ hv _ ih =>
    obtain ⟨pairs, hpairs⟩ := ih
    refine ⟨(p.name, v) :: pairs, ?_⟩
    rw [Sample.pairValues, if_pos hv, hpairs]
    rfl

theorem inBox_of_pairValues {pairs : List (String × Decimal)} (hlength : ps.length = vs.length)
    (h : Sample.pairValues ps vs = .ok pairs) : InBox ps vs := by
  induction ps generalizing vs pairs with
  | nil =>
    obtain rfl := List.length_eq_zero_iff.1 hlength.symm
    exact .nil
  | cons p ps ih =>
    cases vs with
    | nil => cases hlength
    | cons v vs =>
      rw [Sample.pairValues] at h
      split at h
      · rename_i hv
        obtain ⟨rest, hrest, -⟩ := bind_eq_ok.1 h
        exact .cons hv (ih (Nat.succ.inj hlength) hrest)
      · cases h

/-- A sample is made of the points of the box. -/
theorem exists_ofValues_iff : (∃ sample, Sample.ofValues ps vs = .ok sample) ↔ InBox ps vs := by
  rw [Sample.ofValues]
  constructor
  · rintro ⟨sample, h⟩
    split at h
    · cases h
    · rename_i hlength
      obtain ⟨pairs, hpairs, -⟩ := map_eq_ok.1 h
      exact inBox_of_pairValues (not_not.1 hlength) hpairs
  · intro h
    obtain ⟨pairs, hpairs⟩ := exists_pairValues h
    rw [if_neg (not_not.2 h.length_eq), hpairs]
    exact ⟨_, rfl⟩

/-- Moving a point of the box along one axis. -/
theorem inBox_set_iff (h : InBox ps vs) (hp : ps[axis]? = some p) :
    InBox ps (vs.set axis v) ↔ p.contains v = true := by
  induction h generalizing axis with
  | nil => cases hp
  | @cons q w ps vs hw hrest ih =>
    cases axis with
    | zero =>
      obtain rfl : q = p := Option.some.inj hp
      exact ⟨fun hset => (List.forall₂_cons.1 hset).1, fun hv => .cons hv hrest⟩
    | succ axis =>
      rw [← ih hp]
      exact ⟨fun hset => (List.forall₂_cons.1 hset).2, fun hset => .cons hw hset⟩

/-! ### Corners -/

theorem inBox_of_mem_corners (h : corner ∈ corners ps) : InBox ps corner := by
  induction ps generalizing corner with
  | nil =>
    obtain rfl := List.mem_singleton.1 h
    exact .nil
  | cons p ps ih =>
    have hle := (toRat_lower_lt p).le
    rw [corners] at h
    obtain h | h := List.mem_append.1 h
    · obtain ⟨rest, hrest, rfl⟩ := List.mem_map.1 h
      exact .cons (contains_iff.2 ⟨le_rfl, hle⟩) (ih hrest)
    · obtain ⟨rest, hrest, rfl⟩ := List.mem_map.1 h
      exact .cons (contains_iff.2 ⟨hle, le_rfl⟩) (ih hrest)

theorem map_lower_mem_corners (ps : List Parameter) : ps.map Parameter.lower ∈ corners ps := by
  induction ps with
  | nil => exact List.mem_singleton_self _
  | cons p ps ih => exact List.mem_append_left _ (List.mem_map_of_mem ih)

/-- The number of points on an edge is far below the bound of a mantissa. -/
theorem lt_of_vertexCount (h : vertexCount ps.length count = some n) (hp : p ∈ ps) :
    count + 1 < Decimal.mantissaBound := by
  have hlength : 1 ≤ ps.length := List.length_pos_of_mem hp
  have hle : count ≤ count * ps.length := Nat.le_mul_of_pos_right count hlength
  simp only [vertexCount, asCount] at h
  split at h
  · cases h
  · obtain ⟨perAxis, hperAxis, -⟩ := Option.bind_eq_some_iff.1 h
    split at hperAxis
    · rename_i hlt
      have hcount : count < 2 ^ 64 := hle.trans_lt hlt
      exact (Nat.succ_le_of_lt hcount).trans_lt (by decide)
    · cases hperAxis

theorem exists_edgePoints (hcorner : InBox ps corner) (hp : ps[axis]? = some p)
    (hcount : count + 1 < Decimal.mantissaBound) (h : count = 0 ∨ EdgeFits p count) :
    ∃ samples, edgePoints ps count corner axis p = .ok samples := by
  rw [edgePoints]
  split
  · exact ⟨[], rfl⟩
  · rename_i hedge
    have hfits : EdgeFits p count := h.resolve_left fun hzero => hedge (.inl hzero)
    obtain ⟨step, hstep, hvalue⟩ := exists_boundaryStep hfits.width_lt hcount
    have hpoints : ∀ i ∈ List.range count, ∃ sample, (do
        let value ← boundaryValue p step (i + 1)
        Sample.ofValues ps (corner.set axis value)) = .ok sample := by
      intro i hi
      obtain ⟨v, hv, hinside⟩ := hfits.exists_point hvalue (by omega) (List.mem_range.1 hi)
      obtain ⟨sample, hsample⟩ := exists_ofValues_iff.2 ((inBox_set_iff hcorner hp).2 hinside)
      exact ⟨sample, bind_eq_ok.2 ⟨v, hv, hsample⟩⟩
    obtain ⟨samples, hsamples⟩ := exists_mapM_ok hpoints
    exact ⟨samples, bind_eq_ok.2 ⟨step, hstep, hsamples⟩⟩

/-- On the edge of a corner at the lower end, the last point has been made. -/
theorem edgeFits_of_edgePoints {samples : List Sample} (hcorner : InBox ps corner)
    (hp : ps[axis]? = some p) (hlower : corner[axis]? = some p.lower)
    (hcount : count + 1 < Decimal.mantissaBound) (hpos : count ≠ 0)
    (h : edgePoints ps count corner axis p = .ok samples) : EdgeFits p count := by
  have hvalue : corner.getD axis p.upper = p.lower := by
    rw [List.getD_eq_getElem?_getD, hlower]
    rfl
  have hsame : p.lower.SameValue p.lower := (sameValue_iff_toRat_eq _ _).2 rfl
  rw [edgePoints, hvalue, if_neg (by simp [hpos, hsame])] at h
  obtain ⟨step, hstep, hsamples⟩ := bind_eq_ok.1 h
  obtain ⟨hwidth, hstepvalue⟩ := of_boundaryStep hstep hcount
  have hlast : count - 1 ∈ List.range count := List.mem_range.2 (by omega)
  obtain ⟨sample, -, hpoint⟩ := exists_mem_of_forall₂ (mapM_eq_ok.1 hsamples) hlast
  obtain ⟨v, hv, hsample⟩ := bind_eq_ok.1 hpoint
  rw [Nat.sub_add_cancel (by omega)] at hv
  have hinside := (inBox_set_iff hcorner hp).1 (exists_ofValues_iff.1 ⟨sample, hsample⟩)
  have hlast_le := (contains_iff.1 hinside).2
  rw [of_boundaryValue hstepvalue (by omega) hv] at hlast_le
  exact ⟨hwidth, hlast_le⟩

theorem exists_cornerSamples (hvertices : vertexCount ps.length count = some n)
    (hcorner : InBox ps corner) (h : ∀ p ∈ ps, count = 0 ∨ EdgeFits p count) :
    ∃ group, cornerSamples ps count corner = .ok group := by
  obtain ⟨sample, hsample⟩ := exists_ofValues_iff.2 hcorner
  have hedges : ∀ x ∈ ps.zipIdx, ∃ edge, edgePoints ps count corner x.2 x.1 = .ok edge := by
    rintro ⟨p, axis⟩ hx
    have haxis := List.mem_zipIdx_iff_getElem?.1 hx
    have hp := List.mem_of_getElem? haxis
    exact exists_edgePoints hcorner haxis (lt_of_vertexCount hvertices hp) (h p hp)
  obtain ⟨edges, hedges⟩ := exists_mapM_ok hedges
  refine ⟨sample :: edges.flatten, ?_⟩
  simp only [cornerSamples, bind_eq_ok]
  exact ⟨sample, hsample, edges, hedges, rfl⟩

/-- All edges meet in the corner of the lower ends. -/
theorem edgeFits_of_cornerSamples {group : List Sample}
    (hvertices : vertexCount ps.length count = some n) (hpos : count ≠ 0)
    (h : cornerSamples ps count (ps.map Parameter.lower) = .ok group) (hp : p ∈ ps) :
    EdgeFits p count := by
  simp only [cornerSamples, bind_eq_ok] at h
  obtain ⟨sample, -, edges, hedges, -⟩ := h
  obtain ⟨axis, haxis⟩ := List.getElem?_of_mem hp
  have hzip : (p, axis) ∈ ps.zipIdx := List.mem_zipIdx_iff_getElem?.2 haxis
  obtain ⟨edge, -, hedge⟩ := exists_mem_of_forall₂ (mapM_eq_ok.1 hedges) hzip
  have hlower : (ps.map Parameter.lower)[axis]? = some p.lower := by
    rw [List.getElem?_map, haxis]
    rfl
  exact edgeFits_of_edgePoints (inBox_of_mem_corners (map_lower_mem_corners ps)) haxis hlower
    (lt_of_vertexCount hvertices hp) hpos hedge

/-- All corners and the points on their edges are samples, exactly if the edges fit. -/
theorem exists_vertexSamples_iff (hvertices : vertexCount ps.length count = some n) :
    (∃ samples, vertexSamples ps count = .ok samples) ↔
      ∀ p ∈ ps, count = 0 ∨ EdgeFits p count := by
  simp only [vertexSamples, hvertices]
  constructor
  · rintro ⟨samples, h⟩ p hp
    obtain ⟨groups, hgroups, -⟩ := bind_eq_ok.1 h
    obtain ⟨group, -, hgroup⟩ :=
      exists_mem_of_forall₂ (mapM_eq_ok.1 hgroups) (map_lower_mem_corners ps)
    by_cases hzero : count = 0
    · exact .inl hzero
    · exact .inr (edgeFits_of_cornerSamples hvertices hzero hgroup hp)
  · intro h
    have hgroups : ∀ corner ∈ corners ps, ∃ group, cornerSamples ps count corner = .ok group :=
      fun corner hcorner => exists_cornerSamples hvertices (inBox_of_mem_corners hcorner) h
    obtain ⟨groups, hgroups⟩ := exists_mapM_ok hgroups
    exact ⟨groups.flatten, bind_eq_ok.2 ⟨groups, hgroups, rfl⟩⟩

/-! ### Drawn points -/

section Draws

variable {γ : Type} [RandomSource γ]

/-- The fractions that are drawn one after another. -/
def fractions : ℕ → γ → List Decimal
  | 0, _ => []
  | count + 1, source =>
    fraction (RandomSource.next source).1 :: fractions count (RandomSource.next source).2

theorem fractions_bounds {count : ℕ} {source : γ} {t : Decimal} (h : t ∈ fractions count source) :
    0 ≤ t.toRat ∧ t.toRat ≤ 1 := by
  induction count generalizing source with
  | zero => exact absurd h List.not_mem_nil
  | succ count ih =>
    obtain rfl | h := List.mem_cons.1 h
    · exact fraction_bounds _
    · exact ih h

/-- Each value is the one at the fraction that is drawn for it. -/
theorem exists_drawValues_of_fractions {source : γ}
    (h : ∀ x ∈ ps.zip (fractions ps.length source),
      ∃ v, valueAt x.1 x.2 = .ok v ∧ x.1.contains v = true) :
    ∃ values rest, drawValues ps source = .ok (values, rest) ∧ InBox ps values := by
  induction ps generalizing source with
  | nil => exact ⟨[], source, rfl, .nil⟩
  | cons p ps ih =>
    obtain ⟨v, hv, hinside⟩ := h _ List.mem_cons_self
    have hdraw : drawValue p source = .ok (v, (RandomSource.next source).2) :=
      bind_eq_ok.2 ⟨v, hv, rfl⟩
    obtain ⟨values, rest, hvalues, hbox⟩ := ih fun x hx => h x (List.mem_cons_of_mem _ hx)
    refine ⟨v :: values, rest, ?_, .cons hinside hbox⟩
    simp only [drawValues, bind_eq_ok]
    exact ⟨_, hdraw, (values, rest), hvalues, rfl⟩

theorem exists_drawValues (h : ∀ p ∈ ps, DrawsFit p) (source : γ) :
    ∃ values rest, drawValues ps source = .ok (values, rest) ∧ InBox ps values := by
  apply exists_drawValues_of_fractions
  intro x hx
  obtain ⟨hp, ht⟩ := List.of_mem_zip hx
  obtain ⟨hlow, hhigh⟩ := fractions_bounds ht
  exact exists_valueAt (h x.1 hp) hlow hhigh

theorem exists_drawOnto (h : ∀ p ∈ ps, DrawsFit p) (drawn : List Sample) (source : γ) :
    ∃ result, drawOnto ps n drawn source = .ok result := by
  induction n generalizing drawn source with
  | zero => exact ⟨(drawn, source), rfl⟩
  | succ n ih =>
    obtain ⟨values, rest, hvalues, hbox⟩ := exists_drawValues h source
    obtain ⟨sample, hsample⟩ := exists_ofValues_iff.2 hbox
    obtain ⟨result, hresult⟩ := ih (sample :: drawn) rest
    refine ⟨result, ?_⟩
    simp only [drawOnto, drawSample, bind_eq_ok]
    exact ⟨(sample, rest), ⟨(values, rest), hvalues, sample, hsample, rfl⟩, hresult⟩

/-- The source that always hands out the greatest word. -/
def greatestWords : Tape := ⟨fun _ => UInt64.ofNat (2 ^ 64 - 1), 0⟩

theorem drawsFit_of_drawValues {tape rest : Tape} {values : List Decimal}
    (htape : tape.word = greatestWords.word) (h : drawValues ps tape = .ok (values, rest)) :
    ∀ p ∈ ps, DrawsFit p := by
  induction ps generalizing tape values with
  | nil => exact fun p hp => absurd hp List.not_mem_nil
  | cons p ps ih =>
    simp only [drawValues, drawValue, bind_eq_ok] at h
    obtain ⟨_, ⟨v, hv, hpair⟩, ⟨values', rest'⟩, hvalues, hresult⟩ := h
    cases hpair
    cases hresult
    intro q hq
    obtain rfl | hq := List.mem_cons.1 hq
    · apply drawsFit_of_valueAt toRat_fraction_max (v := v)
      have hword : (RandomSource.next tape).1 = UInt64.ofNat (2 ^ 64 - 1) :=
        congrFun htape tape.position
      rw [← hword]
      exact hv
    · have hrest : (RandomSource.unit52 tape).2.word = greatestWords.word := htape
      exact ih hrest hvalues q hq

theorem drawsFit_of_drawSamples {drawn : List Sample} {rest : Tape} (hn : n ≠ 0)
    (h : drawSamples ps n greatestWords = .ok (drawn, rest)) : ∀ p ∈ ps, DrawsFit p := by
  obtain ⟨n, rfl⟩ := Nat.exists_eq_succ_of_ne_zero hn
  simp only [drawSamples, drawOnto, drawSample, bind_eq_ok] at h
  obtain ⟨_, ⟨_, ⟨⟨values, rest'⟩, hvalues, -⟩, -⟩, -⟩ := h
  exact drawsFit_of_drawValues rfl hvalues

end Draws

/-! ### Scenarios -/

/-- A plan whose total is a count can be carried out if both kinds of samples can be. -/
theorem exists_generate_iff {γ : Type} [RandomSource γ] {plan : SamplePlan} {source : γ} {total : ℕ}
    (htotal : plan.total = .ok total) :
    (∃ samples, plan.generate ps count source = .ok samples) ↔
      (plan.vertices = 0 ∨ ∃ samples, vertexSamples ps count = .ok samples) ∧
        ∃ result, drawSamples ps plan.random source = .ok result := by
  simp only [SamplePlan.generate, htotal, bind_eq_ok, Except.ok.injEq, exists_eq_left']
  by_cases hzero : plan.vertices = 0
  · simp only [hzero, if_true, true_or, true_and, bind_eq_ok]
    constructor
    · rintro ⟨_, _, -, result, hresult, -⟩
      exact ⟨result, hresult⟩
    · rintro ⟨result, hresult⟩
      exact ⟨_, [], rfl, result, hresult, rfl⟩
  · simp only [hzero, if_false, false_or, bind_eq_ok]
    constructor
    · rintro ⟨_, vertices, hvertices, result, hresult, -⟩
      exact ⟨⟨vertices, hvertices⟩, result, hresult⟩
    · rintro ⟨⟨vertices, hvertices⟩, result, hresult⟩
      exact ⟨_, vertices, hvertices, result, hresult, rfl⟩

variable {settings : Settings} {scenario : Scenario}

/-- A scenario has the parameters of its settings and the plan of their budget, with a total. -/
theorem parts_of_make (h : Scenario.make settings = .ok scenario) :
    scenario.settings = settings ∧ settings.parameterSpace = .ok scenario.parameters ∧
      SamplePlan.make settings.scenario.budget scenario.parameters.length
        (scenario.template.coefficients.length + 1) = .ok scenario.plan ∧
      ∃ total, scenario.plan.total = .ok total := by
  simp only [Scenario.make, bind_eq_ok] at h
  obtain ⟨ps, hps, _, -, template, -, plan, hplan, total, htotal, hresult⟩ := h
  cases hresult
  exact ⟨rfl, hps, hplan, total, htotal⟩

theorem settings_of_make (h : Scenario.make settings = .ok scenario) : scenario.settings = settings :=
  (parts_of_make h).1

theorem vertexCount_of_make (h : Scenario.make settings = .ok scenario)
    (hvertices : scenario.plan.vertices ≠ 0) :
    vertexCount scenario.parameters.length settings.scenario.boundaryPoints =
      some scenario.plan.vertices := by
  obtain ⟨-, -, hplan, -⟩ := parts_of_make h
  obtain ⟨n, hn, hplan⟩ := bind_eq_ok.1 hplan
  rw [← Except.ok.inj hplan] at hvertices ⊢
  simp only [SamplePlan.vertexShare, ScenarioSettings.budget] at hn
  split at hn
  · cases hn
    exact absurd rfl hvertices
  all_goals
    split at hn
    · rename_i hcount
      cases hn
      exact hcount
    · cases hn

/-- Which scenarios can be sampled whatever the source hands out. -/
theorem samples_succeed_iff (h : Scenario.make settings = .ok scenario) :
    (∀ (γ : Type) [RandomSource γ] (source : γ),
        ∃ samples, scenario.samples source = .ok samples) ↔
      ∀ p ∈ scenario.parameters,
        (scenario.plan.random = 0 ∨ DrawsFit p) ∧
          (scenario.plan.vertices = 0 ∨ settings.scenario.boundaryPoints = 0 ∨
            EdgeFits p settings.scenario.boundaryPoints) := by
  obtain ⟨-, -, -, total, htotal⟩ := parts_of_make h
  simp only [Scenario.samples, exists_generate_iff htotal, settings_of_make h]
  constructor
  · intro hsucceed p hp
    -- The greatest words draw the upper ends, which need the whole widths.
    obtain ⟨hvertices, ⟨drawn, rest⟩, hdrawn⟩ := hsucceed Tape greatestWords
    constructor
    · by_cases hzero : scenario.plan.random = 0
      · exact .inl hzero
      · exact .inr (drawsFit_of_drawSamples hzero hdrawn p hp)
    · by_cases hzero : scenario.plan.vertices = 0
      · exact .inl hzero
      · rw [exists_vertexSamples_iff (vertexCount_of_make h hzero)] at hvertices
        exact .inr (hvertices.resolve_left hzero p hp)
  · intro hfits γ _ source
    constructor
    · by_cases hzero : scenario.plan.vertices = 0
      · exact .inl hzero
      · rw [exists_vertexSamples_iff (vertexCount_of_make h hzero)]
        exact .inr fun p hp => (hfits p hp).2.resolve_left hzero
    · by_cases hzero : scenario.plan.random = 0
      · rw [hzero]
        exact ⟨_, rfl⟩
      · obtain ⟨⟨drawn, rest⟩, hdrawn⟩ := exists_drawOnto (n := scenario.plan.random)
          (fun p hp => (hfits p hp).1.resolve_left hzero) [] source
        exact ⟨(drawn.reverse, rest), bind_eq_ok.2 ⟨_, hdrawn, rfl⟩⟩

/-- A few units of the last place. -/
def lastPlace (units : Fin 10) : Decimal := (Decimal.ofParts? false units 28).getD .one

/-- Four points on the edge of an interval of that width. -/
def narrowSettings (units : Fin 10) : Settings where
  parameters := [⟨"p", .zero, lastPlace units⟩]
  oracle := { backend := .synthetic, expression := some "0.5" }
  scenario :=
    { degree := 0, samples := some 6, vertices := .replace, boundaryPoints := 4, seed := some 7 }

theorem fiveUnits_sampled :
    ∃ scenario, Scenario.make (narrowSettings 5) = .ok scenario ∧
      ∀ (γ : Type) [RandomSource γ] (source : γ),
        ∃ samples, scenario.samples source = .ok samples := by
  refine ⟨_, rfl, ?_⟩
  apply (samples_succeed_iff (rfl : Scenario.make (narrowSettings 5) = .ok _)).2
  decide +kernel

/-- Three units in five pieces make a step of one unit, and the fourth point is outside. -/
theorem threeUnits_leave_interval :
    (narrowSettings 3).validate = .ok () ∧
      ∃ scenario, Scenario.make (narrowSettings 3) = .ok scenario ∧
        scenario.samples (ChaCha.Generator.ofSeed 7) =
          .error (.invalidInput (.outsideInterval (lastPlace 4) .zero (lastPlace 3) "p")) := by
  refine ⟨by decide +kernel, _, rfl, ?_⟩
  decide +kernel

end MarkovFit.Proofs
