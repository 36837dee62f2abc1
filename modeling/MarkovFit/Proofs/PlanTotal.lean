import MarkovFit.Proofs.BoxVertices

/-!
# The total of a plan

A plan counts the samples of each kind, and its total has to be a count of 64 bits. Without vertices,
and with vertices in place of random samples, the sum always is one. Vertices besides the random
samples are checked on their own only: together with the number that is asked for they may be too
many, and a plan that was made has no total then.
-/

namespace MarkovFit.Proofs

open Sampling

variable {budget : SampleBudget} {plan : SamplePlan} {parameters coefficients : ℕ}

/-! ### Plans -/

/-- The number of samples that a budget asks for. -/
def requestedSamples (budget : SampleBudget) (coefficients : ℕ) : ℕ :=
  budget.samples.getD (requiredSamples budget.epsilon budget.eta coefficients)

/-- The number of vertices that a budget asks for, even if it is no count. -/
def vertexDemand (budget : SampleBudget) (parameters : ℕ) : ℕ :=
  if budget.vertices = .none then 0 else vertexTotal parameters budget.boundaryPoints

theorem vertexTotal_pos (dimensions count : ℕ) : 0 < vertexTotal dimensions count := by
  unfold vertexTotal
  positivity

theorem vertexDemand_eq_zero_iff : vertexDemand budget parameters = 0 ↔ budget.vertices = .none := by
  have hpos := vertexTotal_pos parameters budget.boundaryPoints
  unfold vertexDemand
  split
  · simp only [*]
  · simp only [*, iff_false]
    omega

theorem vertexShare_eq (budget : SampleBudget) (parameters : ℕ) :
    SamplePlan.vertexShare budget parameters =
      if vertexDemand budget parameters < 2 ^ 64 then .ok (vertexDemand budget parameters)
      else .error (.invalidInput (.tooManyVertices parameters)) := by
  unfold SamplePlan.vertexShare vertexDemand
  cases budget.vertices with
  | none => rfl
  | replace | additive =>
    simp only [vertexCount_eq, reduceCtorEq, if_false]
    by_cases hfits : vertexTotal parameters budget.boundaryPoints < 2 ^ 64
    · simp only [if_pos hfits]
    · simp only [if_neg hfits]

/-- A plan is made exactly if its vertices are a count. -/
theorem planMake_eq_ok_iff : SamplePlan.make budget parameters coefficients = .ok plan ↔
    vertexDemand budget parameters < 2 ^ 64 ∧
      plan.requested = requestedSamples budget coefficients ∧
      plan.vertices = vertexDemand budget parameters ∧
      plan.random = if budget.vertices = .replace then plan.requested - plan.vertices
        else plan.requested := by
  simp only [SamplePlan.make, vertexShare_eq, bind_eq_ok]
  obtain ⟨requested, vertices, random⟩ := plan
  constructor
  · rintro ⟨n, hn, hplan⟩
    cases hplan
    split at hn
    · cases hn
      exact ⟨‹_›, rfl, rfl, rfl⟩
    · cases hn
  · rintro ⟨hfits, hrequested, hvertices, hrandom⟩
    refine ⟨_, if_pos hfits, ?_⟩
    dsimp only at hrequested hvertices hrandom
    rw [hrandom, hvertices, hrequested]
    rfl

theorem exists_planMake (coefficients : ℕ) (h : vertexDemand budget parameters < 2 ^ 64) :
    ∃ plan, SamplePlan.make budget parameters coefficients = .ok plan := by
  let requested := requestedSamples budget coefficients
  let vertices := vertexDemand budget parameters
  let random := if budget.vertices = .replace then requested - vertices else requested
  exact ⟨⟨requested, vertices, random⟩, planMake_eq_ok_iff.2 ⟨h, rfl, rfl, rfl⟩⟩

/-! ### Totals -/

theorem toNatSaturating_lt (x : Float) : Double.toNatSaturating x < 2 ^ 64 := by
  unfold Double.toNatSaturating
  split
  · decide
  · split <;> decide
  · split
    · decide
    · exact (Nat.min_le_right _ _).trans_lt (by decide)

/-- If a given number of samples is a count, so is the one that is computed in its place. -/
theorem requestedSamples_lt (h : ∀ n, budget.samples = some n → n < 2 ^ 64) (coefficients : ℕ) :
    requestedSamples budget coefficients < 2 ^ 64 := by
  unfold requestedSamples
  cases hsamples : budget.samples with
  | none => exact toNatSaturating_lt _
  | some n => exact h n hsamples

theorem total_eq (plan : SamplePlan) : plan.total =
    if plan.vertices + plan.random < 2 ^ 64 then .ok (plan.vertices + plan.random)
      else .error (.fault .countOverflow) := by
  by_cases hfits : plan.vertices + plan.random < 2 ^ 64
  · have hcount : asCount (plan.vertices + plan.random) = some (plan.vertices + plan.random) :=
      if_pos hfits
    simp only [SamplePlan.total, hcount, if_pos hfits]
  · have hcount : asCount (plan.vertices + plan.random) = none := if_neg hfits
    simp only [SamplePlan.total, hcount, if_neg hfits]

theorem total_eq_ok_iff {total : ℕ} : plan.total = .ok total ↔
    total = plan.vertices + plan.random ∧ plan.vertices + plan.random < 2 ^ 64 := by
  rw [total_eq]
  split
  · simp only [*, and_true, Except.ok.injEq, eq_comm]
  · simp only [*, and_false, reduceCtorEq]

/-- The number of samples in all that a budget stands for, even if it is no count. -/
def sampleDemand (budget : SampleBudget) (parameters coefficients : ℕ) : ℕ :=
  match budget.vertices with
  | .none => requestedSamples budget coefficients
  | .replace => max (vertexTotal parameters budget.boundaryPoints) (requestedSamples budget coefficients)
  | .additive => vertexTotal parameters budget.boundaryPoints + requestedSamples budget coefficients

theorem planned_eq_sampleDemand (h : SamplePlan.make budget parameters coefficients = .ok plan) :
    plan.vertices + plan.random = sampleDemand budget parameters coefficients := by
  obtain ⟨-, hrequested, hvertices, hrandom⟩ := planMake_eq_ok_iff.1 h
  rw [hrandom, hrequested, hvertices, sampleDemand, vertexDemand]
  cases budget.vertices with
  | none => simp only [if_true, reduceCtorEq, if_false, Nat.zero_add]
  | replace => simp only [if_true, reduceCtorEq, if_false, add_tsub_eq_max]
  | additive => simp only [reduceCtorEq, if_false]

/-- Both kinds of samples together are at least as many as are asked for. -/
theorem requested_le (h : SamplePlan.make budget parameters coefficients = .ok plan) :
    plan.requested ≤ plan.vertices + plan.random := by
  obtain ⟨-, -, -, hrandom⟩ := planMake_eq_ok_iff.1 h
  rw [hrandom]
  split <;> omega

/-- The vertices come on top of the samples that are asked for, and both are too many for a count. -/
def Overbooked (budget : SampleBudget) (parameters coefficients : ℕ) : Prop :=
  budget.vertices = .additive ∧
    2 ^ 64 ≤ vertexTotal parameters budget.boundaryPoints + requestedSamples budget coefficients

theorem overbooked_iff (hsamples : ∀ n, budget.samples = some n → n < 2 ^ 64)
    (h : SamplePlan.make budget parameters coefficients = .ok plan) :
    2 ^ 64 ≤ plan.vertices + plan.random ↔ Overbooked budget parameters coefficients := by
  obtain ⟨hfits, -⟩ := planMake_eq_ok_iff.1 h
  have hlt := requestedSamples_lt hsamples coefficients
  rw [planned_eq_sampleDemand h, sampleDemand, Overbooked]
  rw [vertexDemand] at hfits
  -- Without vertices the sum is the number that is asked for, and with vertices in place of samples it is
  -- the larger of the two numbers; both are counts.
  cases hmode : budget.vertices with
  | none =>
    simp only [reduceCtorEq, false_and, iff_false]
    omega
  | replace =>
    simp only [hmode, reduceCtorEq, if_false] at hfits
    simp only [reduceCtorEq, false_and, iff_false]
    omega
  | additive => simp only [true_and]

/-- The total is the sum and covers what is asked for, unless a budget is overbooked. Such a plan has
no total. -/
theorem total_exact_iff_not_overbooked (hsamples : ∀ n, budget.samples = some n → n < 2 ^ 64)
    (h : SamplePlan.make budget parameters coefficients = .ok plan) :
    (¬Overbooked budget parameters coefficients → plan.vertices + plan.random < 2 ^ 64 ∧
        plan.total = .ok (plan.vertices + plan.random) ∧
        plan.requested ≤ plan.vertices + plan.random) ∧
      (Overbooked budget parameters coefficients → 2 ^ 64 ≤ plan.vertices + plan.random ∧
        plan.total = .error (.fault .countOverflow)) := by
  have hiff := overbooked_iff hsamples h
  constructor
  · intro hnot
    have hfits : plan.vertices + plan.random < 2 ^ 64 := Nat.not_le.1 (mt hiff.1 hnot)
    exact ⟨hfits, total_eq_ok_iff.2 ⟨rfl, hfits⟩, requested_le h⟩
  · intro hoverbooked
    have hlarge := hiff.2 hoverbooked
    exact ⟨hlarge, (total_eq plan).trans (if_neg (Nat.not_lt.2 hlarge))⟩

/-- Ten samples and the corners of the box. -/
def tenAndCorners : SampleBudget := ⟨some 10, 0.05, 0.05, .additive, 0⟩

theorem tenAndCorners_total : ∃ plan, SamplePlan.make tenAndCorners 2 7 = .ok plan ∧
    ¬Overbooked tenAndCorners 2 7 ∧ plan.total = .ok (plan.vertices + plan.random) ∧
      plan.requested ≤ plan.vertices + plan.random := by
  have hsamples : ∀ n, tenAndCorners.samples = some n → n < 2 ^ 64 := by
    intro n hn
    cases hn
    decide
  have hnot : ¬Overbooked tenAndCorners 2 7 := fun h => absurd h.2 (by decide)
  refine ⟨⟨10, 4, 10⟩, rfl, hnot, ?_⟩
  exact ((total_exact_iff_not_overbooked hsamples rfl).1 hnot).2

/-- As many points on an edge, and as many samples besides, as a signed number of 64 bits can be. -/
def longEdge : Settings where
  parameters := [⟨"p", .zero, .one⟩]
  oracle := { backend := .synthetic, expression := some "0.5" }
  scenario :=
    { degree := 0, samples := some (2 ^ 63 - 1), vertices := .additive,
      boundaryPoints := 2 ^ 63 - 1, seed := some 7 }

/-- The settings are accepted and the plan is made, and its total is one more than a count can be. -/
theorem longEdge_overbooked : longEdge.validate = .ok () ∧
    ∃ plan, SamplePlan.make longEdge.scenario.budget 1 2 = .ok plan ∧
      plan.requested = 2 ^ 63 - 1 ∧ plan.vertices + plan.random = 2 ^ 64 ∧
      plan.total = .error (.fault .countOverflow) := by
  refine ⟨by decide +kernel, _, rfl, ?_⟩
  decide +kernel

end MarkovFit.Proofs
