import MarkovFit.Proofs.BasicColumns
import MarkovFit.Proofs.PrimalPoint

/-!
# Programs without a solution

The method reports that there is no solution in two places. Where phase one leaves something in the
artificial columns, the reduced costs of the artificial columns name a ray along which no inequality
is lost and the objective gains. Where a column of phase two can grow without bound, every feasible
point would have a negative slack. Both arguments need signs that are exact. The tolerances are
absolute, so that a gain or an entry below them is taken for none, whatever the size of the
coefficients, and the slack of the ratio test can leave a right-hand side below zero, which is then
clamped. With exact numbers a program that has an optimum is reported to have none in no other way.
-/

namespace MarkovFit.Proofs

open Simplex

variable {n : Nat} {s : InequalitySystem ℚ n} {t : Tableau ℚ n (width s)}

/-! ## Rays -/

/-- The point at `step` times a ray from a point. -/
def alongRay (x v : Vector ℚ n) (step : ℚ) : Vector ℚ n :=
  Vector.ofFn fun j => x.get j + step * v.get j

lemma dot_alongRay (a x v : Vector ℚ n) (step : ℚ) :
    dot a (alongRay x v step) = dot a x + step * dot a v := by
  have hget : ∀ j, (alongRay x v step).get j = x.get j + step * v.get j := fun j => Vector.get_ofFn _ j
  simp only [dot_eq_sum, hget, mul_add, Finset.sum_add_distrib, Finset.mul_sum]
  congr 1
  exact Finset.sum_congr rfl fun j _ => by ring

/-- A feasible list has a value for each unknown. -/
lemma Feasible.exists_vector {p : LinearProgram} (h : p.WellFormed) {x : List ℚ}
    (hx : Feasible p x) : ∃ v : Vector ℚ p.unknowns.length, v.toList = x :=
  ⟨⟨x.toArray, by rw [List.size_toArray, ← hx.1.length_eq, h.1]⟩, by simp⟩

lemma feasible_iff {p : LinearProgram} (h : p.WellFormed) (x : Vector ℚ p.unknowns.length) :
    Feasible p x.toList ↔ ∀ i ∈ (rationalSystem p h).inequalities, i.bound ≤ dot i.coefficients x := by
  rw [← feasibleWithin_zero, ← inequalitiesHold_iff h]
  simp only [InequalityHolds, sub_zero]

/-- Along a ray that loses no inequality and gains, the objective gets beyond every bound. -/
theorem unboundedObjective_of_ray {p : LinearProgram} (h : p.WellFormed)
    {v : Vector ℚ p.unknowns.length}
    (hray : ∀ i ∈ (rationalSystem p h).inequalities, 0 ≤ dot i.coefficients v)
    (hgain : dot (rationalSystem p h).weights v < 0) (hfeasible : ∃ x, Feasible p x) :
    UnboundedObjective p := by
  obtain ⟨_, hx⟩ := hfeasible
  obtain ⟨x, rfl⟩ := hx.exists_vector h
  intro bound
  let weights := (rationalSystem p h).weights
  -- So far along the ray the objective is beyond the bound.
  let step := max 0 ((dot weights x - directionSign p.direction * bound + 1) / -dot weights v)
  have hstep : dot weights x + step * dot weights v < directionSign p.direction * bound := by
    have hle : dot weights x - directionSign p.direction * bound + 1 ≤ step * -dot weights v :=
      (div_le_iff₀ (neg_pos.2 hgain)).1 (le_max_right 0 _)
    linarith
  refine ⟨(alongRay x v step).toList, ?_, ?_⟩
  · rw [feasible_iff h] at hx ⊢
    intro i hi
    rw [dot_alongRay]
    exact (hx i hi).trans (le_add_of_nonneg_right (mul_nonneg (le_max_left 0 _) (hray i hi)))
  · rw [← dot_alongRay, dot_weights] at hstep
    cases hdirection : p.direction with
    | min => simpa [hdirection, directionSign] using hstep
    | max => simpa [hdirection, directionSign] using hstep

/-! ## What a tolerance can hide -/

/-- Whether the reduced cost of an inequality promises a gain that is within the tolerance. -/
def HidesGain (s : InequalitySystem ℚ n) (t : Tableau ℚ n (width s)) : Prop :=
  ∃ k, -Tableau.optimalityTolerance ≤ t.cost.entry (column s k) ∧ t.cost.entry (column s k) < 0

instance : Decidable (HidesGain s t) :=
  inferInstanceAs (Decidable (∃ _ : Fin _, _ ∧ _))

/-- Whether a column with a gain cannot enter because of the pivot threshold alone: a line has a
positive entry there, or has an artificial column to keep at zero. -/
def HidesPivot (s : InequalitySystem ℚ n) (limit : Nat) (t : Tableau ℚ n (width s)) : Prop :=
  ∃ c ∈ t.improving limit, t.eligible c = [] ∧
    ∃ i, 0 < (t.lines.get i).entry c ∨
      s.inequalities.length ≤ (t.basis.get i).val ∧ (t.lines.get i).entry c ≠ 0

instance (limit : Nat) : Decidable (HidesPivot s limit t) :=
  inferInstanceAs (Decidable (∃ c ∈ t.improving limit, t.eligible c = [] ∧ ∃ _ : Fin n, _ ∨ _ ∧ _))

/-- Whether a tolerance has a part in the verdict that there is no solution, where phase one has ended
at a tableau: a clamped right-hand side, a hidden gain or a hidden pivot in phase one, or a hidden
pivot at the end of phase two. -/
def ToleranceDecidesAfter (pivots : Nat) (s : InequalitySystem ℚ n) (t : Tableau ℚ n (width s)) : Prop :=
  if isInfeasible s t then
    Overshoots (width s) pivots 0 (start s) ∨ HidesGain s t ∨ HidesPivot s (width s) t
  else
    match Tableau.optimize s.inequalities.length pivots 0 (secondStart s t) with
    | .outOfPivots | .optimal _ => False
    | .unbounded t' => HidesPivot s s.inequalities.length t'

instance (pivots : Nat) : Decidable (ToleranceDecidesAfter pivots s t) := by
  unfold ToleranceDecidesAfter
  split
  · infer_instance
  · split <;> infer_instance

/-- The same for a whole run. -/
def ToleranceDecides (pivots : Nat) (s : InequalitySystem ℚ n) : Prop :=
  match Tableau.optimize (width s) pivots 0 (start s) with
  | .outOfPivots => False
  | .optimal t | .unbounded t => ToleranceDecidesAfter pivots s t

instance (pivots : Nat) : Decidable (ToleranceDecides pivots s) := by
  unfold ToleranceDecides
  split <;> infer_instance

/-! ## Phase one -/

/-- The ray that the artificial columns of phase one name. -/
def ray (s : InequalitySystem ℚ n) (t : Tableau ℚ n (width s)) : Vector ℚ n :=
  Vector.ofFn fun j => (signs s).get j * (t.cost.entry (artificial s j) - 1)

lemma ray_get (j : Fin n) : (ray s t).get j = (signs s).get j * (t.cost.entry (artificial s j) - 1) :=
  Vector.get_ofFn _ j

lemma artificialCost_artificial (j : Fin n) : (artificialCost s).entry (artificial s j) = 1 :=
  (artificialCost_get _).trans (if_pos ⟨Nat.le_add_right _ _, (artificial s j).isLt⟩)

lemma artificialCost_column (k : Fin s.inequalities.length) :
    (artificialCost s).entry (column s k) = 0 :=
  (artificialCost_get _).trans (if_neg fun h => absurd k.isLt (not_lt.2 h.1))

lemma artificialCost_rhs : (artificialCost s).rhs = 0 :=
  (artificialCost_get _).trans (if_neg fun h => absurd h.2 (lt_irrefl _))

/-- The reduced cost of an inequality in phase one is its slope along the ray. -/
theorem entry_column_eq_slope {k : Fin s.inequalities.length}
    (h : CostCombines (artificialCost s) (column s k).castSucc t) :
    t.cost.entry (column s k) = dot (s.inequalities.get k).coefficients (ray s t) := by
  have hcost : t.cost.entry (column s k) - (artificialCost s).entry (column s k) =
      ∑ j, (t.cost.entry (artificial s j) - (artificialCost s).entry (artificial s j)) *
        (line s j).entry (column s k) := h
  rw [artificialCost_column, sub_zero] at hcost
  rw [hcost, dot_eq_sum]
  refine Finset.sum_congr rfl fun j _ => ?_
  rw [artificialCost_artificial, line_column, ray_get]
  ring

/-- The cost of phase one is the slope of the objective along the ray. -/
theorem rhs_eq_slope (h : CostCombines (artificialCost s) (Fin.last _) t) :
    t.cost.rhs = dot s.weights (ray s t) := by
  have hcost : t.cost.rhs - (artificialCost s).rhs =
      ∑ j, (t.cost.entry (artificial s j) - (artificialCost s).entry (artificial s j)) *
        (line s j).rhs := h
  rw [artificialCost_rhs, sub_zero] at hcost
  rw [hcost, dot_eq_sum]
  refine Finset.sum_congr rfl fun j _ => ?_
  rw [artificialCost_artificial, line_rhs, ray_get]
  ring

lemma foldl_magnitude_nonneg {xs : List ℚ} {a : ℚ} (ha : 0 ≤ a) :
    0 ≤ (xs.map Scalar.magnitude).foldl (· + ·) a := by
  induction xs generalizing a with
  | nil => exact ha
  | cons x xs ih =>
    rw [List.map_cons, List.foldl_cons]
    refine ih (add_nonneg ha ?_)
    rw [magnitude_eq_abs]
    exact abs_nonneg x

lemma rhs_neg_of_isInfeasible (h : isInfeasible s t = true) : t.cost.rhs < 0 := by
  have hweights : (0 : ℚ) ≤ (s.weights.map Scalar.magnitude).foldl (· + ·) 0 := by
    rw [foldl_add_eq_sum, zero_add]
    refine Finset.sum_nonneg fun j _ => ?_
    rw [Vector.get_map, magnitude_eq_abs]
    exact abs_nonneg _
  have hscale : (0 : ℚ) ≤ 1 + (s.surplus.map Scalar.magnitude).foldl (· + ·)
      ((s.weights.map Scalar.magnitude).foldl (· + ·) 0) :=
    add_nonneg zero_le_one (foldl_magnitude_nonneg hweights)
  have htolerance : (0 : ℚ) ≤ residualTolerance := by
    rw [residualTolerance_eq]
    norm_num
  have hlt := lt_eq_true.1 h
  exact neg_pos.1 ((mul_nonneg htolerance hscale).trans_lt hlt)

/-- What every pivot of phase one keeps. -/
theorem costCombines_of_not_overshoots {pivots : Nat} (hend : FirstPhaseEnds pivots s t)
    (hclean : ¬Overshoots (width s) pivots 0 (start s)) (k : Fin (width s + 1)) :
    CostCombines (artificialCost s) k t :=
  (optimize_invariant_of_not_overshoots
    (P := fun t => LinesCombine k t ∧ CostCombines (artificialCost s) k t)
    (fun _ _ _ _ h => ⟨h.1.pivot, h.2.pivot h.1⟩) hclean
    ⟨linesCombine_start k, costCombines_start k⟩ hend).2

/-- A column with a gain in phase one has a positive entry: the cost is that of the artificial
columns, and cannot fall for ever. -/
theorem exists_pos_of_entry_neg (h : Reaches (width s) (start s) t) {c : Fin (width s)}
    (hc : t.cost.entry c < 0) : ∃ i, 0 < (t.lines.get i).entry c := by
  by_contra! hentries
  obtain ⟨hunit, hfree⟩ := h.basis unitBasis_start freeBasis_start
  have hnonneg : ∀ c : Fin (width s), 0 ≤ (artificialCost s).entry c := by
    intro c
    have hget : (artificialCost s).entry c = _ := artificialCost_get c.castSucc
    rw [hget]
    split <;> norm_num
  -- The cost that is left over the artificial one comes from the basic columns, with a minus sign.
  have hterm : ∀ i, 0 ≤ (t.cost.entry (t.basis.get i) - (artificialCost s).entry (t.basis.get i)) *
      (t.lines.get i).entry c := by
    intro i
    rw [hfree i, zero_sub]
    exact mul_nonneg_of_nonpos_of_nonpos (neg_nonpos.2 (hnonneg _)) (hentries i)
  have hle : 0 ≤ t.cost.entry c - (artificialCost s).entry c :=
    combination_nonneg hunit (fun c => (combine_of_firstPhase c h).1)
      (fun c => (combine_of_firstPhase c h).2) hterm
  linarith [hnonneg c]

/-- Phase one does not come to an end without a pivot but for the threshold. -/
theorem hidesPivot_of_unbounded {pivots : Nat}
    (h : Tableau.optimize (width s) pivots 0 (start s) = .unbounded t) : HidesPivot s (width s) t := by
  obtain ⟨hreaches, c, hc, hnone⟩ := optimize_eq_unbounded h
  have hneg : t.cost.entry c < 0 :=
    (mem_improving.1 hc).2.trans (neg_lt_zero.2 optimalityTolerance_pos)
  obtain ⟨i, hi⟩ := exists_pos_of_entry_neg hreaches hneg
  exact ⟨c, hc, hnone, i, .inl hi⟩

/-- A phase one that ends with something left, and nothing hidden, names a ray that gains. -/
theorem ray_of_isInfeasible {pivots : Nat}
    (hend : Tableau.optimize (width s) pivots 0 (start s) = .optimal t)
    (hclean : ¬Overshoots (width s) pivots 0 (start s)) (hgain : ¬HidesGain s t)
    (hinfeasible : isInfeasible s t = true) :
    (∀ i ∈ s.inequalities, 0 ≤ dot i.coefficients (ray s t)) ∧ dot s.weights (ray s t) < 0 := by
  have hcosts := costCombines_of_not_overshoots (.inl hend) hclean
  constructor
  · intro i hi
    obtain ⟨k, rfl⟩ := List.mem_iff_get.1 hi
    rw [← entry_column_eq_slope (hcosts _)]
    by_contra! hneg
    refine hgain ⟨k, not_lt.1 fun hlt => ?_, hneg⟩
    have hmem : column s k ∈ t.improving (width s) := mem_improving.2 ⟨(column s k).isLt, hlt⟩
    rw [(optimize_eq_optimal hend).2] at hmem
    exact List.not_mem_nil hmem
  · rw [← rhs_eq_slope (hcosts _)]
    exact rhs_neg_of_isInfeasible hinfeasible

/-! ## Phase two -/

/-- What phase two keeps of the basis. -/
theorem unitBasis_of_secondPhase (h : SecondPhase s t) : UnitBasis t ∧ FreeBasis t := by
  obtain ⟨t₁, hfirst, hsecond⟩ := h
  have hunit := (hfirst.basis unitBasis_start freeBasis_start).1
  exact hsecond.basis hunit.secondStart (freeBasis_secondStart hunit)

/-- The costs of phase two at a point of one's own: the slacks in the columns of the inequalities. -/
def slackRow (s : InequalitySystem ℚ n) (x : Vector ℚ n) (k : Fin (width s + 1)) : ℚ :=
  (dualCost s).get k + ∑ j, (signs s).get j * x.get j * (line s j).get k

lemma slackRow_column (x : Vector ℚ n) (k : Fin s.inequalities.length) :
    slackRow s x (column s k).castSucc =
      dot (s.inequalities.get k).coefficients x - (s.inequalities.get k).bound := by
  have hterm : ∀ j, (signs s).get j * x.get j * (line s j).entry (column s k) =
      (s.inequalities.get k).coefficients.get j * x.get j := by
    intro j
    rw [line_column]
    linear_combination x.get j * (s.inequalities.get k).coefficients.get j * signs_mul_self (s := s) j
  have hrow : slackRow s x (column s k).castSucc = (dualCost s).entry (column s k) +
      ∑ j, (signs s).get j * x.get j * (line s j).entry (column s k) := rfl
  rw [hrow, dualCost_column, dot_eq_sum]
  simp only [hterm]
  ring

lemma slackRow_artificial (x : Vector ℚ n) (j : Fin n) :
    slackRow s x (artificial s j).castSucc = (signs s).get j * x.get j := by
  have hterm : ∀ i, (signs s).get i * x.get i * (line s i).entry (artificial s j) =
      if i = j then (signs s).get i * x.get i else 0 := by
    intro i
    rw [line_artificial, mul_ite, mul_one, mul_zero]
  have hrow : slackRow s x (artificial s j).castSucc = (dualCost s).entry (artificial s j) +
      ∑ i, (signs s).get i * x.get i * (line s i).entry (artificial s j) := rfl
  rw [hrow, dualCost_artificial, zero_add]
  simp only [hterm]
  rw [Finset.sum_ite_eq', if_pos (Finset.mem_univ j)]

/-- The reduced costs and the slacks of any point differ by a combination of lines. -/
theorem isCombination_sub_slackRow (h : SecondPhase s t) (x : Vector ℚ n) (c : Fin (width s)) :
    IsCombination s c.castSucc fun k => t.cost.get k - slackRow s x k := by
  have hcost : t.cost.get c.castSucc - (dualCost s).get c.castSucc =
      ∑ j, (t.cost.get (artificial s j).castSucc - (dualCost s).get (artificial s j).castSucc) *
        (line s j).get c.castSucc := (combine_of_secondPhase c h).2
  have hdual : ∀ j, (dualCost s).get (artificial s j).castSucc = 0 := dualCost_artificial
  unfold IsCombination
  simp only [hdual, sub_zero] at hcost
  simp only [slackRow_artificial, sub_mul, Finset.sum_sub_distrib, ← hcost]
  rw [slackRow]
  ring

/-- A column of phase two that gains and has nothing to stop it leaves no feasible point. -/
theorem violated_of_unbounded {pivots : Nat} {t₁ : Tableau ℚ n (width s)}
    (hfirst : FirstPhaseEnds pivots s t₁)
    (h : Tableau.optimize s.inequalities.length pivots 0 (secondStart s t₁) = .unbounded t)
    (hpivot : ¬HidesPivot s s.inequalities.length t) (x : Vector ℚ n) :
    ∃ i ∈ s.inequalities, dot i.coefficients x < i.bound := by
  obtain ⟨hreaches, c, hc, hnone⟩ := optimize_eq_unbounded h
  have hphase : SecondPhase s t := ⟨t₁, hfirst.reaches, hreaches⟩
  obtain ⟨hunit, hfree⟩ := unitBasis_of_secondPhase hphase
  by_contra! hall
  have hslack : ∀ c : Fin (width s), c.val < s.inequalities.length → 0 ≤ slackRow s x c.castSucc := by
    intro c hc
    have hcolumn : c = column s ⟨c.val, hc⟩ := rfl
    rw [hcolumn, slackRow_column]
    exact sub_nonneg.2 (hall _ (List.get_mem _ _))
  have hentries : ∀ i, (t.lines.get i).entry c ≤ 0 ∧
      (s.inequalities.length ≤ (t.basis.get i).val → (t.lines.get i).entry c = 0) := by
    intro i
    constructor
    · exact not_lt.1 fun hpos => hpivot ⟨c, hc, hnone, i, .inl hpos⟩
    · exact fun hbasis => not_not.1 fun hne => hpivot ⟨c, hc, hnone, i, .inr ⟨hbasis, hne⟩⟩
  -- A basic column is one of an inequality, with a slack, or its line has nothing in this column.
  have hterm : ∀ i, 0 ≤ (t.cost.entry (t.basis.get i) - slackRow s x (t.basis.get i).castSucc) *
      (t.lines.get i).entry c := by
    intro i
    rw [hfree i, zero_sub]
    by_cases hbasis : (t.basis.get i).val < s.inequalities.length
    · exact mul_nonneg_of_nonpos_of_nonpos (neg_nonpos.2 (hslack _ hbasis)) (hentries i).1
    · rw [(hentries i).2 (not_lt.1 hbasis), mul_zero]
  have hle : 0 ≤ t.cost.entry c - slackRow s x c.castSucc :=
    combination_nonneg hunit (fun c => (combine_of_secondPhase c hphase).1)
      (isCombination_sub_slackRow hphase x) hterm
  obtain ⟨hlimit, hcost⟩ := mem_improving.1 hc
  linarith [hslack c hlimit, optimalityTolerance_pos]

/-! ## The verdict -/

instance (v : Verdict ℚ n) : Decidable (v = .noSolution) :=
  match v with
  | .noSolution => .isTrue rfl
  | .point _ => .isFalse nofun
  | .defect _ => .isFalse nofun

lemma exists_firstPhaseEnds {pivots : Nat} (h : solve pivots s = .noSolution) :
    ∃ t, FirstPhaseEnds pivots s t := by
  unfold solve at h
  split at h
  · cases h
  · exact ⟨_, .inl ‹_›⟩
  · exact ⟨_, .inr ‹_›⟩

lemma solve_eq {pivots : Nat} (hend : FirstPhaseEnds pivots s t) : solve pivots s =
    if isInfeasible s t then .noSolution
    else secondPhase pivots s ((List.finRange n).foldl (driveOut s) t) := by
  obtain hend | hend := hend
  · rw [solve, hend]
  · rw [solve, hend]

lemma toleranceDecides_iff {pivots : Nat} (hend : FirstPhaseEnds pivots s t) :
    ToleranceDecides pivots s ↔ ToleranceDecidesAfter pivots s t := by
  obtain hend | hend := hend
  · rw [ToleranceDecides, hend]
  · rw [ToleranceDecides, hend]

/-- The checks at the end of phase two never take a point for none. -/
lemma secondPhase_eq_noSolution {pivots : Nat}
    (h : secondPhase pivots s ((List.finRange n).foldl (driveOut s) t) = .noSolution) :
    ∃ t', Tableau.optimize s.inequalities.length pivots 0 (secondStart s t) = .unbounded t' := by
  unfold secondPhase at h
  split at h
  · cases h
  · exact ⟨_, ‹_›⟩
  · unfold check at h
    dsimp only at h
    split at h
    · cases h
    · split at h <;> cases h

/-- With exact numbers a program is reported to have no solution only if no point is feasible or the
objective is unbounded, unless a tolerance has a part in the verdict. -/
theorem infeasible_or_unbounded_of_noSolution (p : LinearProgram) (h : p.WellFormed) (pivots : Nat)
    (hverdict : solve pivots (rationalSystem p h) = .noSolution)
    (hexact : ¬ToleranceDecides pivots (rationalSystem p h)) :
    (¬∃ x, Feasible p x) ∨ UnboundedObjective p := by
  obtain ⟨t, hend⟩ := exists_firstPhaseEnds hverdict
  rw [solve_eq hend] at hverdict
  rw [toleranceDecides_iff hend, ToleranceDecidesAfter] at hexact
  by_cases hinfeasible : isInfeasible _ t = true
  · rw [if_pos hinfeasible] at hexact
    obtain ⟨hclean, hexact⟩ := not_or.1 hexact
    obtain ⟨hgain, hpivot⟩ := not_or.1 hexact
    obtain hoptimal | hunbounded := hend
    · obtain ⟨hray, hslope⟩ := ray_of_isInfeasible hoptimal hclean hgain hinfeasible
      exact or_iff_not_imp_left.2 fun hfeasible =>
        unboundedObjective_of_ray h hray hslope (not_not.1 hfeasible)
    · exact absurd (hidesPivot_of_unbounded hunbounded) hpivot
  · rw [if_neg hinfeasible] at hverdict hexact
    obtain ⟨t', hunbounded⟩ := secondPhase_eq_noSolution hverdict
    rw [hunbounded] at hexact
    refine .inl ?_
    rintro ⟨_, hx⟩
    obtain ⟨x, rfl⟩ := hx.exists_vector h
    obtain ⟨i, hi, hviolated⟩ := violated_of_unbounded hend hunbounded hexact x
    exact absurd ((feasible_iff h x).1 hx i hi) (not_le.2 hviolated)

/-- Make `x` small where `x ≥ 2` and `0 ≤ x ≤ 1`. -/
def beyondInterval : LinearProgram where
  unknowns := ["x"]
  intervals := [⟨some Decimal.zero, some Decimal.one⟩]
  direction := .min
  objective := [Decimal.one]
  rows := [⟨[Decimal.one], .atLeast, Decimal.two⟩]

theorem wellFormed_beyondInterval : beyondInterval.WellFormed := by decide

theorem beyondInterval_noSolution :
    solve 10 (rationalSystem beyondInterval wellFormed_beyondInterval) = .noSolution ∧
      ¬ToleranceDecides 10 (rationalSystem beyondInterval wellFormed_beyondInterval) ∧
      ((¬∃ x, Feasible beyondInterval x) ∨ UnboundedObjective beyondInterval) := by
  have hverdict : solve 10 (rationalSystem beyondInterval wellFormed_beyondInterval) = .noSolution := by
    decide +kernel
  have hexact : ¬ToleranceDecides 10 (rationalSystem beyondInterval wellFormed_beyondInterval) := by
    decide +kernel
  exact ⟨hverdict, hexact,
    infeasible_or_unbounded_of_noSolution beyondInterval wellFormed_beyondInterval 10 hverdict hexact⟩

/-- Whether a feasible point has the best value of the objective. -/
def IsOptimum (p : LinearProgram) (x : List ℚ) : Prop :=
  Feasible p x ∧ ∀ y, Feasible p y →
    match p.direction with
    | .min => rowValue p.objective x ≤ rowValue p.objective y
    | .max => rowValue p.objective y ≤ rowValue p.objective x

/-- Make `x` small where `0.0000000001 x ≥ 1` and `x ≥ 0`. -/
def tinyCoefficient : LinearProgram where
  unknowns := ["x"]
  intervals := [⟨some Decimal.zero, none⟩]
  direction := .min
  objective := [Decimal.one]
  rows := [⟨[Decimal.unit 10], .atLeast, Decimal.one⟩]

theorem wellFormed_tinyCoefficient : tinyCoefficient.WellFormed := by decide

lemma isOptimum_tinyCoefficient : IsOptimum tinyCoefficient [10 ^ 10] := by
  refine ⟨by decide +kernel, fun y hy => ?_⟩
  obtain ⟨hintervals, hrows⟩ := hy
  obtain ⟨v, _, -, htail, rfl⟩ := List.forall₂_cons_left_iff.1 hintervals
  obtain rfl := List.forall₂_nil_left_iff.1 htail
  have hone : Decimal.one.toRat = 1 := by decide +kernel
  have hrow : Decimal.one.toRat ≤ rowValue [Decimal.unit 10] [v] := hrows _ List.mem_cons_self
  change rowValue [Decimal.one] [10 ^ 10] ≤ rowValue [Decimal.one] [v]
  simp only [rowValue, List.map_cons, List.map_nil, List.zipWith_cons_cons, List.zipWith_nil_left,
    List.sum_cons, List.sum_nil, hone, toRat_unit 10 (by decide)] at hrow ⊢
  linarith

/-- A program with an optimum and a coefficient below the pivot threshold is reported to have no
solution, with exact numbers and with doubles. -/
theorem tinyCoefficient_noSolution :
    solve defaultPivots (rationalSystem tinyCoefficient wellFormed_tinyCoefficient) = .noSolution ∧
      solveProgram defaultPivots tinyCoefficient = .ok none ∧ IsOptimum tinyCoefficient [10 ^ 10] :=
  ⟨by decide +kernel, by decide +kernel, isOptimum_tinyCoefficient⟩

end MarkovFit.Proofs
