import MarkovFit.Proofs.DualTableau
import MarkovFit.Proofs.InequalityRows

/-!
# The primal point of a dual tableau

In phase two the reduced cost of an inequality is by how much the point read off the artificial
columns exceeds its bound. It stays so through all moves, whichever rule chooses them and whatever is
clamped, since the right-hand sides have no part in it. A tableau that counts as optimal therefore
stands for a point that misses no row and no interval by more than the tolerance for optimality.
-/

namespace MarkovFit.Proofs

open Simplex

variable {n : Nat} {s : InequalitySystem ℚ n} {t t₁ : Tableau ℚ n (width s)}

/-- The tableaus of phase two: those that can be reached after its start from a tableau of phase
one. -/
def SecondPhase (s : InequalitySystem ℚ n) (t : Tableau ℚ n (width s)) : Prop :=
  ∃ t₁, Reaches (width s) (start s) t₁ ∧ Reaches s.inequalities.length (secondStart s t₁) t

lemma dualCost_column (k : Fin s.inequalities.length) :
    (dualCost s).entry (column s k) = -(s.inequalities.get k).bound := by
  have hlength : (column s k).castSucc.val <
      (s.inequalities.map fun i => -i.bound).toArray.size := by
    rw [List.size_toArray, List.length_map]
    exact k.isLt
  refine (Vector.get_ofFn _ _).trans ((dif_pos hlength).trans ?_)
  simp only [List.getElem_toArray, List.getElem_map]
  rfl

lemma dualCost_artificial (j : Fin n) : (dualCost s).entry (artificial s j) = 0 := by
  have hlength : ¬(artificial s j).castSucc.val <
      (s.inequalities.map fun i => -i.bound).toArray.size := by simp [artificial]
  exact (Vector.get_ofFn _ _).trans (dif_neg hlength)

lemma point_get (j : Fin n) : (point s t).get j = (signs s).get j * t.cost.entry (artificial s j) :=
  Vector.get_ofFn _ j

/-- A combination of the costs of phase two is the slack of the point it names. -/
theorem entry_column_eq_slack {k : Fin s.inequalities.length}
    (h : CostCombines (dualCost s) (column s k).castSucc t) :
    t.cost.entry (column s k) =
      dot (s.inequalities.get k).coefficients (point s t) - (s.inequalities.get k).bound := by
  have hterm : ∀ j, (t.cost.entry (artificial s j) - (dualCost s).entry (artificial s j)) *
      (line s j).entry (column s k) =
        (s.inequalities.get k).coefficients.get j * (point s t).get j := by
    intro j
    rw [dualCost_artificial, line_column, point_get]
    ring
  have hcost : t.cost.entry (column s k) - (dualCost s).entry (column s k) =
      ∑ j, (t.cost.entry (artificial s j) - (dualCost s).entry (artificial s j)) *
        (line s j).entry (column s k) := h
  rw [dualCost_column] at hcost
  simp only [hterm] at hcost
  rw [dot_eq_sum]
  linarith

theorem combine_of_firstPhase (c : Fin (width s)) (h : Reaches (width s) (start s) t) :
    LinesCombine c.castSucc t ∧ CostCombines (artificialCost s) c.castSucc t :=
  h.combine (linesCombine_start _) (costCombines_start _)

theorem combine_of_secondPhase (c : Fin (width s)) (h : SecondPhase s t) :
    LinesCombine c.castSucc t ∧ CostCombines (dualCost s) c.castSucc t := by
  obtain ⟨t₁, hfirst, hsecond⟩ := h
  have hlines := (combine_of_firstPhase c hfirst).1
  exact hsecond.combine hlines.secondStart (costCombines_secondStart hlines)

/-- Without a gain above the tolerance the point misses no inequality by more. -/
theorem inequalityHolds_of_improving_eq_nil (h : SecondPhase s t)
    (hoptimal : t.improving s.inequalities.length = []) {i : Inequality ℚ n}
    (hi : i ∈ s.inequalities) : InequalityHolds Tableau.optimalityTolerance i (point s t) := by
  obtain ⟨k, rfl⟩ := List.mem_iff_get.1 hi
  have hslack := entry_column_eq_slack (combine_of_secondPhase (column s k) h).2
  have hcost : ¬t.cost.entry (column s k) < -Tableau.optimalityTolerance := by
    intro hlt
    have hmem : column s k ∈ t.improving s.inequalities.length := mem_improving.2 ⟨k.isLt, hlt⟩
    rw [hoptimal] at hmem
    exact List.not_mem_nil hmem
  rw [hslack] at hcost
  unfold InequalityHolds
  linarith [not_lt.1 hcost]

/-- How phase one can end for phase two to start. -/
def FirstPhaseEnds (pivots : Nat) (s : InequalitySystem ℚ n) (t : Tableau ℚ n (width s)) : Prop :=
  Tableau.optimize (width s) pivots 0 (start s) = .optimal t ∨
    Tableau.optimize (width s) pivots 0 (start s) = .unbounded t

theorem FirstPhaseEnds.reaches {pivots : Nat} (h : FirstPhaseEnds pivots s t) :
    Reaches (width s) (start s) t := by
  obtain h | h := h
  · exact (optimize_eq_optimal h).1
  · exact (optimize_eq_unbounded h).1

/-- At every moment of phase two the reduced costs are the slacks of the point that the tableau
names, and where phase two ends that point misses no row and no interval by more than the
tolerance. -/
theorem reduced_costs_are_slacks (p : LinearProgram) (h : p.WellFormed) :
    (∀ t, SecondPhase (rationalSystem p h) t → ∀ k,
      t.cost.entry (column _ k) =
        dot ((rationalSystem p h).inequalities.get k).coefficients (point _ t) -
          ((rationalSystem p h).inequalities.get k).bound) ∧
      ∀ (pivots : Nat) t₁ t, FirstPhaseEnds pivots (rationalSystem p h) t₁ →
        Tableau.optimize (rationalSystem p h).inequalities.length pivots 0 (secondStart _ t₁) =
          .optimal t →
        FeasibleWithin Tableau.optimalityTolerance p (point _ t).toList := by
  refine ⟨fun t ht k => entry_column_eq_slack (combine_of_secondPhase (column _ k) ht).2, ?_⟩
  intro pivots t₁ t hfirst hsecond
  obtain ⟨hreaches, hoptimal⟩ := optimize_eq_optimal hsecond
  have hphase : SecondPhase _ t := ⟨t₁, hfirst.reaches, hreaches⟩
  exact (inequalitiesHold_iff h _).1 fun i hi => inequalityHolds_of_improving_eq_nil hphase hoptimal hi

/-- The tableau of a phase that ended at an optimum. -/
def optimum? {n width : Nat} : Tableau.Ending ℚ n width → Option (Tableau ℚ n width)
  | .optimal t => some t
  | .unbounded _ => none
  | .outOfPivots => none

lemma optimum?_eq_some {n width : Nat} {e : Tableau.Ending ℚ n width} {t : Tableau ℚ n width}
    (h : optimum? e = some t) : e = .optimal t := by
  cases e <;> cases h
  rfl

/-- Make `x + y` small where `x + 2 y ≥ 10`, `2 x + y ≥ 10` and `0 ≤ x ≤ 2`. -/
def twoRows : LinearProgram where
  unknowns := ["x", "y"]
  intervals := [⟨some Decimal.zero, some Decimal.two⟩, {}]
  direction := .min
  objective := [Decimal.one, Decimal.one]
  rows := [⟨[Decimal.one, Decimal.two], .atLeast, Decimal.ten⟩,
    ⟨[Decimal.two, Decimal.one], .atLeast, Decimal.ten⟩]

theorem wellFormed_twoRows : twoRows.WellFormed := by decide

/-- The tableaus at the end of both phases for a program with an optimum. -/
def phaseOptima? (pivots : Nat) (s : InequalitySystem ℚ n) :
    Option (Tableau ℚ n (width s) × Tableau ℚ n (width s)) := do
  let t₁ ← optimum? (Tableau.optimize (width s) pivots 0 (start s))
  let t ← optimum? (Tableau.optimize s.inequalities.length pivots 0 (secondStart s t₁))
  return (t₁, t)

lemma phaseOptima?_eq_some {pivots : Nat} (h : phaseOptima? pivots s = some (t₁, t)) :
    FirstPhaseEnds pivots s t₁ ∧
      Tableau.optimize s.inequalities.length pivots 0 (secondStart s t₁) = .optimal t := by
  obtain ⟨t₁', hfirst, h⟩ := Option.bind_eq_some_iff.1 h
  obtain ⟨t', hsecond, h⟩ := Option.bind_eq_some_iff.1 h
  obtain ⟨rfl, rfl⟩ := Prod.mk.inj (Option.some.inj h)
  exact ⟨.inl (optimum?_eq_some hfirst), optimum?_eq_some hsecond⟩

set_option maxRecDepth 10000 in
lemma point_twoRows : (phaseOptima? 10 (rationalSystem twoRows wellFormed_twoRows)).map
    (fun ends => (point _ ends.2).toList) = some [2, 6] := by
  decide +kernel

theorem twoRows_slacks : twoRows.WellFormed ∧
    ∃ t₁ t, FirstPhaseEnds 10 (rationalSystem twoRows wellFormed_twoRows) t₁ ∧
      Tableau.optimize (rationalSystem twoRows wellFormed_twoRows).inequalities.length 10 0
        (secondStart _ t₁) = .optimal t ∧
      (point _ t).toList = [2, 6] ∧
      (∀ k, t.cost.entry (column _ k) =
        dot ((rationalSystem twoRows wellFormed_twoRows).inequalities.get k).coefficients (point _ t) -
          ((rationalSystem twoRows wellFormed_twoRows).inequalities.get k).bound) ∧
      FeasibleWithin Tableau.optimalityTolerance twoRows (point _ t).toList := by
  obtain ⟨⟨t₁, t⟩, hends, hpoint⟩ := Option.map_eq_some_iff.1 point_twoRows
  obtain ⟨hfirst, hsecond⟩ := phaseOptima?_eq_some hends
  have hphase : SecondPhase _ t := ⟨t₁, hfirst.reaches, (optimize_eq_optimal hsecond).1⟩
  obtain ⟨hslacks, hfeasible⟩ := reduced_costs_are_slacks twoRows wellFormed_twoRows
  exact ⟨wellFormed_twoRows, t₁, t, hfirst, hsecond, hpoint, hslacks t hphase,
    hfeasible 10 t₁ t hfirst hsecond⟩

end MarkovFit.Proofs
