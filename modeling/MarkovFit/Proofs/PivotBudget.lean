import MarkovFit.Proofs.FailureKinds
import MarkovFit.Proofs.PhaseMoves
import MarkovFit.Proofs.PrimalPoint

/-!
# The pivot budget

Each phase of the simplex method has the same budget of moves. A phase exceeds it that makes all of its
moves, and also one for which these were all the moves there are. Apart from that the budget has no part
in the verdict, so that a larger one leads to the same. All of this is a matter of the order of moves,
and holds for doubles as for any scalars.
-/

namespace MarkovFit.Proofs

open Simplex

/-! ## The phases of a system -/

section phases

variable {α : Type} [Scalar α] {n pivots : Nat} {s : InequalitySystem α n}
  {t : Tableau α n (Simplex.width s)} {q : PhaseState α n (Simplex.width s)}

/-- Phase one before its first move. -/
def firstPhase (s : InequalitySystem α n) : PhaseState α n (Simplex.width s) := ⟨start s, 0⟩

/-- A tableau with the artificial columns out of the basis, as far as they can be. -/
def drivenOut (s : InequalitySystem α n) (t : Tableau α n (Simplex.width s)) :
    Tableau α n (Simplex.width s) :=
  (List.finRange n).foldl (driveOut s) t

/-- Phase two before its first move, where phase one has ended at a tableau. -/
def phaseAfter (s : InequalitySystem α n) (t : Tableau α n (Simplex.width s)) :
    PhaseState α n (Simplex.width s) :=
  ⟨dualStart s (drivenOut s t), 0⟩

/-- The phases of a system, with the limit of the columns that may enter: phase one, and phase two where
phase one settles and leaves no more than rounding in the artificial columns. -/
inductive HasPhase (s : InequalitySystem α n) : Nat → PhaseState α n (Simplex.width s) → Prop
  | first : HasPhase s (Simplex.width s) (firstPhase s)
  | second {k : Nat} {q : PhaseState α n (Simplex.width s)}
      (reached : (firstPhase s).after? (Simplex.width s) k = some q)
      (settled : q.Settled (Simplex.width s)) (feasible : isInfeasible s q.tableau = false) :
      HasPhase s s.inequalities.length (phaseAfter s q.tableau)

/-- The checks at the end have nothing to do with the budget. -/
lemma check_ne_outOfPivots : check s t ≠ .defect .outOfPivots := by
  unfold check
  dsimp only
  split
  · nofun
  · split <;> nofun

lemma secondPhase_drivenOut : secondPhase pivots s (drivenOut s t) =
    match (phaseAfter s t).run s.inequalities.length pivots with
    | .outOfPivots => .defect .outOfPivots
    | .unbounded _ => .noSolution
    | .optimal t' => check s t' := rfl

lemma secondPhase_eq_outOfPivots_iff : secondPhase pivots s (drivenOut s t) = .defect .outOfPivots ↔
    (phaseAfter s t).run s.inequalities.length pivots = .outOfPivots := by
  rw [secondPhase_drivenOut]
  cases (phaseAfter s t).run s.inequalities.length pivots with
  | outOfPivots => exact iff_of_true rfl rfl
  | unbounded t' => exact iff_of_false nofun nofun
  | optimal t' => exact iff_of_false check_ne_outOfPivots nofun

lemma secondPhase_eq_of_le {more : Nat}
    (h : secondPhase pivots s (drivenOut s t) ≠ .defect .outOfPivots) (hle : pivots ≤ more) :
    secondPhase more s (drivenOut s t) = secondPhase pivots s (drivenOut s t) := by
  have hrun := PhaseState.run_eq_run_of_le (mt secondPhase_eq_outOfPivots_iff.2 h) hle
  rw [secondPhase_drivenOut, hrun, ← secondPhase_drivenOut]

lemma solve_eq_of_outOfPivots (h : (firstPhase s).run (Simplex.width s) pivots = .outOfPivots) :
    solve pivots s = .defect .outOfPivots := by
  have hrun : Tableau.optimize (Simplex.width s) pivots 0 (start s) = .outOfPivots := h
  rw [solve, hrun]

/-- What comes after a phase one that settles, whether it is optimal or unbounded. -/
lemma solve_eq_of_ending (h : (firstPhase s).run (Simplex.width s) pivots = q.ending (Simplex.width s)) :
    solve pivots s =
      if isInfeasible s q.tableau then .noSolution
      else secondPhase pivots s (drivenOut s q.tableau) := by
  have hrun : Tableau.optimize (Simplex.width s) pivots 0 (start s) = q.ending (Simplex.width s) := h
  rw [solve, hrun, PhaseState.ending]
  cases q.entering? (Simplex.width s) with
  | none => rfl
  | some c => rfl

/-- The budget is exceeded exactly if a phase makes as many moves. -/
theorem solve_eq_outOfPivots_iff :
    solve pivots s = .defect .outOfPivots ↔
      ∃ limit p, HasPhase s limit p ∧ (p.GoesOn limit pivots ∨ p.Settles limit pivots) := by
  constructor
  · intro h
    obtain ⟨k, hk, q, hq, hsettled⟩ | ⟨q, hq⟩ :=
      PhaseState.settles_or_after? (Simplex.width s) pivots (firstPhase s)
    · rw [solve_eq_of_ending (PhaseState.run_eq_ending hq hsettled hk)] at h
      cases hinfeasible : isInfeasible s q.tableau with
      | true =>
        rw [hinfeasible] at h
        cases h
      | false =>
        rw [hinfeasible] at h
        have hrun := secondPhase_eq_outOfPivots_iff.1 h
        exact ⟨_, _, .second hq hsettled hinfeasible, PhaseState.run_eq_outOfPivots_iff.1 hrun⟩
    · exact ⟨_, _, .first, PhaseState.goesOn_or_settles hq⟩
  · rintro ⟨limit, p, hphase, hmoves⟩
    have hrun := PhaseState.run_eq_outOfPivots_iff.2 hmoves
    cases hphase with
    | first => exact solve_eq_of_outOfPivots hrun
    | @second k q reached settled feasible =>
      -- Phase two is reached with the budget, unless phase one has exceeded it.
      obtain hlt | hle := Nat.lt_or_ge k pivots
      · rw [solve_eq_of_ending (PhaseState.run_eq_ending reached settled hlt), feasible]
        exact secondPhase_eq_outOfPivots_iff.2 hrun
      · have hfirst : (firstPhase s).Settles (Simplex.width s) k := ⟨q, reached, settled⟩
        exact solve_eq_of_outOfPivots (hfirst.run_eq_outOfPivots_iff.2 hle)

/-- A verdict within the budget is the verdict with any larger one. -/
theorem solve_eq_solve_of_le {more : Nat} (h : solve pivots s ≠ .defect .outOfPivots)
    (hle : pivots ≤ more) : solve more s = solve pivots s := by
  obtain ⟨k, hk, q, hq, hsettled⟩ | ⟨q, hq⟩ :=
    PhaseState.settles_or_after? (Simplex.width s) pivots (firstPhase s)
  · have hless := solve_eq_of_ending (PhaseState.run_eq_ending hq hsettled hk)
    have hmore := solve_eq_of_ending (PhaseState.run_eq_ending hq hsettled (hk.trans_le hle))
    rw [hless] at h
    rw [hmore, hless]
    cases hinfeasible : isInfeasible s q.tableau with
    | true => rfl
    | false =>
      rw [hinfeasible] at h
      exact secondPhase_eq_of_le h hle
  · exact absurd (solve_eq_of_outOfPivots (PhaseState.run_eq_outOfPivots hq)) h

end phases

/-! ## The result in decimals -/

section results

variable {n pivots : Nat} {v : Verdict Float n}

lemma failsOnly_values_point (x : Vector Float n) :
    FailsOnly (fun e => ∃ text, e = .lp (.notADecimal text)) (values pivots (.point x)) := by
  rw [values]
  refine (failsOnly_mapM fun a _ => ?_).bind fun _ _ => failsOnly_ok _
  cases Decimal.ofFloat? a with
  | none => exact failsOnly_error ⟨_, rfl⟩
  | some d => exact failsOnly_ok d

/-- No other verdict is reported as an exceeded budget. -/
lemma values_eq_pivotBudget_iff :
    values pivots v = .error (.lp (.pivotBudget pivots)) ↔ v = .defect .outOfPivots := by
  cases v with
  | point x =>
    refine iff_of_false (fun h => ?_) nofun
    obtain ⟨text, htext⟩ := failsOnly_values_point x _ h
    cases htext
  | noSolution => exact iff_of_false nofun nofun
  | defect cause =>
    cases cause with
    | outOfPivots => exact iff_of_true rfl rfl
    | violated index violation => exact iff_of_false nofun nofun
    | gap primal dual => exact iff_of_false nofun nofun

/-- Only an exceeded budget is named in the result. -/
lemma values_congr (h : v ≠ .defect .outOfPivots) (more : Nat) : values more v = values pivots v := by
  cases v with
  | point x => rfl
  | noSolution => rfl
  | defect cause =>
    cases cause with
    | outOfPivots => exact absurd rfl h
    | violated index violation => rfl
    | gap primal dual => rfl

/-- The inequalities and weights of a linear program over doubles. -/
abbrev doubleSystem (p : LinearProgram) (h : p.Fits) :
    InequalitySystem Float p.unknowns.length :=
  .ofProgram p h

lemma solveProgram_eq {p : LinearProgram} (h : p.Fits) :
    solveProgram pivots p = values pivots (solve pivots (doubleSystem p h)) :=
  dif_pos h

lemma solveProgram_eq_crash {p : LinearProgram} (h : ¬p.Fits) :
    solveProgram pivots p = .error (.fault .crash) :=
  dif_neg h

/-- A result within the budget is the result with any larger one. -/
theorem solveProgram_eq_of_le {p : LinearProgram} {more : Nat}
    (h : solveProgram pivots p ≠ .error (.lp (.pivotBudget pivots))) (hle : pivots ≤ more) :
    solveProgram more p = solveProgram pivots p := by
  by_cases hp : p.Fits
  · rw [solveProgram_eq hp] at h
    rw [solveProgram_eq hp, solveProgram_eq hp]
    have hverdict := mt values_eq_pivotBudget_iff.2 h
    rw [solve_eq_solve_of_le hverdict hle]
    exact values_congr hverdict more
  · rw [solveProgram_eq_crash hp, solveProgram_eq_crash hp]

lemma solveProgram_eq_pivotBudget_iff {p : LinearProgram} :
    solveProgram pivots p = .error (.lp (.pivotBudget pivots)) ↔
      ∃ h : p.Fits, solve pivots (doubleSystem p h) = .defect .outOfPivots := by
  by_cases h : p.Fits
  · rw [solveProgram_eq h, values_eq_pivotBudget_iff]
    exact ⟨fun hverdict => ⟨h, hverdict⟩, fun ⟨_, hverdict⟩ => hverdict⟩
  · rw [solveProgram_eq_crash h]
    exact iff_of_false nofun fun ⟨h', _⟩ => h h'

end results

/-! ## Exceeded budgets -/

/-- The budget is reported as exceeded exactly if a phase makes as many moves as the budget has, whether
a column still gains and has a line then or these were all moves of the phase. A phase is within its
budget only if it settles with fewer moves. -/
theorem budget_exceeded_iff (p : LinearProgram) (pivots : Nat) :
    (solveProgram pivots p = .error (.lp (.pivotBudget pivots)) ↔
      ∃ (h : p.Fits) (limit : Nat) (phase : PhaseState Float _ _),
        HasPhase (doubleSystem p h) limit phase ∧
          (phase.GoesOn limit pivots ∨ phase.Settles limit pivots)) ∧
      ∀ (h : p.Fits) (limit : Nat) (phase : PhaseState Float _ _),
        HasPhase (doubleSystem p h) limit phase →
          ∀ moves, phase.Settles limit moves →
            (phase.run limit pivots = .outOfPivots ↔ pivots ≤ moves) := by
  constructor
  · rw [solveProgram_eq_pivotBudget_iff]
    exact exists_congr fun h => solve_eq_outOfPivots_iff
  · intro h limit phase _ moves hsettles
    exact hsettles.run_eq_outOfPivots_iff

/-- Make `x` small where `10 x ≥ 1`, `x ≥ 2`, `0.1 x ≥ 1` and `x ≥ 0`. -/
def threeRows : LinearProgram where
  unknowns := ["x"]
  intervals := [⟨some Decimal.zero, none⟩]
  direction := .min
  objective := [Decimal.one]
  rows := [⟨[Decimal.ten], .atLeast, Decimal.one⟩, ⟨[Decimal.one], .atLeast, Decimal.two⟩,
    ⟨[Decimal.unit 1], .atLeast, Decimal.one⟩]

theorem fits_threeRows : threeRows.Fits := by decide

abbrev threeRowsSystem : InequalitySystem Float 1 := doubleSystem threeRows fits_threeRows

/-- Phase one has one move, and phase two has two. -/
lemma moves_threeRows : ∃ q ∈ (firstPhase threeRowsSystem).after? (Simplex.width threeRowsSystem) 1,
    q.Settled (Simplex.width threeRowsSystem) ∧ isInfeasible threeRowsSystem q.tableau = false ∧
      (phaseAfter threeRowsSystem q.tableau).Settles threeRowsSystem.inequalities.length 2 := by
  decide +kernel

theorem threeRows_exceeds_two : threeRows.Fits ∧
    (∃ phase, HasPhase threeRowsSystem 4 phase ∧ phase.Settles 4 2 ∧
      phase.run 4 2 = .outOfPivots ∧ phase.run 4 3 ≠ .outOfPivots) ∧
    solveProgram 2 threeRows = .error (.lp (.pivotBudget 2)) ∧
    solveProgram 3 threeRows = .ok (some [Decimal.ten]) := by
  obtain ⟨q, hq, hsettled, hfeasible, hmoves⟩ := moves_threeRows
  have hphase : HasPhase threeRowsSystem 4 (phaseAfter threeRowsSystem q.tableau) :=
    .second hq hsettled hfeasible
  have hbudget := fun pivots =>
    (budget_exceeded_iff threeRows pivots).2 fits_threeRows 4 _ hphase 2 hmoves
  have hexceeded := (budget_exceeded_iff threeRows 2).1.2
    ⟨fits_threeRows, 4, _, hphase, .inr hmoves⟩
  exact ⟨fits_threeRows,
    ⟨_, hphase, hmoves, (hbudget 2).2 (by decide), mt (hbudget 3).1 (by decide)⟩,
    hexceeded, by decide +kernel⟩

/-- A budget can be reported as exceeded though no phase has a move left after it. -/
theorem exceeded_without_move_left : ¬∀ (p : LinearProgram) (pivots : Nat),
    solveProgram pivots p = .error (.lp (.pivotBudget pivots)) →
      ∃ (h : p.Fits) (limit : Nat) (phase : PhaseState Float _ _),
        HasPhase (doubleSystem p h) limit phase ∧ phase.GoesOn limit pivots := by
  intro hall
  obtain ⟨q, hq, hsettled, hfeasible, hmoves⟩ := moves_threeRows
  have hverdict : solve 2 threeRowsSystem = .defect .outOfPivots :=
    solve_eq_outOfPivots_iff.2 ⟨_, _, .second hq hsettled hfeasible, .inr hmoves⟩
  obtain ⟨_, limit, phase, hphase, hmove⟩ :=
    hall threeRows 2 (solveProgram_eq_pivotBudget_iff.2 ⟨fits_threeRows, hverdict⟩)
  have hfirst : (firstPhase threeRowsSystem).Settles (Simplex.width threeRowsSystem) 1 :=
    ⟨q, hq, hsettled⟩
  cases hphase with
  | first => exact absurd (hfirst.lt_of_goesOn hmove) (by decide)
  | @second k q' reached settled _ =>
    have hk : 1 = k := hfirst.unique ⟨q', reached, settled⟩
    subst hk
    obtain rfl : q = q' := Option.some.inj (hq.symm.trans reached)
    exact absurd (hmoves.lt_of_goesOn hmove) (by decide)

/-! ## Larger budgets -/

/-- A result within the budget is the result with any larger budget, and any other budget gives it too or
is reported as exceeded. -/
theorem budget_leaves_result (p : LinearProgram) {pivots : Nat}
    (h : solveProgram pivots p ≠ .error (.lp (.pivotBudget pivots))) :
    (∀ more, pivots ≤ more → solveProgram more p = solveProgram pivots p) ∧
      ∀ other, solveProgram other p = .error (.lp (.pivotBudget other)) ∨
        solveProgram other p = solveProgram pivots p := by
  refine ⟨fun more hle => solveProgram_eq_of_le h hle, fun other => ?_⟩
  refine or_iff_not_imp_left.2 fun hother => ?_
  obtain hle | hle := Nat.le_total pivots other
  · exact solveProgram_eq_of_le h hle
  · exact (solveProgram_eq_of_le hother hle).symm

theorem twoRows_result_with_any_budget :
    solveProgram 3 twoRows ≠ .error (.lp (.pivotBudget 3)) ∧
      solveProgram 3 twoRows = .ok (some [Decimal.two, ⟨false, 6, 0, by decide, by decide⟩]) ∧
      3 ≤ defaultPivots ∧ solveProgram defaultPivots twoRows = solveProgram 3 twoRows := by
  have hresult : solveProgram 3 twoRows =
      .ok (some [Decimal.two, ⟨false, 6, 0, by decide, by decide⟩]) := by
    decide +kernel
  have hwithin : solveProgram 3 twoRows ≠ .error (.lp (.pivotBudget 3)) := by
    rw [hresult]
    nofun
  have hle : 3 ≤ defaultPivots := by decide
  exact ⟨hwithin, hresult, hle, (budget_leaves_result twoRows hwithin).1 defaultPivots hle⟩

end MarkovFit.Proofs
