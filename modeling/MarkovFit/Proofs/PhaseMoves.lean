import MarkovFit.LinearProgram.Simplex
import Mathlib.Tactic.Lemma

/-!
# The moves of a phase

A phase makes one move after the other, until no column gains or no line is found for the column that
does. Which move comes next depends on the tableau and on the degenerate moves just made in a row, and on
nothing else. So the number of moves belongs to the phase, and a budget is only held against it: the
loop needs one more turn than the phase makes moves, the turn in which it sees that there is no other.
Nothing is said of the numbers in a tableau, which may be infinite or none.
-/

namespace MarkovFit.Proofs

variable {α : Type} [Scalar α] {n width : Nat}

/-- Where a phase has come to: its tableau, and how many degenerate moves it has just made in a row. -/
structure PhaseState (α : Type) (n width : Nat) where
  tableau : Tableau α n width
  streak : Nat

namespace PhaseState

/-- Whether the lowest indices are taken next. -/
def lowest (p : PhaseState α n width) : Bool := Tableau.degenerateStreak ≤ p.streak

/-- The column that enters next. -/
def entering? (limit : Nat) (p : PhaseState α n width) : Option (Fin width) :=
  p.tableau.entering? limit p.lowest

/-- The line at which a column enters. -/
def leaving? (p : PhaseState α n width) (c : Fin width) : Option (Fin n) := p.tableau.leaving? c p.lowest

/-- A column gains, and a line is found for it. -/
def CanMove (limit : Nat) (p : PhaseState α n width) : Prop :=
  ∃ c r, p.entering? limit = some c ∧ p.leaving? c = some r

/-- No column gains, or no line is found for the one that does: the phase is optimal or unbounded. -/
def Settled (limit : Nat) (p : PhaseState α n width) : Prop :=
  p.entering? limit = none ∨ ∃ c, p.entering? limit = some c ∧ p.leaving? c = none

instance (limit : Nat) (p : PhaseState α n width) : Decidable (p.CanMove limit) :=
  inferInstanceAs (Decidable (∃ _ : Fin _, ∃ _ : Fin _, _ ∧ _))

instance (limit : Nat) (p : PhaseState α n width) : Decidable (p.Settled limit) :=
  inferInstanceAs (Decidable (_ ∨ ∃ _ : Fin _, _ ∧ _))

/-- The state after a move. -/
def move (p : PhaseState α n width) (r : Fin n) (c : Fin width) : PhaseState α n width :=
  ⟨p.tableau.advance r c, p.tableau.streakAfter r p.streak⟩

/-- The state after a number of moves, if the phase makes as many. -/
def after? (limit : Nat) : Nat → PhaseState α n width → Option (PhaseState α n width)
  | 0, p => some p
  | k + 1, p => do
    let c ← p.entering? limit
    let r ← p.leaving? c
    after? limit k (p.move r c)

/-- After so many moves there is another one. -/
def GoesOn (limit k : Nat) (p : PhaseState α n width) : Prop := ∃ q ∈ p.after? limit k, q.CanMove limit

/-- After so many moves there is no other: these are all moves of the phase. -/
def Settles (limit k : Nat) (p : PhaseState α n width) : Prop := ∃ q ∈ p.after? limit k, q.Settled limit

instance (limit k : Nat) (p : PhaseState α n width) : Decidable (p.GoesOn limit k) :=
  inferInstanceAs (Decidable (∃ q ∈ _, _))

instance (limit k : Nat) (p : PhaseState α n width) : Decidable (p.Settles limit k) :=
  inferInstanceAs (Decidable (∃ q ∈ _, _))

/-- The rest of the phase with a budget of moves. -/
def run (limit pivots : Nat) (p : PhaseState α n width) : Tableau.Ending α n width :=
  p.tableau.optimize limit pivots p.streak

/-- How a settled phase ends. -/
def ending (limit : Nat) (p : PhaseState α n width) : Tableau.Ending α n width :=
  match p.entering? limit with
  | none => .optimal p.tableau
  | some _ => .unbounded p.tableau

variable {limit k : Nat} {p q : PhaseState α n width} {r : Fin n} {c : Fin width}

/-! ## One move -/

theorem canMove_or_settled (limit : Nat) (p : PhaseState α n width) :
    p.CanMove limit ∨ p.Settled limit := by
  cases hc : p.entering? limit with
  | none => exact .inr (.inl hc)
  | some c =>
    cases hr : p.leaving? c with
    | none => exact .inr (.inr ⟨c, hc, hr⟩)
    | some r => exact .inl ⟨c, r, hc, hr⟩

lemma next_eq (limit : Nat) (p : PhaseState α n width) :
    p.tableau.next limit (Tableau.degenerateStreak ≤ p.streak) =
      match p.entering? limit with
      | none => .optimal
      | some c =>
        match p.leaving? c with
        | none => .unbounded
        | some r => .pivot r c := rfl

/-- A move takes one from the budget. -/
lemma run_move (hc : p.entering? limit = some c) (hr : p.leaving? c = some r) (pivots : Nat) :
    p.run limit (pivots + 1) = (p.move r c).run limit pivots := by
  rw [run, Tableau.optimize, next_eq, hc]
  dsimp only
  rw [hr]
  rfl

/-- With a turn left, a settled phase is seen to be settled. -/
lemma Settled.run_succ (h : p.Settled limit) (pivots : Nat) :
    p.run limit (pivots + 1) = p.ending limit := by
  rw [run, Tableau.optimize, next_eq, ending]
  obtain hc | ⟨c, hc, hr⟩ := h
  · rw [hc]
  · rw [hc]
    dsimp only
    rw [hr]

lemma after?_move (hc : p.entering? limit = some c) (hr : p.leaving? c = some r) (k : Nat) :
    p.after? limit (k + 1) = (p.move r c).after? limit k := by
  rw [after?, hc, Option.bind_eq_bind, Option.bind_some, hr, Option.bind_eq_bind, Option.bind_some]

lemma exists_move_of_after? (h : p.after? limit (k + 1) = some q) :
    ∃ c r, p.entering? limit = some c ∧ p.leaving? c = some r ∧
      (p.move r c).after? limit k = some q := by
  obtain ⟨c, hc, h⟩ := Option.bind_eq_some_iff.1 h
  obtain ⟨r, hr, h⟩ := Option.bind_eq_some_iff.1 h
  exact ⟨c, r, hc, hr, h⟩

/-! ## Many moves -/

/-- The moves that are made are taken from the budget, and the rest of it is for the rest. -/
theorem run_of_after? (h : p.after? limit k = some q) (pivots : Nat) :
    p.run limit (pivots + k) = q.run limit pivots := by
  -- On the moves, with the phase general: what its first move leaves is a phase of its own.
  induction k generalizing p with
  | zero =>
    cases h
    rfl
  | succ k ih =>
    obtain ⟨c, r, hc, hr, hrest⟩ := exists_move_of_after? h
    rw [← Nat.add_assoc, run_move hc hr, ih hrest]

/-- A phase that makes many moves makes any smaller number of moves. -/
lemma exists_after?_of_le {j : Nat} (h : p.after? limit k = some q) (hle : j ≤ k) :
    ∃ q', p.after? limit j = some q' := by
  induction k generalizing p j with
  | zero => exact ⟨q, Nat.le_zero.1 hle ▸ h⟩
  | succ k ih =>
    cases j with
    | zero => exact ⟨p, rfl⟩
    | succ j =>
      obtain ⟨c, r, hc, hr, hrest⟩ := exists_move_of_after? h
      rw [after?_move hc hr]
      exact ih hrest (Nat.le_of_succ_le_succ hle)

/-- One more move can be made exactly if there is a column that gains and a line for it. -/
theorem goesOn_iff : p.GoesOn limit k ↔ ∃ q, p.after? limit (k + 1) = some q := by
  induction k generalizing p with
  | zero =>
    constructor
    · rintro ⟨_, hq, c, r, hc, hr⟩
      cases hq
      exact ⟨p.move r c, after?_move hc hr 0⟩
    · rintro ⟨q, hq⟩
      obtain ⟨c, r, hc, hr, -⟩ := exists_move_of_after? hq
      exact ⟨p, rfl, c, r, hc, hr⟩
  | succ k ih =>
    constructor
    · rintro ⟨q, hq, hmove⟩
      obtain ⟨c, r, hc, hr, hrest⟩ := exists_move_of_after? hq
      rw [after?_move hc hr]
      exact ih.1 ⟨q, hrest, hmove⟩
    · rintro ⟨q, hq⟩
      obtain ⟨c, r, hc, hr, hrest⟩ := exists_move_of_after? hq
      obtain ⟨q', hq', hmove⟩ := ih.2 ⟨q, hrest⟩
      exact ⟨q', (after?_move hc hr k).trans hq', hmove⟩

/-- Up to any number of moves, either the phase settles on the way or all the moves are made. -/
theorem settles_or_after? (limit pivots : Nat) (p : PhaseState α n width) :
    (∃ k < pivots, p.Settles limit k) ∨ ∃ q, p.after? limit pivots = some q := by
  -- A phase that settles at its first look has made no move; else the rest has one move less to make.
  induction pivots generalizing p with
  | zero => exact .inr ⟨p, rfl⟩
  | succ pivots ih =>
    obtain ⟨c, r, hc, hr⟩ | hsettled := canMove_or_settled limit p
    · obtain ⟨k, hk, q, hq, hsettled⟩ | ⟨q, hq⟩ := ih (p.move r c)
      · exact .inl ⟨k + 1, Nat.succ_lt_succ hk, q, (after?_move hc hr k).trans hq, hsettled⟩
      · exact .inr ⟨q, (after?_move hc hr pivots).trans hq⟩
    · exact .inl ⟨0, Nat.succ_pos _, p, rfl, hsettled⟩

lemma goesOn_or_settles (h : p.after? limit k = some q) : p.GoesOn limit k ∨ p.Settles limit k :=
  (canMove_or_settled limit q).imp (fun hmove => ⟨q, h, hmove⟩) fun hsettled => ⟨q, h, hsettled⟩

/-! ## Budgets -/

lemma ending_ne_outOfPivots : p.ending limit ≠ .outOfPivots := by
  unfold ending
  split <;> nofun

/-- A budget that leaves a turn after the last move is enough. -/
theorem run_eq_ending {pivots : Nat} (h : p.after? limit k = some q) (hq : q.Settled limit)
    (hlt : k < pivots) : p.run limit pivots = q.ending limit := by
  obtain ⟨spare, rfl⟩ := Nat.exists_eq_add_of_lt hlt
  have hturn : k + spare + 1 = (spare + 1) + k := by omega
  rw [hturn, run_of_after? h, hq.run_succ]

/-- A phase that makes all moves of its budget has no turn left. -/
lemma run_eq_outOfPivots (h : p.after? limit k = some q) : p.run limit k = .outOfPivots := by
  have hrun := run_of_after? h 0
  rw [Nat.zero_add] at hrun
  exact hrun

/-- The budget is exceeded by the phases that make all its moves, whether or not they would make
another one. -/
theorem run_eq_outOfPivots_iff {pivots : Nat} :
    p.run limit pivots = .outOfPivots ↔ p.GoesOn limit pivots ∨ p.Settles limit pivots := by
  constructor
  · intro hrun
    obtain ⟨k, hk, q, hq, hsettled⟩ | ⟨q, hq⟩ := settles_or_after? limit pivots p
    · exact absurd ((run_eq_ending hq hsettled hk).symm.trans hrun) ending_ne_outOfPivots
    · exact goesOn_or_settles hq
  · rintro (⟨q, hq, -⟩ | ⟨q, hq, -⟩)
    · exact run_eq_outOfPivots hq
    · exact run_eq_outOfPivots hq

/-- For a phase with so many moves in all, a budget is exceeded unless it is larger. -/
theorem Settles.run_eq_outOfPivots_iff {pivots : Nat} (h : p.Settles limit k) :
    p.run limit pivots = .outOfPivots ↔ pivots ≤ k := by
  obtain ⟨q, hq, hsettled⟩ := h
  constructor
  · intro hrun
    refine Nat.le_of_not_lt fun hlt => ?_
    exact ending_ne_outOfPivots ((run_eq_ending hq hsettled hlt).symm.trans hrun)
  · intro hle
    obtain ⟨q', hq'⟩ := exists_after?_of_le hq hle
    exact run_eq_outOfPivots hq'

/-- A phase has one number of moves. -/
theorem Settles.unique {j : Nat} (h : p.Settles limit j) (h' : p.Settles limit k) : j = k :=
  Nat.le_antisymm (h'.run_eq_outOfPivots_iff.1 (h.run_eq_outOfPivots_iff.2 (Nat.le_refl j)))
    (h.run_eq_outOfPivots_iff.1 (h'.run_eq_outOfPivots_iff.2 (Nat.le_refl k)))

/-- A settled phase does not go on. -/
theorem Settles.lt_of_goesOn {j : Nat} (h : p.Settles limit k) (hmove : p.GoesOn limit j) : j < k := by
  obtain ⟨q, hq⟩ := goesOn_iff.1 hmove
  exact h.run_eq_outOfPivots_iff.1 (run_eq_outOfPivots hq)

/-- A phase ends in one way, with any budget that is not exceeded. -/
theorem run_eq_run_of_le {pivots more : Nat} (h : p.run limit pivots ≠ .outOfPivots)
    (hle : pivots ≤ more) : p.run limit more = p.run limit pivots := by
  obtain ⟨k, hk, q, hq, hsettled⟩ | ⟨q, hq⟩ := settles_or_after? limit pivots p
  · rw [run_eq_ending hq hsettled hk, run_eq_ending hq hsettled (Nat.lt_of_lt_of_le hk hle)]
  · exact absurd (run_eq_outOfPivots hq) h

end PhaseState
end MarkovFit.Proofs
