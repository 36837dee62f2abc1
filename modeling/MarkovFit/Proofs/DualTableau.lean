import MarkovFit.Proofs.TableauRun

/-!
# The tableau of the dual program

Whatever moves are made, every line of the tableau is a combination of the lines it started with, and
the artificial columns hold the weights. The cost row is the cost of the phase plus such a combination.
Both hold column by column, so that clamping the right-hand sides does no harm to any other column.
-/

namespace MarkovFit.Proofs

open Simplex

variable {n : Nat} {s : InequalitySystem ℚ n} {t : Tableau ℚ n (width s)}
  {k : Fin (width s + 1)} {r : Fin n} {c : Fin (width s)} {w : TableauLine ℚ (width s)}

/-! ## The lines at the start -/

/-- The column of an inequality. -/
def column (s : InequalitySystem ℚ n) (k : Fin s.inequalities.length) : Fin (width s) :=
  k.castAdd n

lemma line_get (j : Fin n) (k : Fin (width s + 1)) : (line s j).get k =
    if h : k.val < s.inequalities.length then
      (signs s).get j * (s.inequalities.get ⟨k.val, h⟩).coefficients.get j
    else if k.val = s.inequalities.length + j.val then 1
    else if k.val = width s then (signs s).get j * s.weights.get j
    else 0 := by
  refine (Vector.get_ofFn _ k).trans ?_
  simp only [List.size_toArray, List.length_map, List.getElem_toArray, List.getElem_map]
  rfl

lemma line_column (j : Fin n) (k : Fin s.inequalities.length) :
    (line s j).entry (column s k) = (signs s).get j * (s.inequalities.get k).coefficients.get j :=
  (line_get j _).trans (dif_pos k.isLt)

lemma line_artificial (i j : Fin n) : (line s i).entry (artificial s j) = if i = j then 1 else 0 := by
  have hcolumn : ¬(artificial s j).castSucc.val < s.inequalities.length :=
    not_lt.2 (Nat.le_add_right _ _)
  have hrhs : (artificial s j).castSucc.val ≠ width s := (artificial s j).isLt.ne
  have hindex : (artificial s j).castSucc.val = s.inequalities.length + i.val ↔ i = j := by
    rw [Fin.ext_iff]
    exact (Nat.add_left_cancel_iff).trans eq_comm
  refine (line_get i _).trans ?_
  rw [dif_neg hcolumn, if_neg hrhs]
  simp only [hindex]

lemma line_rhs (j : Fin n) : (line s j).rhs = (signs s).get j * s.weights.get j := by
  have hcolumn : ¬(Fin.last (width s)).val < s.inequalities.length :=
    not_lt.2 (Nat.le_add_right _ _)
  have hartificial : (Fin.last (width s)).val ≠ s.inequalities.length + j.val :=
    (Nat.add_lt_add_left j.isLt _).ne'
  refine (line_get j _).trans ?_
  rw [dif_neg hcolumn, if_neg hartificial]
  exact if_pos rfl

lemma signs_mul_self (j : Fin n) : (signs s).get j * (signs s).get j = 1 := by
  have hsign : (signs s).get j = if Scalar.lt (s.weights.get j) 0 then -1 else 1 := Vector.get_map _ _ j
  rw [hsign]
  split <;> norm_num

/-! ## Combinations of lines -/

/-- At column `k`, some numbers for all columns are the combination of the first lines in which the
artificial columns hold the weights. -/
def IsCombination (s : InequalitySystem ℚ n) (k : Fin (width s + 1)) (f : Fin (width s + 1) → ℚ) :
    Prop :=
  f k = ∑ j, f (artificial s j).castSucc * (line s j).get k

lemma isCombination_line (j : Fin n) (k : Fin (width s + 1)) : IsCombination s k (line s j).get := by
  have hterm : ∀ i, (line s j).get (artificial s i).castSucc * (line s i).get k =
      if j = i then (line s i).get k else 0 := by
    intro i
    rw [← TableauLine.entry, line_artificial, ite_mul, one_mul, zero_mul]
  unfold IsCombination
  simp only [hterm]
  rw [Finset.sum_ite_eq, if_pos (Finset.mem_univ j)]

lemma IsCombination.div {f : Fin (width s + 1) → ℚ} (hf : IsCombination s k f) (a : ℚ) :
    IsCombination s k fun c => f c / a := by
  change f k / a = ∑ j, f (artificial s j).castSucc / a * (line s j).get k
  rw [hf, Finset.sum_div]
  exact Finset.sum_congr rfl fun j _ => (div_mul_eq_mul_div _ _ _).symm

lemma IsCombination.sub_mul {f g : Fin (width s + 1) → ℚ} (hf : IsCombination s k f)
    (hg : IsCombination s k g) (a : ℚ) : IsCombination s k fun c => f c - a * g c := by
  change f k - a * g k =
    ∑ j, (f (artificial s j).castSucc - a * g (artificial s j).castSucc) * (line s j).get k
  rw [hf, hg, Finset.mul_sum, ← Finset.sum_sub_distrib]
  exact Finset.sum_congr rfl fun j _ => by ring

/-- All lines are combinations at column `k`. -/
def LinesCombine (k : Fin (width s + 1)) (t : Tableau ℚ n (width s)) : Prop :=
  ∀ i, IsCombination s k (t.lines.get i).get

/-- The cost row is `w` and a combination at column `k`. -/
def CostCombines (w : TableauLine ℚ (width s)) (k : Fin (width s + 1)) (t : Tableau ℚ n (width s)) :
    Prop :=
  IsCombination s k fun c => t.cost.get c - w.get c

lemma isCombination_pivotLine (h : LinesCombine k t) : IsCombination s k (pivotLine t r c).get := by
  have hget : (pivotLine t r c).get = fun k => (t.lines.get r).get k / (t.lines.get r).entry c :=
    funext fun k => get_pivotLine t r c k
  rw [hget]
  exact (h r).div _

lemma isCombination_reduce {l l' : TableauLine ℚ (width s)} (hl : IsCombination s k l.get)
    (hl' : IsCombination s k l'.get) (a : ℚ) : IsCombination s k (l.reduce a l').get := by
  have hget : (l.reduce a l').get = fun k => l.get k - a * l'.get k :=
    funext fun k => get_reduce l l' a k
  rw [hget]
  exact hl.sub_mul hl' a

theorem LinesCombine.pivot (h : LinesCombine k t) : LinesCombine k (t.pivot r c) := by
  intro i
  rw [lines_pivot]
  by_cases hi : i = r
  · rw [if_pos hi]
    exact isCombination_pivotLine h
  · rw [if_neg hi]
    exact isCombination_reduce (h i) (isCombination_pivotLine h) _

/-- A multiple of a combination may be taken off the cost row. -/
lemma isCombination_cost_sub {cost cost' l : TableauLine ℚ (width s)} {a : ℚ}
    (hcost : IsCombination s k fun c => cost.get c - w.get c) (hl : IsCombination s k l.get)
    (hcost' : ∀ c, cost'.get c = cost.get c - a * l.get c) :
    IsCombination s k fun c => cost'.get c - w.get c := by
  have hget : (fun c => cost'.get c - w.get c) = fun c => cost.get c - w.get c - a * l.get c := by
    funext c
    rw [hcost', sub_right_comm]
  rw [hget]
  exact hcost.sub_mul hl a

theorem CostCombines.pivot (hcost : CostCombines w k t) (h : LinesCombine k t) :
    CostCombines w k (t.pivot r c) :=
  isCombination_cost_sub hcost (isCombination_pivotLine h) (get_reduce _ _ _)

/-- Clamping may change the right-hand sides only. -/
lemma isCombination_clamp {l : TableauLine ℚ (width s)} (c : Fin (width s)) :
    IsCombination s c.castSucc l.clamp.get ↔ IsCombination s c.castSucc l.get := by
  have hentry : ∀ c : Fin (width s), l.clamp.get c.castSucc = l.get c.castSucc := entry_clamp l
  unfold IsCombination
  simp only [hentry]

theorem LinesCombine.advance (h : LinesCombine c.castSucc t) {r : Fin n} {q : Fin (width s)} :
    LinesCombine c.castSucc (t.advance r q) := by
  intro i
  rw [Tableau.advance, lines_clamp, isCombination_clamp]
  exact h.pivot i

theorem CostCombines.advance (hcost : CostCombines w c.castSucc t) (h : LinesCombine c.castSucc t)
    {r : Fin n} {q : Fin (width s)} : CostCombines w c.castSucc (t.advance r q) :=
  hcost.pivot h

/-- What a run keeps of lines and costs. -/
theorem Reaches.combine {limit : Nat} {t₀ : Tableau ℚ n (width s)} (h : Reaches limit t₀ t)
    (hlines : LinesCombine c.castSucc t₀) (hcost : CostCombines w c.castSucc t₀) :
    LinesCombine c.castSucc t ∧ CostCombines w c.castSucc t :=
  h.invariant (P := fun t => LinesCombine c.castSucc t ∧ CostCombines w c.castSucc t)
    (fun _ _ _ _ h => ⟨h.1.advance, h.2.advance h.1⟩) ⟨hlines, hcost⟩

/-! ## The phases -/

lemma start_lines (i : Fin n) : (start s).lines.get i = line s i := Vector.get_ofFn _ i

theorem linesCombine_start (k : Fin (width s + 1)) : LinesCombine k (start s) := by
  intro i
  rw [start_lines]
  exact isCombination_line i k

lemma get_foldl_sub (ls : List (TableauLine ℚ (width s))) (cost : TableauLine ℚ (width s))
    (k : Fin (width s + 1)) :
    (ls.foldl (fun cost l => cost.zipWith (· - ·) l) cost).get k =
      cost.get k - (ls.map fun l => l.get k).sum := by
  induction ls generalizing cost with
  | nil => simp
  | cons l ls ih => rw [List.foldl_cons, ih, get_zipWith, List.map_cons, List.sum_cons, sub_add_eq_sub_sub]

/-- At the start the cost of the artificial columns is taken off by the lines. -/
lemma start_cost (k : Fin (width s + 1)) :
    (start s).cost.get k = (artificialCost s).get k - ∑ i, (line s i).get k := by
  have hcost : (start s).cost = (List.ofFn (start s).lines.get).foldl
      (fun cost l => cost.zipWith (· - ·) l) (artificialCost s) := foldl_eq_foldl_ofFn _ _ _
  rw [hcost, get_foldl_sub, List.map_ofFn, List.sum_ofFn]
  simp only [Function.comp_apply, start_lines]

theorem costCombines_start (k : Fin (width s + 1)) : CostCombines (artificialCost s) k (start s) := by
  have hcost : ∀ c, (start s).cost.get c - (artificialCost s).get c = -∑ i, (line s i).get c := by
    intro c
    rw [start_cost, sub_sub_cancel_left]
  have hartificial : ∀ j, ∑ i, (line s i).get (artificial s j).castSucc = 1 := by
    intro j
    have hentry : ∀ i, (line s i).get (artificial s j).castSucc = if i = j then 1 else 0 :=
      fun i => line_artificial i j
    simp only [hentry]
    rw [Finset.sum_ite_eq', if_pos (Finset.mem_univ j)]
  unfold CostCombines IsCombination
  simp only [hcost, hartificial, neg_one_mul, Finset.sum_neg_distrib]

theorem LinesCombine.driveOut (h : LinesCombine k t) (r : Fin n) :
    LinesCombine k (driveOut s t r) := by
  unfold Simplex.driveOut
  split
  · exact h
  · split
    · exact h
    · exact h.pivot

/-- The tableau in which phase two starts, from where phase one has ended. -/
def secondStart (s : InequalitySystem ℚ n) (t : Tableau ℚ n (width s)) : Tableau ℚ n (width s) :=
  dualStart s ((List.finRange n).foldl (Simplex.driveOut s) t)

theorem LinesCombine.secondStart (h : LinesCombine k t) : LinesCombine k (secondStart s t) :=
  List.foldlRecOn (List.finRange n) (Simplex.driveOut s) (motive := LinesCombine k) h
    fun _ h r _ => h.driveOut r

theorem costCombines_secondStart (h : LinesCombine k t) :
    CostCombines (dualCost s) k (secondStart s t) := by
  have hlines := h.secondStart
  refine List.foldlRecOn (List.finRange n) _ (motive := fun cost : TableauLine ℚ (width s) =>
    IsCombination s k fun c => cost.get c - (dualCost s).get c) ?_ ?_
  · simp [IsCombination]
  · intro cost hcost i _
    exact isCombination_cost_sub hcost (hlines i) (get_reduce _ _ _)

end MarkovFit.Proofs
