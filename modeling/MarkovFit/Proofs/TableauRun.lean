import MarkovFit.Proofs.RationalTableau

/-!
# Runs of a tableau

A move enters a column whose reduced cost promises a gain, at a line whose entry there exceeds the
pivot threshold. A run is a sequence of such moves, under either rule of choice; what one move keeps
is therefore kept by a whole phase. At its end either no column before the limit has a gain above
the tolerance, or a column with such a gain has no entry above its threshold.
-/

namespace MarkovFit.Proofs

open Scalar

variable {n width limit : Nat} {t t' : Tableau ℚ n width} {r : Fin n} {c : Fin width}
  {lowest : Bool}

/-! ## The choice of a move -/

lemma mem_improving :
    c ∈ t.improving limit ↔ c.val < limit ∧ t.cost.entry c < -Tableau.optimalityTolerance := by
  unfold Tableau.improving
  rw [List.mem_filter, Bool.and_eq_true, decide_eq_true_iff, lt_eq_true]
  exact and_iff_right (List.mem_finRange c)

theorem entering?_mem (h : t.entering? limit lowest = some c) : c ∈ t.improving limit := by
  unfold Tableau.entering? at h
  cases lowest with
  | true => exact List.mem_of_mem_head? h
  | false => exact firstLeast?_mem h

theorem entering?_eq_none (h : t.entering? limit lowest = none) : t.improving limit = [] := by
  unfold Tableau.entering? at h
  cases lowest with
  | true => exact List.head?_eq_none_iff.1 h
  | false => exact firstLeast?_eq_none.1 h

/-- What an entry of a column has to exceed to be a pivot. -/
def pivotThreshold (t : Tableau ℚ n width) (c : Fin width) : ℚ :=
  Tableau.pivotTolerance * max (t.columnSize c) 1

lemma pivotThreshold_pos : 0 < pivotThreshold t c := by
  have htolerance : (0 : ℚ) < Tableau.pivotTolerance := by
    rw [pivotTolerance_eq]
    norm_num
  exact mul_pos htolerance (lt_max_of_lt_right one_pos)

lemma mem_eligible : r ∈ t.eligible c ↔ pivotThreshold t c < (t.lines.get r).entry c := by
  unfold Tableau.eligible
  rw [List.mem_filter, lt_eq_true, larger_eq_max]
  exact and_iff_right (List.mem_finRange r)

theorem leaving?_mem (h : t.leaving? c lowest = some r) : r ∈ t.eligible c := by
  unfold Tableau.leaving? at h
  cases lowest with
  | true =>
    obtain ⟨least, -, h⟩ := Option.bind_eq_some_iff.1 h
    dsimp only at h
    split at h
    · cases h
    · rename_i i is hties
      obtain rfl := Option.some.inj h
      have hmem := foldl_choice_mem
        (f := fun best j => if t.basis.get j < t.basis.get best then j else best)
        (fun a b => (ite_eq_or_eq _ b a).symm) i is
      rw [← hties] at hmem
      exact (List.mem_filter.1 hmem).1
  | false =>
    obtain ⟨bound, -, h⟩ := Option.bind_eq_some_iff.1 h
    exact (List.mem_filter.1 (lastGreatest?_mem h)).1

lemma ratioTolerance_nonneg : (0 : ℚ) ≤ Tableau.ratioTolerance := by
  rw [ratioTolerance_eq]
  norm_num

lemma ratio_eq (i : Fin n) : t.ratio c i = max 0 (t.lines.get i).rhs / (t.lines.get i).entry c :=
  congrArg (· / _) (larger_eq_max _ _)

lemma slackRatio_eq (i : Fin n) : t.slackRatio c i =
    (max 0 (t.lines.get i).rhs + Tableau.ratioTolerance) / (t.lines.get i).entry c :=
  congrArg (fun x => (x + Tableau.ratioTolerance) / _) (larger_eq_max _ _)

/-- An eligible line passes its own slack. -/
lemma ratio_le_slackRatio (h : r ∈ t.eligible c) : t.ratio c r ≤ t.slackRatio c r := by
  rw [ratio_eq, slackRatio_eq]
  exact div_le_div_of_nonneg_right (le_add_of_nonneg_right ratioTolerance_nonneg)
    (pivotThreshold_pos.trans (mem_eligible.1 h)).le

/-- Only a column without any eligible line has no pivot. -/
theorem leaving?_eq_none (h : t.leaving? c lowest = none) : t.eligible c = [] := by
  by_contra hne
  unfold Tableau.leaving? at h
  cases lowest with
  | true =>
    have hratios : (t.eligible c).map (t.ratio c) ≠ [] := by simpa using hne
    obtain ⟨least, hleast, hmem, -⟩ := least?_spec hratios
    obtain ⟨i, hi, hratio⟩ := List.mem_map.1 hmem
    have htie : i ∈ (t.eligible c).filter fun i => le (t.ratio c i) (least + Tableau.ratioTolerance) :=
      List.mem_filter.2 ⟨hi, le_eq_true.2 (hratio ▸ le_add_of_nonneg_right ratioTolerance_nonneg)⟩
    simp only [if_true, hleast, Option.bind_eq_bind, Option.bind_some] at h
    split at h
    · rename_i hempty
      rw [hempty] at htie
      exact absurd htie List.not_mem_nil
    · cases h
  | false =>
    have hratios : (t.eligible c).map (t.slackRatio c) ≠ [] := by simpa using hne
    obtain ⟨bound, hbound, hmem, -⟩ := least?_spec hratios
    obtain ⟨i, hi, hratio⟩ := List.mem_map.1 hmem
    have hwithin : i ∈ (t.eligible c).filter fun i => le (t.ratio c i) bound :=
      List.mem_filter.2 ⟨hi, le_eq_true.2 (hratio ▸ ratio_le_slackRatio hi)⟩
    simp only [Bool.false_eq_true, if_false, hbound] at h
    have hempty := lastGreatest?_eq_none.1 h
    rw [hempty] at hwithin
    exact absurd hwithin List.not_mem_nil

/-- A move goes to a column that gains, at an eligible line. -/
theorem next_eq_pivot (h : t.next limit lowest = .pivot r c) :
    c ∈ t.improving limit ∧ r ∈ t.eligible c := by
  unfold Tableau.next at h
  split at h
  · cases h
  · rename_i c' hc'
    split at h
    · cases h
    · rename_i r' hr'
      cases h
      exact ⟨entering?_mem hc', leaving?_mem hr'⟩

theorem next_eq_optimal (h : t.next limit lowest = .optimal) : t.improving limit = [] := by
  unfold Tableau.next at h
  split at h
  · exact entering?_eq_none ‹_›
  · split at h <;> cases h

theorem next_eq_unbounded (h : t.next limit lowest = .unbounded) :
    ∃ c ∈ t.improving limit, t.eligible c = [] := by
  unfold Tableau.next at h
  split at h
  · cases h
  · rename_i c hc
    split at h
    · exact ⟨c, entering?_mem hc, leaving?_eq_none ‹_›⟩
    · cases h

/-! ## Runs -/

/-- What a run of moves can reach from `start`, each move chosen by one of the two rules. -/
inductive Reaches (limit : Nat) (start : Tableau ℚ n width) : Tableau ℚ n width → Prop
  | refl : Reaches limit start start
  | move {t : Tableau ℚ n width} {r : Fin n} {c : Fin width} {lowest : Bool}
      (before : Reaches limit start t) (chosen : t.next limit lowest = .pivot r c) :
      Reaches limit start (t.advance r c)

/-- What every move at an entry above zero keeps is kept by a run. -/
theorem Reaches.invariant {P : Tableau ℚ n width → Prop}
    (hstep : ∀ t r c, 0 < (t.lines.get r).entry c → P t → P (t.advance r c))
    (h : Reaches limit t t') (ht : P t) : P t' := by
  induction h with
  | refl => exact ht
  | @move t r c _ _ chosen ih =>
    have hentry := mem_eligible.1 (next_eq_pivot chosen).2
    exact hstep t r c (pivotThreshold_pos.trans hentry) ih

/-- A phase ends where a run leads, and says why no move is left. -/
theorem optimize_spec {start : Tableau ℚ n width} (pivots streak : Nat) (h : Reaches limit start t) :
    match Tableau.optimize limit pivots streak t with
    | .optimal t' => Reaches limit start t' ∧ t'.improving limit = []
    | .unbounded t' => Reaches limit start t' ∧ ∃ c ∈ t'.improving limit, t'.eligible c = []
    | .outOfPivots => True := by
  induction pivots generalizing streak t with
  | zero => trivial
  | succ pivots ih =>
    rw [Tableau.optimize]
    cases hnext : t.next limit (Tableau.degenerateStreak ≤ streak) with
    | optimal => exact ⟨h, next_eq_optimal hnext⟩
    | unbounded => exact ⟨h, next_eq_unbounded hnext⟩
    | pivot r c => exact ih (t.streakAfter r streak) (h.move hnext)

theorem optimize_eq_optimal {pivots streak : Nat}
    (h : Tableau.optimize limit pivots streak t = .optimal t') :
    Reaches limit t t' ∧ t'.improving limit = [] := by
  have hspec := optimize_spec pivots streak (.refl : Reaches limit t t)
  rwa [h] at hspec

theorem optimize_eq_unbounded {pivots streak : Nat}
    (h : Tableau.optimize limit pivots streak t = .unbounded t') :
    Reaches limit t t' ∧ ∃ c ∈ t'.improving limit, t'.eligible c = [] := by
  have hspec := optimize_spec pivots streak (.refl : Reaches limit t t)
  rwa [h] at hspec

/-! ## Runs without clamping -/

/-- Whether a move of a run leaves a right-hand side below zero, which is then set to zero. -/
def Overshoots (limit : Nat) : Nat → Nat → Tableau ℚ n width → Prop
  | 0, _, _ => False
  | pivots + 1, streak, t =>
    match t.next limit (Tableau.degenerateStreak ≤ streak) with
    | .optimal | .unbounded => False
    | .pivot r c => (∃ i, ((t.pivot r c).lines.get i).rhs < 0) ∨
        Overshoots limit pivots (t.streakAfter r streak) (t.advance r c)

instance : ∀ (pivots streak : Nat) (t : Tableau ℚ n width), Decidable (Overshoots limit pivots streak t)
  | 0, _, _ => .isFalse id
  | pivots + 1, streak, t => by
    unfold Overshoots
    have hrest := fun streak t => instDecidableOvershoots pivots streak t
    split <;> infer_instance

lemma advance_eq_pivot (h : ¬∃ i, ((t.pivot r c).lines.get i).rhs < 0) :
    t.advance r c = t.pivot r c := by
  have hlines : (t.pivot r c).clamp.lines = (t.pivot r c).lines := by
    refine Vector.ext fun i hi => ?_
    have hrhs : 0 ≤ ((t.pivot r c).lines.get ⟨i, hi⟩).rhs := not_lt.1 fun hlt => h ⟨⟨i, hi⟩, hlt⟩
    exact (lines_clamp _ ⟨i, hi⟩).trans (clamp_eq_self hrhs)
  exact congrArg (fun lines => { t.pivot r c with lines := lines }) hlines

/-- What every pivot at an entry above zero keeps is kept by a phase that clamps nothing. -/
theorem optimize_invariant_of_not_overshoots {P : Tableau ℚ n width → Prop}
    (hstep : ∀ t r c, 0 < (t.lines.get r).entry c → P t → P (t.pivot r c)) {pivots streak : Nat}
    (hclean : ¬Overshoots limit pivots streak t) (ht : P t)
    (hend : Tableau.optimize limit pivots streak t = .optimal t' ∨
      Tableau.optimize limit pivots streak t = .unbounded t') : P t' := by
  induction pivots generalizing streak t with
  | zero => cases hend <;> contradiction
  | succ pivots ih =>
    rw [Tableau.optimize] at hend
    rw [Overshoots] at hclean
    cases hnext : t.next limit (Tableau.degenerateStreak ≤ streak) with
    | optimal =>
      rw [hnext] at hend
      obtain h | h := hend <;> cases h
      exact ht
    | unbounded =>
      rw [hnext] at hend
      obtain h | h := hend <;> cases h
      exact ht
    | pivot r c =>
      rw [hnext] at hend hclean
      obtain ⟨hrhs, hrest⟩ := not_or.1 hclean
      have hentry := pivotThreshold_pos.trans (mem_eligible.1 (next_eq_pivot hnext).2)
      have hadvance := hstep t r c hentry ht
      rw [← advance_eq_pivot hrhs] at hadvance
      exact ih hrest hadvance hend

end MarkovFit.Proofs
