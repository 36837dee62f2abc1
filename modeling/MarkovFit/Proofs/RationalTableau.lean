import MarkovFit.LinearProgram.Simplex
import MarkovFit.Proofs.DecimalValue
import Mathlib

/-!
# Tableaus of rational numbers

Over the rationals the operations on scalars and tableaus are what they look like. This file says so
once: comparisons are those of rational numbers, a scalar product is a sum, a choice among indices
is one of them, and a pivot takes from each line the multiple of the pivot line that clears the
column.
-/

namespace MarkovFit.Proofs

open Scalar

/-! ## Scalars -/

lemma lt_eq_true {a b : ℚ} : Scalar.lt a b = true ↔ a < b := decide_eq_true_iff

lemma le_eq_true {a b : ℚ} : Scalar.le a b = true ↔ a ≤ b := decide_eq_true_iff

lemma isZero_eq_true {a : ℚ} : isZero a = true ↔ a = 0 := by
  unfold isZero
  rw [Bool.and_eq_true, le_eq_true, le_eq_true]
  exact le_antisymm_iff.symm

lemma larger_eq_max (a b : ℚ) : larger a b = max a b := by
  unfold larger
  by_cases h : a < b
  · rw [if_pos (lt_eq_true.2 h), max_eq_right h.le]
  · rw [if_neg (mt lt_eq_true.1 h), max_eq_left (not_lt.1 h)]

lemma magnitude_eq_abs (a : ℚ) : magnitude a = |a| := by
  unfold magnitude
  by_cases h : a < 0
  · rw [if_pos (lt_eq_true.2 h), abs_of_neg h]
  · rw [if_neg (mt lt_eq_true.1 h), abs_of_nonneg (not_lt.1 h)]

lemma toRat_unit (places : Nat) (h : places ≤ 28) : (Decimal.unit places).toRat = 1 / 10 ^ places := by
  have hscale : (Decimal.unit places).scale = places := Nat.min_eq_left h
  rw [toRat_eq_div, hscale]
  norm_num [Decimal.signedMantissa, Decimal.unit]

lemma optimalityTolerance_eq : (Tableau.optimalityTolerance : ℚ) = 1 / 10 ^ 9 :=
  toRat_unit 9 (by decide)

lemma optimalityTolerance_pos : (0 : ℚ) < Tableau.optimalityTolerance := by
  rw [optimalityTolerance_eq]
  norm_num

lemma pivotTolerance_eq : (Tableau.pivotTolerance : ℚ) = 1 / 10 ^ 9 := toRat_unit 9 (by decide)

lemma ratioTolerance_eq : (Tableau.ratioTolerance : ℚ) = 1 / 10 ^ 11 := toRat_unit 11 (by decide)

lemma residualTolerance_eq : (Simplex.residualTolerance : ℚ) = 1 / 10 ^ 6 := toRat_unit 6 (by decide)

/-! ## Choices -/

section choices

variable {ι : Type} {key : ι → ℚ}

/-- A choice between neighbours, made over and over, stays within the list. -/
lemma foldl_choice_mem {f : ι → ι → ι} (hf : ∀ a b, f a b = a ∨ f a b = b) (i : ι) (is : List ι) :
    is.foldl f i ∈ i :: is := by
  induction is generalizing i with
  | nil => exact List.mem_cons_self
  | cons j is ih =>
    rw [List.foldl_cons]
    obtain h | h := hf i j
    · rw [h]
      exact List.mem_cons.2 ((List.mem_cons.1 (ih i)).imp_right (List.mem_cons_of_mem j))
    · rw [h]
      exact List.mem_cons_of_mem i (ih j)

lemma firstLeast?_mem {is : List ι} {i : ι} (h : firstLeast? key is = some i) : i ∈ is := by
  cases is with
  | nil => cases h
  | cons j is =>
    obtain rfl := Option.some.inj h
    exact foldl_choice_mem (fun a b => (ite_eq_or_eq _ b a).symm) j is

lemma firstLeast?_eq_none {is : List ι} : firstLeast? key is = none ↔ is = [] := by
  cases is <;> simp [firstLeast?]

lemma lastGreatest?_mem {is : List ι} {i : ι} (h : lastGreatest? key is = some i) : i ∈ is := by
  cases is with
  | nil => cases h
  | cons j is =>
    obtain rfl := Option.some.inj h
    exact foldl_choice_mem (fun a b => ite_eq_or_eq _ a b) j is

lemma lastGreatest?_eq_none {is : List ι} : lastGreatest? key is = none ↔ is = [] := by
  cases is <;> simp [lastGreatest?]

end choices

lemma least?_cons (x : ℚ) (xs : List ℚ) : least? (x :: xs) = some (xs.foldl min x) := by
  have hstart : (if Scalar.le x x then some x else none) = some x :=
    if_pos (le_eq_true.2 (le_refl x))
  rw [least?, List.foldl_cons, hstart]
  dsimp only
  clear hstart
  induction xs generalizing x with
  | nil => rfl
  | cons y xs ih =>
    have hmin : (if Scalar.lt y x then some y else some x) = some (min x y) := by
      by_cases h : y < x
      · rw [if_pos (lt_eq_true.2 h), min_eq_right h.le]
      · rw [if_neg (mt lt_eq_true.1 h), min_eq_left (not_lt.1 h)]
    rw [List.foldl_cons, List.foldl_cons, ← ih]
    dsimp only
    rw [hmin]

lemma foldl_min_le (xs : List ℚ) (a : ℚ) : xs.foldl min a ≤ a ∧ ∀ x ∈ xs, xs.foldl min a ≤ x := by
  induction xs generalizing a with
  | nil => simp
  | cons y xs ih =>
    obtain ⟨hstart, hrest⟩ := ih (min a y)
    rw [List.foldl_cons, List.forall_mem_cons]
    exact ⟨hstart.trans (min_le_left a y), hstart.trans (min_le_right a y), hrest⟩

/-- The least of some numbers is one of them and not above any. -/
theorem least?_spec {xs : List ℚ} (h : xs ≠ []) :
    ∃ a, least? xs = some a ∧ a ∈ xs ∧ ∀ x ∈ xs, a ≤ x := by
  cases xs with
  | nil => exact absurd rfl h
  | cons x xs =>
    exact ⟨_, least?_cons x xs, foldl_choice_mem (fun a b => min_choice a b) x xs,
      List.forall_mem_cons.2 (foldl_min_le xs x)⟩

/-! ## Sums -/

variable {n width : Nat}

lemma get_zipWith {α β γ : Type} (f : α → β → γ) (v : Vector α n) (w : Vector β n) (i : Fin n) :
    (v.zipWith f w).get i = f (v.get i) (w.get i) :=
  Vector.getElem_zipWith i.isLt

lemma get_set {α : Type} (v : Vector α n) (i j : Fin n) (a : α) :
    (v.set i a i.isLt).get j = if i = j then a else v.get j := by
  refine (Vector.getElem_set i.isLt j.isLt).trans ?_
  simp only [Fin.val_inj]
  rfl

lemma ofFn_get {α : Type} (v : Vector α n) : Vector.ofFn v.get = v :=
  Vector.ext fun _ hi => Vector.getElem_ofFn hi

/-- A fold over a vector goes through its entries. -/
lemma foldl_eq_foldl_ofFn {α β : Type} (f : β → α → β) (b : β) (v : Vector α n) :
    v.foldl f b = (List.ofFn v.get).foldl f b := by
  rw [← Vector.foldl_toList, ← Vector.toList_ofFn, ofFn_get]

lemma foldl_add_eq_sum (v : Vector ℚ n) (a : ℚ) :
    v.foldl (· + ·) a = a + ∑ j, v.get j := by
  rw [foldl_eq_foldl_ofFn, ← List.sum_ofFn]
  generalize List.ofFn v.get = xs
  induction xs generalizing a with
  | nil => simp
  | cons x xs ih => rw [List.foldl_cons, ih, List.sum_cons, add_assoc]

theorem dot_eq_sum (a b : Vector ℚ n) : dot a b = ∑ j, a.get j * b.get j := by
  refine (foldl_add_eq_sum _ 0).trans ?_
  rw [zero_add]
  exact Finset.sum_congr rfl fun j _ => get_zipWith _ a b j

/-! ## Moves -/

/-- What is left of a line when a multiple of another one is taken away. -/
lemma get_reduce (line other : TableauLine ℚ width) (f : ℚ) (k : Fin (width + 1)) :
    (line.reduce f other).get k = line.get k - f * other.get k := by
  unfold TableauLine.reduce
  by_cases h : f = 0
  · rw [if_pos (isZero_eq_true.2 h), h, zero_mul, sub_zero]
  · rw [if_neg (mt isZero_eq_true.1 h)]
    exact get_zipWith _ line other k

/-- Clamping changes nothing but the right-hand side. -/
lemma entry_clamp (line : TableauLine ℚ width) (k : Fin width) : line.clamp.entry k = line.entry k := by
  unfold TableauLine.clamp
  split
  · exact (get_set line (Fin.last width) k.castSucc 0).trans (if_neg (Fin.castSucc_lt_last k).ne')
  · rfl

lemma clamp_eq_self {line : TableauLine ℚ width} (h : 0 ≤ line.rhs) : line.clamp = line := by
  unfold TableauLine.clamp
  exact if_neg (mt lt_eq_true.1 (not_lt.2 h))

variable (t : Tableau ℚ n width) (r i : Fin n) (c : Fin width)

/-- The pivot line of a move. -/
def pivotLine (t : Tableau ℚ n width) (r : Fin n) (c : Fin width) : TableauLine ℚ width :=
  (t.lines.get r).map (· / (t.lines.get r).entry c)

lemma get_pivotLine (k : Fin (width + 1)) :
    (pivotLine t r c).get k = (t.lines.get r).get k / (t.lines.get r).entry c :=
  Vector.get_map _ _ k

lemma lines_pivot : (t.pivot r c).lines.get i =
    if i = r then pivotLine t r c
    else (t.lines.get i).reduce ((t.lines.get i).entry c) (pivotLine t r c) :=
  Vector.get_ofFn _ i

lemma cost_pivot : (t.pivot r c).cost = t.cost.reduce (t.cost.entry c) (pivotLine t r c) := rfl

lemma basis_pivot : (t.pivot r c).basis.get i = if r = i then c else t.basis.get i :=
  get_set t.basis r i c

lemma lines_clamp : t.clamp.lines.get i = (t.lines.get i).clamp := Vector.get_map _ _ i

end MarkovFit.Proofs
