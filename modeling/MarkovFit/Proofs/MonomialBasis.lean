import MarkovFit.Proofs.CoefficientCount
import MarkovFit.Proofs.CoefficientNames
import Mathlib.Data.Finset.Sort
import Mathlib.Data.List.Iterate
import Mathlib.Data.List.Lex
import Mathlib.Data.Nat.Choose.Sum

/-!
# The basis of monomials

The lists of exponents with a given sum are listed all and once, the greater ones first. They are what
multiplying the monomials of the degree below by every variable leads to, when a product that is met
again is dropped. Their number is a binomial coefficient, and so is the number of all monomials up to a
degree, which is what the count of coefficients computes.
-/

namespace MarkovFit.Proofs

open Monomial Sampling

variable {n d i : ℕ} {es : List ℕ}

/-! ### Lists of exponents -/

theorem mem_exponentLists_iff : es ∈ exponentLists n d ↔ es.length = n ∧ es.sum = d := by
  refine ⟨of_mem_exponentLists, ?_⟩
  rintro ⟨rfl, rfl⟩
  induction es with
  | nil => exact List.mem_singleton_self _
  | cons e es ih =>
    have hle : e < (e :: es).sum + 1 := by
      rw [List.sum_cons]
      omega
    have hrest : (e :: es).sum - e = es.sum := by
      rw [List.sum_cons]
      omega
    apply List.mem_flatMap.2
    refine ⟨e, List.mem_reverse.2 (List.mem_range.2 hle), ?_⟩
    rw [hrest]
    exact List.mem_map_of_mem ih

/-- Greater first exponents come first, and the rest decides between equal ones. -/
theorem pairwise_exponentLists (n d : ℕ) :
    (exponentLists n d).Pairwise fun es es' => es' < es := by
  induction n generalizing d with
  | zero => cases d <;> simp [exponentLists]
  | succ n ih =>
    apply List.pairwise_flatMap.2
    constructor
    · intro e _
      apply (ih (d - e)).map
      intro es es' hlt
      exact List.cons_lt_cons_iff.2 (.inr ⟨rfl, hlt⟩)
    · apply List.pairwise_reverse.2
      apply List.pairwise_lt_range.imp
      intro e e' hlt es hes es' hes'
      obtain ⟨rest, -, rfl⟩ := List.mem_map.1 hes
      obtain ⟨rest', -, rfl⟩ := List.mem_map.1 hes'
      exact List.cons_lt_cons_iff.2 (.inl hlt)

/-! ### Products with a variable -/

theorem sum_modify (hi : i < es.length) : (es.modify i (· + 1)).sum = es.sum + 1 := by
  induction es generalizing i with
  | nil => exact absurd hi (Nat.not_lt_zero i)
  | cons e es ih =>
    cases i with
    | zero =>
      rw [List.modify_zero_cons, List.sum_cons, List.sum_cons]
      omega
    | succ i =>
      rw [List.modify_succ_cons, List.sum_cons, List.sum_cons, ih (Nat.lt_of_succ_lt_succ hi)]
      omega

/-- A list of exponents that are not all zero is the product of another one with a variable. -/
theorem exists_modify_eq (h : es.sum = d + 1) :
    ∃ es' : List ℕ, es'.length = es.length ∧ es'.sum = d ∧
      ∃ i < es.length, es'.modify i (· + 1) = es := by
  induction es with
  | nil => cases h
  | cons e es ih =>
    cases e with
    | zero =>
      rw [List.sum_cons, Nat.zero_add] at h
      obtain ⟨es', hlength, hsum, i, hi, hes⟩ := ih h
      refine ⟨0 :: es', congrArg (· + 1) hlength, ?_, i + 1, Nat.succ_lt_succ hi, ?_⟩
      · rw [List.sum_cons, hsum, Nat.zero_add]
      · rw [List.modify_succ_cons, hes]
    | succ e =>
      refine ⟨e :: es, rfl, ?_, 0, Nat.zero_lt_succ _, rfl⟩
      rw [List.sum_cons] at h ⊢
      omega

/-- The products of some monomials with each of the variables, in decreasing order and without
repetition. -/
def productsWithVariables (n : ℕ) (group : List Monomial) : List Monomial :=
  ((group.flatMap fun m => (List.range n).map fun i => (m.times i).exponents).toFinset.sort
    (· ≥ ·)).map Monomial.mk

/-- The monomials of a degree. -/
def ofDegree (n d : ℕ) : List Monomial := (exponentLists n d).map Monomial.mk

theorem productsWithVariables_ofDegree (n d : ℕ) :
    productsWithVariables n (ofDegree n d) = ofDegree n (d + 1) := by
  have hproducts : (((ofDegree n d).flatMap fun m =>
      (List.range n).map fun i => (m.times i).exponents).toFinset) =
        (exponentLists n (d + 1)).toFinset := by
    ext es
    simp only [ofDegree, List.mem_toFinset, List.mem_flatMap, List.mem_map, List.mem_range,
      mem_exponentLists_iff]
    constructor
    · rintro ⟨_, ⟨es', ⟨hlength, hsum⟩, rfl⟩, i, hi, rfl⟩
      refine ⟨(List.length_modify _ _ _).trans hlength, ?_⟩
      rw [← hsum]
      exact sum_modify (hi.trans_eq hlength.symm)
    · rintro ⟨hlength, hsum⟩
      obtain ⟨es', hlength', hsum', i, hi, rfl⟩ := exists_modify_eq hsum
      exact ⟨⟨es'⟩, ⟨es', ⟨hlength'.trans hlength, hsum'⟩, rfl⟩, i, hi.trans_eq hlength, rfl⟩
  unfold productsWithVariables
  rw [hproducts, (List.toFinset_sort (· ≥ ·) (nodup_exponentLists n (d + 1))).2]
  · rfl
  · exact (pairwise_exponentLists n (d + 1)).imp le_of_lt

theorem iterate_productsWithVariables (n d : ℕ) :
    (productsWithVariables n)^[d] [one n] = ofDegree n d := by
  induction d with
  | zero =>
    unfold ofDegree
    rw [exponentLists_zero]
    rfl
  | succ d ih => rw [Function.iterate_succ_apply', ih, productsWithVariables_ofDegree]

/-! ### Numbers of monomials -/

/-- With one variable more, what the others leave is up to that one. -/
theorem length_exponentLists_succ (n d : ℕ) :
    (exponentLists (n + 1) d).length = ∑ i ∈ Finset.range (d + 1), (exponentLists n i).length := by
  have hreverse := Finset.sum_range_reflect (fun i => (exponentLists n i).length) (d + 1)
  rw [← hreverse, exponentLists, List.length_flatMap, List.map_reverse, List.sum_reverse]
  simp only [List.length_map]
  rfl

theorem length_exponentLists (n d : ℕ) : (exponentLists (n + 1) d).length = (d + n).choose n := by
  induction n generalizing d with
  | zero =>
    rw [length_exponentLists_succ, Finset.sum_range_succ', Nat.choose_zero_right]
    apply Nat.add_eq_right.2
    exact Finset.sum_eq_zero fun i _ => rfl
  | succ n ih =>
    rw [length_exponentLists_succ, Finset.sum_congr rfl fun i _ => ih i]
    exact Nat.sum_range_add_choose d n

theorem length_flatten_basis (n maxDegree : ℕ) :
    (basis n maxDegree).flatten.length = (n + maxDegree).choose maxDegree := by
  calc (basis n maxDegree).flatten.length
      = ∑ d ∈ Finset.range (maxDegree + 1), (exponentLists n d).length := by
        unfold basis
        rw [← List.flatMap_def, List.length_flatMap]
        simp only [List.length_map]
        rfl
    _ = (maxDegree + n).choose n := by rw [← length_exponentLists_succ, length_exponentLists]
    _ = (n + maxDegree).choose maxDegree := by rw [Nat.choose_symm_add.symm, Nat.add_comm]

/-! ### The basis -/

/-- A list of all monomials of a degree, each once and the greater ones first. -/
structure IsDegreeGroup (n d : ℕ) (group : List Monomial) : Prop where
  mem_iff : ∀ m, m ∈ group ↔ m.exponents.length = n ∧ m.degree = d
  nodup : group.Nodup
  decreasing : group.Pairwise fun m m' => m'.exponents < m.exponents

theorem isDegreeGroup_ofDegree (n d : ℕ) : IsDegreeGroup n d (ofDegree n d) where
  mem_iff m := by
    refine Iff.trans ?_ mem_exponentLists_iff
    constructor
    · intro hm
      obtain ⟨es, hes, rfl⟩ := List.mem_map.1 hm
      exact hes
    · exact List.mem_map_of_mem
  nodup := (nodup_exponentLists n d).map fun _ _ h => congrArg Monomial.exponents h
  decreasing := List.pairwise_map.2 (pairwise_exponentLists n d)

/-- The basis has a group for each degree, which is generated from the group before it. -/
theorem basis_is_complete (n maxDegree : ℕ) :
    (basis n maxDegree).length = maxDegree + 1 ∧
      List.Forall₂ (IsDegreeGroup n) (List.range (maxDegree + 1)) (basis n maxDegree) ∧
      basis n maxDegree = List.iterate (productsWithVariables n) [one n] (maxDegree + 1) ∧
      (basis n maxDegree).flatten.length = (n + maxDegree).choose maxDegree ∧
      (coefficientCount n maxDegree = none ∨
        coefficientCount n maxDegree = some (basis n maxDegree).flatten.length) := by
  refine ⟨?_, ?_, ?_, length_flatten_basis n maxDegree, ?_⟩
  · exact (List.length_map _).trans List.length_range
  · apply List.forall₂_map_right_iff.2
    apply List.forall₂_same.2
    exact fun d _ => isDegreeGroup_ofDegree n d
  · rw [← List.range_map_iterate]
    apply List.map_congr_left
    exact fun d _ => (iterate_productsWithVariables n d).symm
  · cases hcount : coefficientCount n maxDegree with
    | none => exact .inl rfl
    | some count =>
      right
      rw [length_flatten_basis, coefficientCount_eq_some hcount]

end MarkovFit.Proofs
