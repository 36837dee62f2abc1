import MarkovFit.Proofs.ModelRows

/-!
# Names of terms

The values of the terms at a sample stand under the names of the coefficients, one for each.
-/

namespace MarkovFit.Proofs

/-- Computations that keep a name keep the list of names. -/
theorem names_of_mapM {α : Type} {f : String × α → Except Failure (String × Decimal)}
    (hf : ∀ x pair, f x = .ok pair → pair.1 = x.1) {xs : List (String × α)}
    {pairs : List (String × Decimal)} (h : xs.mapM f = .ok pairs) :
    pairs.map Prod.fst = xs.map Prod.fst := by
  rw [← List.forall₂_eq_eq_eq, List.forall₂_map_left_iff, List.forall₂_map_right_iff]
  exact (mapM_eq_ok.1 h).flip.imp fun _ _ hx => hf _ _ hx

theorem mem_ofList_iff_name {pairs : List (String × Decimal)} {name : String} :
    name ∈ (Std.TreeMap.ofList pairs : Valuation) ↔ name ∈ pairs.map Prod.fst := by
  rw [Std.TreeMap.mem_ofList, List.contains_iff_mem]

/-- An evaluated template has a value for each of its coefficients and for nothing else. -/
theorem mem_evaluate_iff {t : Template} {x : Sample} {terms : Valuation}
    (h : t.evaluate x = .ok terms) (name : String) : name ∈ terms ↔ name ∈ t.coefficients := by
  cases t with
  | polynomial p =>
    obtain ⟨point, -, h⟩ := bind_eq_ok.1 h
    obtain ⟨pairs, hpairs, h⟩ := bind_eq_ok.1 h
    cases h
    rw [mem_ofList_iff_name, names_of_mapM ?_ hpairs]
    · rfl
    · rintro ⟨name, m⟩ pair hpair
      obtain ⟨a, -, hpair⟩ := bind_eq_ok.1 hpair
      cases hpair
      rfl
  | terms t =>
    obtain ⟨pairs, hpairs, h⟩ := bind_eq_ok.1 h
    cases h
    have hlength : t.coefficients.length ≤ t.terms.length := by simp [TermList.coefficients]
    rw [mem_ofList_iff_name, names_of_mapM ?_ hpairs, List.map_fst_zip hlength]
    · rfl
    · rintro ⟨name, term⟩ pair hpair
      obtain ⟨a, -, hpair⟩ := bind_eq_ok.1 hpair
      cases hpair
      rfl

end MarkovFit.Proofs
