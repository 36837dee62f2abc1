import Mathlib.Data.Finset.Card
import Mathlib.Data.Finset.Range
import Std.Data.TreeMap.Lemmas

/-!
# Maps

What a map holds that is made from a list or merged from several maps, and when its size shows that
no key below a bound is missing.
-/

namespace MarkovFit.Proofs

variable {κ β : Type} {cmp : κ → κ → Ordering} [Std.TransCmp cmp]

theorem mem_iff_exists_getElem? {t : Std.TreeMap κ β cmp} {k : κ} : k ∈ t ↔ ∃ v, t[k]? = some v := by
  rw [Std.TreeMap.mem_iff_isSome_getElem?, Option.isSome_iff_exists]

variable [Std.LawfulEqCmp cmp]

/-- A map made from a list without repeated keys holds exactly the pairs of the list. -/
theorem getElem?_ofList_iff [BEq κ] [LawfulBEq κ] {pairs : List (κ × β)}
    (hnodup : (pairs.map Prod.fst).Nodup) {k : κ} {v : β} :
    (Std.TreeMap.ofList pairs cmp)[k]? = some v ↔ (k, v) ∈ pairs := by
  have hdistinct : pairs.Pairwise fun a b => ¬cmp a.1 b.1 = .eq := by
    simpa only [Std.LawfulEqCmp.compare_eq_iff_eq] using List.pairwise_map.1 hnodup
  constructor
  · intro h
    have hk : k ∈ Std.TreeMap.ofList pairs cmp := mem_iff_exists_getElem?.2 ⟨v, h⟩
    rw [Std.TreeMap.mem_ofList, List.contains_iff_mem, List.mem_map] at hk
    obtain ⟨⟨k', v'⟩, hmem, rfl⟩ := hk
    have hv' := Std.TreeMap.getElem?_ofList_of_mem
      (Std.LawfulEqCmp.compare_eq_iff_eq.2 rfl) hdistinct hmem
    rw [h] at hv'
    cases hv'
    exact hmem
  · exact Std.TreeMap.getElem?_ofList_of_mem (Std.LawfulEqCmp.compare_eq_iff_eq.2 rfl) hdistinct

/-- What is inserted takes the place of what was there. -/
theorem getElem?_insertMany_toList [BEq κ] [LawfulBEq κ] (all one : Std.TreeMap κ β cmp) (k : κ) :
    (all.insertMany one.toList)[k]? = one[k]?.or all[k]? := by
  cases hone : one[k]? with
  | none =>
    have hk : (one.toList.map Prod.fst).contains k = false := by
      rw [Std.TreeMap.map_fst_toList_eq_keys, ← Bool.not_eq_true, List.contains_iff_mem,
        Std.TreeMap.mem_keys, Std.TreeMap.mem_iff_isSome_getElem?, hone]
      simp
    rw [Std.TreeMap.getElem?_insertMany_list_of_contains_eq_false hk]
    rfl
  | some v =>
    have hmem := Std.TreeMap.mem_toList_iff_getElem?_eq_some.2 hone
    exact Std.TreeMap.getElem?_insertMany_list_of_mem (Std.LawfulEqCmp.compare_eq_iff_eq.2 rfl)
      Std.TreeMap.distinct_keys_toList hmem

/-- A merge of maps has the keys of all of them. -/
theorem mem_foldl_insertMany [BEq κ] [LawfulBEq κ] {maps : List (Std.TreeMap κ β cmp)}
    {start : Std.TreeMap κ β cmp} {k : κ} :
    k ∈ maps.foldl (fun all one => all.insertMany one.toList) start ↔
      k ∈ start ∨ ∃ one ∈ maps, k ∈ one := by
  induction maps generalizing start with
  | nil => simp
  | cons one maps ih =>
    have hfirst : k ∈ start.insertMany one.toList ↔ k ∈ one ∨ k ∈ start := by
      simp only [Std.TreeMap.mem_iff_isSome_getElem?, getElem?_insertMany_toList,
        Option.isSome_or, Bool.or_eq_true]
    rw [List.foldl_cons, ih, hfirst, List.exists_mem_cons_iff]
    tauto

/-- A merge of maps has no values of its own. -/
theorem exists_of_getElem?_foldl_insertMany [BEq κ] [LawfulBEq κ]
    {maps : List (Std.TreeMap κ β cmp)} {start : Std.TreeMap κ β cmp} {k : κ} {v : β}
    (h : (maps.foldl (fun all one => all.insertMany one.toList) start)[k]? = some v) :
    start[k]? = some v ∨ ∃ one ∈ maps, one[k]? = some v := by
  induction maps generalizing start with
  | nil => exact .inl h
  | cons one maps ih =>
    obtain hfirst | ⟨other, hother, hv⟩ := ih h
    · rw [getElem?_insertMany_toList] at hfirst
      obtain hone | ⟨-, hstart⟩ := Option.or_eq_some_iff.1 hfirst
      · exact .inr ⟨one, List.mem_cons_self, hone⟩
      · exact .inl hstart
    · exact .inr ⟨other, List.mem_cons_of_mem _ hother, hv⟩

/-- A map with keys below `n` has `n` entries exactly when no key is missing. -/
theorem size_eq_iff {t : Std.TreeMap Nat β} {n : Nat} (h : ∀ k ∈ t, k < n) :
    t.size = n ↔ ∀ k < n, k ∈ t := by
  have hcard : t.keys.toFinset.card = t.size := by
    rw [List.toFinset_card_of_nodup Std.TreeMap.nodup_keys, Std.TreeMap.length_keys]
  have hsubset : t.keys.toFinset ⊆ Finset.range n := by
    intro k hk
    rw [List.mem_toFinset, Std.TreeMap.mem_keys] at hk
    exact Finset.mem_range.2 (h k hk)
  constructor
  · intro hsize k hk
    have hall := Finset.eq_of_subset_of_card_le hsubset (by rw [hcard, hsize, Finset.card_range])
    have hkey : k ∈ t.keys.toFinset := hall ▸ Finset.mem_range.2 hk
    rwa [List.mem_toFinset, Std.TreeMap.mem_keys] at hkey
  · intro hkeys
    have hall : t.keys.toFinset = Finset.range n := by
      apply Finset.Subset.antisymm hsubset
      intro k hk
      rw [List.mem_toFinset, Std.TreeMap.mem_keys]
      exact hkeys k (Finset.mem_range.1 hk)
    rw [← hcard, hall, Finset.card_range]

end MarkovFit.Proofs
