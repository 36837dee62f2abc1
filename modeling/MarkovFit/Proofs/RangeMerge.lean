import MarkovFit.Proofs.PoolCompletion
import Mathlib.Data.Multiset.Lattice
import Mathlib.Data.Prod.Lex
import Mathlib.Data.String.Basic
import Mathlib.Order.WithBot

/-!
# Merging ranges

Of two lower ends a merge keeps the least one, first by value and on a tie by the witness; of two
upper ends it keeps the one with the greater value and, on a tie, again with the first witness. Both
are minima in linear orders, so a merge is the meet of two keys in a lattice. Whatever holds of
meets holds of merges: order and grouping do not matter, and a range never shrinks.
-/

namespace MarkovFit.Proofs

/-! ### Ranges up to the way in which numbers are written -/

/-- Equal values, however they are written, with the same witness. -/
def SameBound (a b : Bound) : Prop := a.value.compare b.value = .eq ∧ a.witness = b.witness

def SameRange (a b : Range) : Prop := SameBound a.lower b.lower ∧ SameBound a.upper b.upper

/-- Either no ranges, or ranges that are the same. -/
def SameRanges : Option Range → Option Range → Prop := Option.Rel SameRange

/-! ### Keys -/

/-- The names and texts of some constants, in the order in which witnesses are compared. -/
def witnessKey (cs : List Constant) : List (String ×ₗ String) :=
  cs.map fun c => toLex (c.name, c.value)

theorem witnessKey_injective : Function.Injective witnessKey := by
  apply List.map_injective_iff.2
  rintro ⟨name, value⟩ ⟨name', value'⟩ h
  cases toLex.injective h
  rfl

theorem listLt_iff (as bs : List Constant) :
    Constant.listLt as bs = true ↔ witnessKey as < witnessKey bs := by
  induction as generalizing bs with
  | nil => cases bs <;> simp [Constant.listLt, witnessKey]
  | cons a as ih =>
    cases bs with
    | nil => simp [Constant.listLt, witnessKey]
    | cons b bs =>
      have htails := ih bs
      simp only [witnessKey] at htails
      simp only [Constant.listLt, witnessKey, List.map_cons, List.cons_lt_cons_iff,
        Prod.Lex.toLex_lt_toLex, EmbeddingLike.apply_eq_iff_eq, Prod.mk.injEq, ← htails]
      rcases lt_trichotomy a.name b.name with hname | hname | hname
      · simp [hname]
      · rcases lt_trichotomy a.value b.value with hvalue | hvalue | hvalue
        · simp [hname, hvalue]
        · simp [hname, hvalue]
        · simp [hname, hvalue, hvalue.not_gt, hvalue.ne']
      · simp [hname, hname.not_gt, hname.ne']

section

variable {κ : Type} (key : Answer → κ)

/-- Ends by the rank of the value, then by the witness. -/
def endKey (b : Bound) : κ ×ₗ List (String ×ₗ String) := toLex (key b.value, witnessKey b.witness)

theorem endKey_eq_iff {a b : Bound} :
    endKey key a = endKey key b ↔ key a.value = key b.value ∧ a.witness = b.witness := by
  rw [endKey, endKey, EmbeddingLike.apply_eq_iff_eq, Prod.mk.injEq, witnessKey_injective.eq_iff]

variable [LinearOrder κ]

theorem endKey_le_iff {a b : Bound} :
    endKey key a ≤ endKey key b ↔ key a.value ≤ key b.value ∧
      (key a.value = key b.value → Constant.listLt b.witness a.witness = false) := by
  rw [endKey, endKey, Prod.Lex.toLex_le_toLex', ← Bool.not_eq_true, listLt_iff, not_lt]

variable {key}

/-- Picking is taking the minimum in the order that puts preferred values first and, of equal ones,
the first witness. -/
theorem endKey_pick {prefer : Ordering}
    (heq : ∀ v v', v.compare v' = .eq ↔ key v = key v')
    (hlt : ∀ v v', v.compare v' = prefer ↔ key v < key v') (a b : Bound) :
    endKey key (a.pick b prefer) = min (endKey key a) (endKey key b) := by
  rw [Bound.pick]
  rcases lt_trichotomy (key a.value) (key b.value) with h | h | h
  · have hne : a.value.compare b.value ≠ .eq := by rw [ne_eq, heq]; exact h.ne
    have hle : endKey key a ≤ endKey key b := (endKey_le_iff key).2 ⟨h.le, fun h' => absurd h' h.ne⟩
    rw [if_neg hne, if_pos ((hlt _ _).2 h), min_eq_left hle]
  · rw [if_pos ((heq _ _).2 h)]
    by_cases hfirst : Constant.listLt b.witness a.witness = true
    · have hwitness : ¬witnessKey a.witness < witnessKey b.witness :=
        ((listLt_iff _ _).1 hfirst).not_gt
      have hle : endKey key b ≤ endKey key a := by
        rw [endKey_le_iff, ← Bool.not_eq_true, listLt_iff]
        exact ⟨h.ge, fun _ => hwitness⟩
      rw [if_pos hfirst, min_eq_right hle]
    · have hle : endKey key a ≤ endKey key b :=
        (endKey_le_iff key).2 ⟨h.le, fun _ => Bool.not_eq_true _ ▸ hfirst⟩
      rw [if_neg hfirst, min_eq_left hle]
  · have hne : a.value.compare b.value ≠ .eq := by rw [ne_eq, heq]; exact h.ne'
    have hne' : a.value.compare b.value ≠ prefer := by rw [ne_eq, hlt]; exact h.not_gt
    have hle : endKey key b ≤ endKey key a := (endKey_le_iff key).2 ⟨h.le, fun h' => absurd h' h.ne⟩
    rw [if_neg hne, if_neg hne', min_eq_right hle]

end

/-- The rank of a value at an upper end: the greatest comes first. -/
def dualValue (v : Answer) : (WithTop ℚ)ᵒᵈ := OrderDual.toDual (answerValue v)

theorem compare_eq_eq_iff (v v' : Answer) :
    v.compare v' = .eq ↔ answerValue v = answerValue v' := by
  rw [answer_compare_eq_cmp, cmp_eq_eq_iff]

theorem compare_eq_eq_iff_dual (v v' : Answer) :
    v.compare v' = .eq ↔ dualValue v = dualValue v' := by
  rw [compare_eq_eq_iff, dualValue, dualValue, EmbeddingLike.apply_eq_iff_eq]

theorem endKey_pick_lt (a b : Bound) :
    endKey answerValue (a.pick b .lt) = min (endKey answerValue a) (endKey answerValue b) :=
  endKey_pick compare_eq_eq_iff answer_lt_iff a b

theorem endKey_pick_gt (a b : Bound) :
    endKey dualValue (a.pick b .gt) = min (endKey dualValue a) (endKey dualValue b) := by
  refine endKey_pick compare_eq_eq_iff_dual ?_ a b
  intro v v'
  rw [answer_compare_eq_cmp, cmp_eq_gt_iff]
  exact OrderDual.toDual_lt_toDual.symm

theorem sameBound_iff_lower (a b : Bound) :
    SameBound a b ↔ endKey answerValue a = endKey answerValue b := by
  rw [SameBound, compare_eq_eq_iff, endKey_eq_iff]

theorem sameBound_iff_upper (a b : Bound) :
    SameBound a b ↔ endKey dualValue a = endKey dualValue b := by
  rw [SameBound, compare_eq_eq_iff_dual, endKey_eq_iff]

/-! ### Merging as a meet -/

/-- The order of lower ends times the order of upper ends. -/
abbrev RangeKey : Type :=
  (WithTop ℚ ×ₗ List (String ×ₗ String)) × ((WithTop ℚ)ᵒᵈ ×ₗ List (String ×ₗ String))

def rangeKey (r : Range) : RangeKey := (endKey answerValue r.lower, endKey dualValue r.upper)

theorem sameRange_iff (a b : Range) : SameRange a b ↔ rangeKey a = rangeKey b := by
  rw [SameRange, sameBound_iff_lower, sameBound_iff_upper, rangeKey, rangeKey, Prod.mk.injEq]

theorem rangeKey_merge (a b : Range) : rangeKey (a.merge b) = rangeKey a ⊓ rangeKey b := by
  rw [rangeKey, rangeKey, rangeKey, Prod.mk_inf_mk, Range.merge, endKey_pick_lt, endKey_pick_gt]

/-- The key of a range that may be absent; no range is the greatest element. -/
def mergedKey (r : Option Range) : WithTop RangeKey := r.map rangeKey

theorem sameRanges_iff (r r' : Option Range) : SameRanges r r' ↔ mergedKey r = mergedKey r' := by
  cases r with
  | none =>
    cases r' with
    | none => exact iff_of_true .none rfl
    | some r' => exact iff_of_false nofun nofun
  | some r =>
    cases r' with
    | none => exact iff_of_false nofun nofun
    | some r' =>
      have hsome : SameRanges (some r) (some r') ↔ SameRange r r' := Option.rel_some_some
      rw [hsome, sameRange_iff]
      exact (Option.some_inj (a := rangeKey r) (b := rangeKey r')).symm

/-- Merging is the meet of all keys, in no order. -/
theorem mergedKey_mergeAll (rs : List Range) :
    mergedKey (Range.mergeAll rs) = (Multiset.map (fun r => mergedKey (some r)) rs).inf := by
  cases rs with
  | nil => rfl
  | cons r rs =>
    rw [Range.mergeAll, ← Multiset.cons_coe, Multiset.map_cons, Multiset.inf_cons]
    induction rs generalizing r with
    | nil =>
      simp
    | cons r' rs ih =>
      have hmerge : mergedKey (some (r.merge r')) = mergedKey (some r) ⊓ mergedKey (some r') :=
        congrArg _ (rangeKey_merge r r')
      rw [List.foldl_cons, ih, hmerge, inf_assoc, ← Multiset.cons_coe, Multiset.map_cons,
        Multiset.inf_cons]

theorem sameRanges_mergeAll {rs rs' : List Range} (h : rs.Perm rs') :
    SameRanges (Range.mergeAll rs) (Range.mergeAll rs') := by
  rw [sameRanges_iff, mergedKey_mergeAll, mergedKey_mergeAll, Multiset.coe_eq_coe.2 h]

/-! ### Ends -/

theorem not_lower_lt_merge (a b : Range) :
    ¬a.lower.value < (a.merge b).lower.value ∧ ¬b.lower.value < (a.merge b).lower.value := by
  rw [answer_lt_iff, answer_lt_iff, Range.merge, answerValue_pick_lt, not_lt, not_lt]
  exact ⟨min_le_left _ _, min_le_right _ _⟩

theorem not_merge_lt_upper (a b : Range) :
    ¬(a.merge b).upper.value < a.upper.value ∧ ¬(a.merge b).upper.value < b.upper.value := by
  rw [answer_lt_iff, answer_lt_iff, Range.merge, answerValue_pick_gt, not_lt, not_lt]
  exact ⟨le_max_left _ _, le_max_right _ _⟩

theorem not_observe_shrinks (r : Range) (v : Answer) (w : List Constant) :
    ¬r.lower.value < (r.observe v w).lower.value ∧
      ¬(r.observe v w).upper.value < r.upper.value := by
  rw [answer_lt_iff, answer_lt_iff, answerValue_observe_lower, answerValue_observe_upper, not_lt,
    not_lt]
  exact ⟨min_le_left _ _, le_max_left _ _⟩

/-! ### Runs that end in another order -/

theorem perm_of_map_ok {cs cs' : List Contribution}
    (h : (cs.map (Except.ok (ε := Failure))).Perm (cs'.map .ok)) : cs.Perm cs' := by
  have hok : ∀ cs : List Contribution,
      (cs.map (Except.ok (ε := Failure))).filterMap Except.toOption = cs := by
    intro cs
    rw [List.filterMap_map]
    exact List.filterMap_some
  rw [← hok cs, ← hok cs']
  exact h.filterMap _

section

variable {pool : Pool Id} {samples : List Sample} {result result' : Except Failure PoolOutcome}

/-- If a run can end well, it ends well in every order, with the same range. -/
theorem exists_sameRanges_of_canEnd (h : CanEnd pool samples result)
    (h' : CanEnd pool samples result') {outcome : PoolOutcome} (hok : result = .ok outcome) :
    ∃ outcome', result' = .ok outcome' ∧ SameRanges outcome.range outcome'.range := by
  obtain ⟨order, horder, rfl⟩ := h
  obtain ⟨order', horder', rfl⟩ := h'
  have hworkers := (exists_gather_eq_ok_iff horder).1 ⟨outcome, hok⟩
  obtain ⟨outcome', hok'⟩ := (exists_gather_eq_ok_iff horder').2 hworkers
  refine ⟨outcome', hok', ?_⟩
  obtain ⟨cs, rfl, -, rfl⟩ := gather_eq_ok.1 hok
  obtain ⟨cs', rfl, -, rfl⟩ := gather_eq_ok.1 hok'
  have hperm := perm_of_map_ok (horder.trans horder'.symm)
  exact sameRanges_mergeAll (hperm.filterMap _)

end

/-- Merging is commutative, associative and idempotent up to the way in which numbers are written;
it takes the minimum and the maximum of the ends, so no range shrinks. Ranges merged in any order,
and reports that come in in any order, give the same range. -/
theorem merge_order_unobservable :
    (∀ a b : Range, SameRange (a.merge b) (b.merge a)) ∧
    (∀ a b c : Range, SameRange ((a.merge b).merge c) (a.merge (b.merge c))) ∧
    (∀ a : Range, SameRange (a.merge a) a) ∧
    (∀ a b : Range,
      answerValue (a.merge b).lower.value
        = min (answerValue a.lower.value) (answerValue b.lower.value) ∧
      answerValue (a.merge b).upper.value
        = max (answerValue a.upper.value) (answerValue b.upper.value)) ∧
    (∀ a b : Range,
      (¬a.lower.value < (a.merge b).lower.value ∧ ¬b.lower.value < (a.merge b).lower.value) ∧
      (¬(a.merge b).upper.value < a.upper.value ∧ ¬(a.merge b).upper.value < b.upper.value)) ∧
    (∀ (r : Range) (v : Answer) (w : List Constant),
      ¬r.lower.value < (r.observe v w).lower.value ∧
      ¬(r.observe v w).upper.value < r.upper.value) ∧
    (∀ rs rs' : List Range, rs ≠ [] → rs.Perm rs' →
      ∃ r r', Range.mergeAll rs = some r ∧ Range.mergeAll rs' = some r' ∧ SameRange r r') ∧
    ∀ (pool : Pool Id) (samples : List Sample) (result result' : Except Failure PoolOutcome),
      CanEnd pool samples result → CanEnd pool samples result' →
      ∀ outcome, result = .ok outcome →
        ∃ outcome', result' = .ok outcome' ∧ SameRanges outcome.range outcome'.range := by
  refine ⟨?_, ?_, ?_, ?_, ?_, not_observe_shrinks, ?_, ?_⟩
  · intro a b
    rw [sameRange_iff, rangeKey_merge, rangeKey_merge, inf_comm]
  · intro a b c
    simp only [sameRange_iff, rangeKey_merge, inf_assoc]
  · intro a
    rw [sameRange_iff, rangeKey_merge, inf_idem]
  · exact fun a b => ⟨answerValue_pick_lt _ _, answerValue_pick_gt _ _⟩
  · exact fun a b => ⟨not_lower_lt_merge a b, not_merge_lt_upper a b⟩
  · intro rs rs' hne hperm
    have hsame := sameRanges_mergeAll hperm
    cases rs with
    | nil => exact absurd rfl hne
    | cons r rs =>
      rw [Range.mergeAll] at hsame ⊢
      cases hmerged : Range.mergeAll rs' with
      | none => rw [hmerged] at hsame; cases hsame
      | some r' => exact ⟨_, r', rfl, rfl, Option.rel_some_some.1 (hmerged ▸ hsame)⟩
  · exact fun pool samples result result' h h' outcome => exists_sameRanges_of_canEnd h h'

/-- Zero at two points, once with a sign, and infinity at a third one. -/
def tiedRanges : List Range :=
  [.single (.finite Decimal.zero) [⟨"p", "2"⟩], .single (.finite (-Decimal.zero)) [⟨"p", "1"⟩],
    .single .infinite [⟨"p", "3"⟩]]

/-- The ranges are merged from the other end, and the second worker reports first. -/
theorem tiedRanges_merge :
    (∃ r r', Range.mergeAll tiedRanges = some r ∧ Range.mergeAll tiedRanges.reverse = some r' ∧
      SameRange r r') ∧
    ∃ outcome outcome', twoWorkers.run threeSamples = .ok outcome ∧
      Pool.gather 3 (reports twoWorkers threeSamples).reverse = .ok outcome' ∧
      SameRanges outcome.range outcome'.range := by
  obtain ⟨-, -, -, -, -, -, hmerge, hrun⟩ := merge_order_unobservable
  refine ⟨hmerge _ _ (by simp [tiedRanges]) (List.reverse_perm _).symm, ?_⟩
  obtain ⟨outcome, hok⟩ := exists_eq_ok (x := twoWorkers.run threeSamples) (by decide +kernel)
  obtain ⟨outcome', hok', hsame⟩ := hrun twoWorkers threeSamples _ _ (canEnd_run _ _)
    ⟨_, List.reverse_perm _, rfl⟩ outcome hok
  exact ⟨outcome, outcome', hok, hok', hsame⟩

end MarkovFit.Proofs
