import MarkovFit.Range
import MarkovFit.Proofs.DecimalValue
import Mathlib.Order.WithBot

/-!
# What a range spans

Answers are compared like their values, infinity being greater than all numbers, so that the comparison
is a linear order up to the way in which a number is written. A range spans a set of observed answers when
both its ends were observed and no observed answer lies outside. Each way of making a range is described
by the observations that it spans.
-/

namespace MarkovFit.Proofs

/-- The value of an answer. -/
def answerValue : Answer → WithTop ℚ
  | .finite d => d.toRat
  | .infinite => ⊤

theorem answer_compare_eq_cmp (a b : Answer) : a.compare b = cmp (answerValue a) (answerValue b) := by
  cases a with
  | finite a =>
    cases b with
    | finite b =>
      rw [Answer.compare, compare_eq_cmp]
      simp only [answerValue, cmp, cmpUsing, WithTop.coe_lt_coe]
    | infinite => exact (cmp_eq_lt_iff _ _).2 (WithTop.coe_lt_top _) |>.symm
  | infinite =>
    cases b with
    | finite b => exact (cmp_eq_gt_iff _ _).2 (WithTop.coe_lt_top _) |>.symm
    | infinite => exact (cmp_self_eq_eq _).symm

theorem answer_lt_iff (a b : Answer) : a < b ↔ answerValue a < answerValue b := by
  change a.compare b = .lt ↔ _
  rw [answer_compare_eq_cmp, cmp_eq_lt_iff]

/-- The range is the least one around the answers that `P` says were observed. -/
structure Spans (r : Range) (P : Answer → List Constant → Prop) : Prop where
  lower : P r.lower.value r.lower.witness
  upper : P r.upper.value r.upper.witness
  lower_le : ∀ v w, P v w → answerValue r.lower.value ≤ answerValue v
  le_upper : ∀ v w, P v w → answerValue v ≤ answerValue r.upper.value

/-- The same for a range that is only there if something was observed. -/
def SpansIfAny (r : Option Range) (P : Answer → List Constant → Prop) : Prop :=
  match r with
  | none => ∀ v w, ¬P v w
  | some r => Spans r P

variable {P Q : Answer → List Constant → Prop}

theorem Spans.congr {r : Range} (h : Spans r P) (hiff : ∀ v w, P v w ↔ Q v w) : Spans r Q := by
  have heq : P = Q := by
    funext v w
    exact propext (hiff v w)
  exact heq ▸ h

theorem SpansIfAny.congr {r : Option Range} (h : SpansIfAny r P) (hiff : ∀ v w, P v w ↔ Q v w) :
    SpansIfAny r Q := by
  cases r with
  | none => exact fun v w hvw => h v w ((hiff v w).2 hvw)
  | some r => exact Spans.congr h hiff

theorem spans_single (v : Answer) (w : List Constant) :
    Spans (Range.single v w) fun v' w' => v' = v ∧ w' = w where
  lower := ⟨rfl, rfl⟩
  upper := ⟨rfl, rfl⟩
  lower_le := by
    rintro v' w' ⟨rfl, -⟩
    exact le_refl _
  le_upper := by
    rintro v' w' ⟨rfl, -⟩
    exact le_refl _

lemma answerValue_observe_lower (r : Range) (v : Answer) (w : List Constant) :
    answerValue (r.observe v w).lower.value = min (answerValue r.lower.value) (answerValue v) := by
  unfold Range.observe
  by_cases hlt : v < r.lower.value
  · simp only [if_pos hlt]
    exact (min_eq_right ((answer_lt_iff _ _).1 hlt).le).symm
  · simp only [if_neg hlt]
    rw [answer_lt_iff, not_lt] at hlt
    exact (min_eq_left hlt).symm

lemma answerValue_observe_upper (r : Range) (v : Answer) (w : List Constant) :
    answerValue (r.observe v w).upper.value = max (answerValue r.upper.value) (answerValue v) := by
  unfold Range.observe
  by_cases hlt : r.upper.value < v
  · simp only [if_pos hlt]
    exact (max_eq_right ((answer_lt_iff _ _).1 hlt).le).symm
  · simp only [if_neg hlt]
    rw [answer_lt_iff, not_lt] at hlt
    exact (max_eq_left hlt).symm

theorem Spans.observe {r : Range} (h : Spans r P) (v : Answer) (w : List Constant) :
    Spans (r.observe v w) fun v' w' => P v' w' ∨ v' = v ∧ w' = w where
  lower := by
    unfold Range.observe
    by_cases hlt : v < r.lower.value
    · simp only [if_pos hlt]
      exact .inr ⟨trivial, trivial⟩
    · simp only [if_neg hlt]
      exact .inl h.lower
  upper := by
    unfold Range.observe
    by_cases hlt : r.upper.value < v
    · simp only [if_pos hlt]
      exact .inr ⟨trivial, trivial⟩
    · simp only [if_neg hlt]
      exact .inl h.upper
  lower_le := by
    intro v' w' hv'
    rw [answerValue_observe_lower, min_le_iff]
    refine hv'.imp (h.lower_le v' w') ?_
    rintro ⟨rfl, -⟩
    exact le_refl _
  le_upper := by
    intro v' w' hv'
    rw [answerValue_observe_upper, le_max_iff]
    refine hv'.imp (h.le_upper v' w') ?_
    rintro ⟨rfl, -⟩
    exact le_refl _

theorem pick_eq_or (a b : Bound) (prefer : Ordering) : a.pick b prefer = a ∨ a.pick b prefer = b := by
  unfold Bound.pick
  by_cases heq : a.value.compare b.value = .eq
  · by_cases hfirst : Constant.listLt b.witness a.witness
    · exact .inr (by simp only [if_pos heq, if_pos hfirst])
    · exact .inl (by simp only [if_pos heq, if_neg hfirst])
  · by_cases hprefer : a.value.compare b.value = prefer
    · exact .inl (by simp only [if_neg heq, if_pos hprefer])
    · exact .inr (by simp only [if_neg heq, if_neg hprefer])

/-- The lower end of a merge has the smaller value. -/
theorem answerValue_pick_lt (a b : Bound) :
    answerValue (a.pick b .lt).value = min (answerValue a.value) (answerValue b.value) := by
  unfold Bound.pick
  rw [answer_compare_eq_cmp]
  rcases lt_trichotomy (answerValue a.value) (answerValue b.value) with h | h | h
  · have hcmp := (cmp_eq_lt_iff _ _).2 h
    rw [hcmp, min_eq_left h.le]
    rfl
  · have hcmp := (cmp_eq_eq_iff _ _).2 h
    rw [hcmp, h, min_self]
    by_cases hfirst : Constant.listLt b.witness a.witness
    · simp only [if_true, if_pos hfirst]
    · simp only [if_true, if_neg hfirst, h]
  · have hcmp := (cmp_eq_gt_iff _ _).2 h
    rw [hcmp, min_eq_right h.le]
    rfl

/-- The upper end of a merge has the greater value. -/
theorem answerValue_pick_gt (a b : Bound) :
    answerValue (a.pick b .gt).value = max (answerValue a.value) (answerValue b.value) := by
  unfold Bound.pick
  rw [answer_compare_eq_cmp]
  rcases lt_trichotomy (answerValue a.value) (answerValue b.value) with h | h | h
  · have hcmp := (cmp_eq_lt_iff _ _).2 h
    rw [hcmp, max_eq_right h.le]
    rfl
  · have hcmp := (cmp_eq_eq_iff _ _).2 h
    rw [hcmp, h, max_self]
    by_cases hfirst : Constant.listLt b.witness a.witness
    · simp only [if_true, if_pos hfirst]
    · simp only [if_true, if_neg hfirst, h]
  · have hcmp := (cmp_eq_gt_iff _ _).2 h
    rw [hcmp, max_eq_left h.le]
    rfl

theorem Spans.merge {a b : Range} (ha : Spans a P) (hb : Spans b Q) :
    Spans (a.merge b) fun v w => P v w ∨ Q v w where
  lower := by
    rw [Range.merge]
    rcases pick_eq_or a.lower b.lower .lt with h | h
    · simp only [h]
      exact .inl ha.lower
    · simp only [h]
      exact .inr hb.lower
  upper := by
    rw [Range.merge]
    rcases pick_eq_or a.upper b.upper .gt with h | h
    · simp only [h]
      exact .inl ha.upper
    · simp only [h]
      exact .inr hb.upper
  lower_le := by
    intro v w hvw
    rw [Range.merge, answerValue_pick_lt, min_le_iff]
    exact hvw.imp (ha.lower_le v w) (hb.lower_le v w)
  le_upper := by
    intro v w hvw
    rw [Range.merge, answerValue_pick_gt, le_max_iff]
    exact hvw.imp (ha.le_upper v w) (hb.le_upper v w)

section Lists

variable {ι : Type} {range : ι → Option Range} {observed : ι → Answer → List Constant → Prop}

theorem Spans.foldl_merge {xs : List ι} (h : ∀ x ∈ xs, SpansIfAny (range x) (observed x)) {r : Range}
    (hr : Spans r P) :
    Spans ((xs.filterMap range).foldl Range.merge r) fun v w => P v w ∨ ∃ x ∈ xs, observed x v w := by
  induction xs generalizing r P with
  | nil => simpa using hr
  | cons x xs ih =>
    have hx := h x List.mem_cons_self
    have hxs := fun y hy => h y (List.mem_cons_of_mem x hy)
    cases hrange : range x with
    | none =>
      rw [hrange] at hx
      rw [List.filterMap_cons_none hrange]
      refine (ih hxs hr).congr ?_
      intro v w
      simp [hx v w]
    | some r' =>
      rw [hrange] at hx
      rw [List.filterMap_cons_some hrange, List.foldl_cons]
      refine (ih hxs (hr.merge hx)).congr ?_
      intro v w
      simp [or_assoc]

/-- Merging spans what any of the ranges spans. -/
theorem spansIfAny_mergeAll {xs : List ι} (h : ∀ x ∈ xs, SpansIfAny (range x) (observed x)) :
    SpansIfAny (Range.mergeAll (xs.filterMap range)) fun v w => ∃ x ∈ xs, observed x v w := by
  induction xs with
  | nil => simp [Range.mergeAll, SpansIfAny]
  | cons x xs ih =>
    have hx := h x List.mem_cons_self
    have hxs := fun y hy => h y (List.mem_cons_of_mem x hy)
    cases hrange : range x with
    | none =>
      rw [hrange] at hx
      rw [List.filterMap_cons_none hrange]
      refine (ih hxs).congr ?_
      intro v w
      simp [hx v w]
    | some r =>
      rw [hrange] at hx
      rw [List.filterMap_cons_some hrange, Range.mergeAll]
      refine (Spans.foldl_merge hxs hx).congr ?_
      intro v w
      simp

end Lists

end MarkovFit.Proofs
