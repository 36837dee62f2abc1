import MarkovFit.Proofs.BoxVertices
import MarkovFit.Proofs.NewtonStep

/-!
# Separate points on edges

The points on the edges of a box are meant to lie strictly between the ends of their intervals, and no
two samples at the same place. Rounding may move a point onto its neighbour or onto an end. The samples
are apart from each other exactly if the points of each single axis are, because the corner at which an
edge starts can be read off its points. Intervals that are wide beside the rounding errors of their
points, of which the error of the step counts once for each of them, keep their points apart.
-/

namespace MarkovFit.Proofs

open Sampling

variable {ps : List Parameter} {p : Parameter} {corner vs : List Decimal} {samples : List Sample}
  {value : Parameter → ℕ → Decimal} {count axis i j n : ℕ} {v w : Decimal} {x : ℚ}

/-! ### Where samples stand -/

/-- The coordinates as numbers. -/
def location (vs : List Decimal) : List ℚ := vs.map Decimal.toRat

lemma location_set_self (h : corner[axis]? = some w) :
    (location (corner.set axis v))[axis]? = some v.toRat := by
  have haxis : axis < corner.length := (List.getElem?_eq_some_iff.1 h).1
  unfold location
  rw [List.getElem?_map, List.getElem?_set_self haxis]
  rfl

lemma location_set_of_ne (h : axis ≠ j) :
    (location (corner.set axis v))[j]? = (location corner)[j]? := by
  unfold location
  rw [List.getElem?_map, List.getElem?_map, List.getElem?_set_ne h]

/-- The corner at which an edge with a point at this place starts. -/
def nearCorner (ps : List Parameter) (xs : List ℚ) : List Decimal :=
  List.zipWith (fun p x => if x = p.upper.toRat then p.upper else p.lower) ps xs

theorem nearCorner_corner (h : corner ∈ corners ps) : nearCorner ps (location corner) = corner := by
  have hends := mem_corners_iff.1 h
  clear h
  unfold nearCorner location
  induction hends with
  | nil => rfl
  | @cons p v _ _ hv _ ih =>
    rw [List.map_cons, List.zipWith_cons_cons, ih]
    obtain rfl | rfl := hv
    · rw [if_neg (toRat_lower_lt p).ne]
    · rw [if_pos rfl]

/-- Moving along an edge, short of its end, does not change the corner. -/
theorem nearCorner_set (h : corner ∈ corners ps) (hp : ps[axis]? = some p)
    (hlower : corner[axis]? = some p.lower) (hv : v.toRat ≠ p.upper.toRat) :
    nearCorner ps (location (corner.set axis v)) = corner := by
  have hself := nearCorner_corner h
  unfold nearCorner at hself ⊢
  apply List.ext_getElem?
  intro k
  rw [← congrArg (·[k]?) hself, List.getElem?_zipWith, List.getElem?_zipWith]
  by_cases hk : axis = k
  · subst hk
    have hcorner : (location corner)[axis]? = some p.lower.toRat := by
      unfold location
      rw [List.getElem?_map, hlower]
      rfl
    rw [location_set_self hlower, hcorner, hp]
    change some (if v.toRat = _ then _ else _) = some (if p.lower.toRat = _ then _ else _)
    rw [if_neg hv, if_neg (toRat_lower_lt p).ne]
  · rw [location_set_of_ne hk]

/-! ### Samples at different places -/

/-- On every axis the points are strictly inside the interval and in increasing order. -/
structure Interior (ps : List Parameter) (count : ℕ) (value : Parameter → ℕ → Decimal) : Prop where
  lower_lt : ∀ p ∈ ps, ∀ i < count, p.lower < value p i
  lt_upper : ∀ p ∈ ps, ∀ i < count, value p i < p.upper
  increasing : ∀ p ∈ ps, ∀ i < count, ∀ j < i, value p j < value p i

lemma Interior.value_injective (h : Interior ps count value) (hp : p ∈ ps) (hi : i < count)
    (hj : j < count) (heq : (value p i).toRat = (value p j).toRat) : i = j := by
  obtain hlt | hij | hlt := lt_trichotomy i j
  · exact absurd heq ((lt_iff_toRat_lt _ _).1 (h.increasing p hp j hj i hlt)).ne
  · exact hij
  · exact absurd heq ((lt_iff_toRat_lt _ _).1 (h.increasing p hp i hi j hlt)).ne'

lemma mem_edge_iff : vs ∈ edge count value corner axis p ↔
    corner[axis]? = some p.lower ∧ ∃ i < count, corner.set axis (value p i) = vs := by
  unfold edge
  split
  · rename_i hlower
    simp [hlower]
  · rename_i hother
    simp [hother]

theorem Interior.nearCorner_eq (h : Interior ps count value) (hcorner : corner ∈ corners ps)
    (hvs : vs ∈ withEdges ps count value corner) : nearCorner ps (location vs) = corner := by
  obtain rfl | hvs := List.mem_cons.1 hvs
  · exact nearCorner_corner hcorner
  · obtain ⟨⟨p, axis⟩, haxis, hvs⟩ := List.mem_flatMap.1 hvs
    have hp := List.mem_zipIdx_iff_getElem?.1 haxis
    obtain ⟨hlower, i, hi, rfl⟩ := mem_edge_iff.1 hvs
    have hlt := h.lt_upper p (List.mem_of_getElem? hp) i hi
    exact nearCorner_set hcorner hp hlower ((lt_iff_toRat_lt _ _).1 hlt).ne

theorem pairwise_zipIdx (ps : List Parameter) : ps.zipIdx.Pairwise fun x y => x.2 < y.2 := by
  have hindices : (ps.zipIdx.map Prod.snd).Pairwise (· < ·) := by
    rw [List.zipIdx_map_snd]
    exact List.pairwise_lt_range'
  exact List.pairwise_map.1 hindices

theorem Interior.nodup_edge (h : Interior ps count value) (hp : p ∈ ps) :
    ((edge count value corner axis p).map location).Nodup := by
  unfold edge
  split
  · rename_i hlower
    rw [List.map_map]
    apply List.nodup_range.map_on
    intro i hi j hj heq
    have hplace := congrArg (·[axis]?) heq
    simp only [Function.comp_apply, location_set_self hlower] at hplace
    exact h.value_injective hp (List.mem_range.1 hi) (List.mem_range.1 hj) (Option.some.inj hplace)
  · exact List.nodup_nil

/-- A point has left the corner on the axis of its edge and on no other one. -/
theorem Interior.nodup_withEdges (h : Interior ps count value) (corner : List Decimal) :
    ((withEdges ps count value corner).map location).Nodup := by
  have hmoved : ∀ p ∈ ps, ∀ axis i, i < count → corner[axis]? = some p.lower →
      (location (corner.set axis (value p i)))[axis]? ≠ (location corner)[axis]? := by
    intro p hp axis i hi hlower heq
    rw [location_set_self hlower, location, List.getElem?_map, hlower] at heq
    have hlt := (lt_iff_toRat_lt _ _).1 (h.lower_lt p hp i hi)
    exact hlt.ne' (Option.some.inj heq)
  unfold withEdges
  rw [List.map_cons, List.map_flatMap]
  apply List.nodup_cons.2
  constructor
  · intro hmem
    obtain ⟨⟨p, axis⟩, haxis, hmem⟩ := List.mem_flatMap.1 hmem
    obtain ⟨vs, hvs, heq⟩ := List.mem_map.1 hmem
    obtain ⟨hlower, i, hi, rfl⟩ := mem_edge_iff.1 hvs
    have hp := List.mem_of_getElem? (List.mem_zipIdx_iff_getElem?.1 haxis)
    exact hmoved p hp axis i hi hlower (congrArg (·[axis]?) heq)
  · apply List.nodup_flatMap.2
    constructor
    · rintro ⟨p, axis⟩ haxis
      exact h.nodup_edge (List.mem_of_getElem? (List.mem_zipIdx_iff_getElem?.1 haxis))
    · apply (pairwise_zipIdx ps).imp_of_mem
      rintro ⟨p, axis⟩ ⟨q, other⟩ hp - hlt xs hxs hxs'
      obtain ⟨vs, hvs, rfl⟩ := List.mem_map.1 hxs
      obtain ⟨ws, hws, heq⟩ := List.mem_map.1 hxs'
      obtain ⟨hlower, i, hi, rfl⟩ := mem_edge_iff.1 hvs
      obtain ⟨-, j, -, rfl⟩ := mem_edge_iff.1 hws
      have hplace := congrArg (·[axis]?) heq
      simp only [location_set_of_ne (Nat.ne_of_gt hlt)] at hplace
      have hmem := List.mem_of_getElem? (List.mem_zipIdx_iff_getElem?.1 hp)
      exact hmoved p hmem axis i hi hlower hplace.symm

theorem nodup_corners (ps : List Parameter) : (corners ps).Nodup := by
  have hirrefl : Std.Irrefl fun v w : Decimal => v < w :=
    ⟨fun v hlt => lt_irrefl _ ((lt_iff_toRat_lt _ _).1 hlt)⟩
  apply (pairwise_corners ps).imp
  rintro corner _ hlt rfl
  exact List.lt_irrefl corner hlt

theorem Interior.nodup_boxPoints (h : Interior ps count value) :
    ((boxPoints ps count value).map location).Nodup := by
  unfold boxPoints
  rw [List.map_flatMap]
  apply List.nodup_flatMap.2
  constructor
  · exact fun corner _ => h.nodup_withEdges corner
  · apply (nodup_corners ps).pairwise_of_forall_ne
    intro corner hcorner corner' hcorner' hne xs hxs hxs'
    obtain ⟨vs, hvs, rfl⟩ := List.mem_map.1 hxs
    obtain ⟨ws, hws, heq⟩ := List.mem_map.1 hxs'
    apply hne
    rw [← h.nearCorner_eq hcorner hvs, ← heq, h.nearCorner_eq hcorner' hws]

/-! ### Separate points -/

/-- The points of an axis, with its ends, are in strictly increasing order. -/
structure EdgeSeparates (p : Parameter) (count : ℕ) : Prop where
  width_lt : width p < decimalLimit
  increasing : ∀ i < count, edgePoint p count i < edgePoint p count (i + 1)
  last_lt : edgePoint p count count < p.upper.toRat

instance : Decidable (EdgeSeparates p count) :=
  decidable_of_iff (width p < decimalLimit ∧
      (∀ i < count, edgePoint p count i < edgePoint p count (i + 1)) ∧
        edgePoint p count count < p.upper.toRat)
    ⟨fun h => ⟨h.1, h.2.1, h.2.2⟩, fun h => ⟨h.1, h.2, h.3⟩⟩

/-- The points are counted from the lower end. -/
lemma edgePoint_zero (p : Parameter) (count : ℕ) : edgePoint p count 0 = p.lower.toRat := by
  have hzero : rounded 0 = 0 := by simpa using rounded_toRat Decimal.zero
  rw [edgePoint, Nat.cast_zero, mul_zero, hzero, add_zero, rounded_toRat]

lemma EdgeSeparates.edgeFits (h : EdgeSeparates p count) : EdgeFits p count :=
  ⟨h.width_lt, h.last_lt.le⟩

lemma EdgeSeparates.edgePoint_lt (h : EdgeSeparates p count) (hij : i < j) (hj : j ≤ count) :
    edgePoint p count i < edgePoint p count j := by
  induction j with
  | zero => exact absurd hij (Nat.not_lt_zero i)
  | succ j ih =>
    have hstep := h.increasing j hj
    obtain rfl | hlt := Nat.eq_or_lt_of_le (Nat.le_of_lt_succ hij)
    · exact hstep
    · exact (ih hlt (Nat.le_of_succ_le hj)).trans hstep

theorem interior_of_edgeSeparates (hcount : ∀ p ∈ ps, count + 1 < Decimal.mantissaBound)
    (h : ∀ p ∈ ps, count = 0 ∨ EdgeSeparates p count) : Interior ps count (edgeValue count) := by
  have hseparates : ∀ p ∈ ps, ∀ i < count, EdgeSeparates p count ∧
      (edgeValue count p i).toRat = edgePoint p count (i + 1) := by
    intro p hp i hi
    have hp' := (h p hp).resolve_left (by omega)
    exact ⟨hp', toRat_edgeValue (hcount p hp) hp'.edgeFits hi⟩
  constructor
  · intro p hp i hi
    obtain ⟨hp', hvalue⟩ := hseparates p hp i hi
    rw [lt_iff_toRat_lt, hvalue, ← edgePoint_zero p count]
    exact hp'.edgePoint_lt (Nat.succ_pos i) hi
  · intro p hp i hi
    obtain ⟨hp', hvalue⟩ := hseparates p hp i hi
    rw [lt_iff_toRat_lt, hvalue]
    obtain heq | hlt : i + 1 = count ∨ i + 1 < count := by omega
    · rw [heq]
      exact hp'.last_lt
    · exact (hp'.edgePoint_lt hlt le_rfl).trans hp'.last_lt
  · intro p hp i hi j hj
    obtain ⟨hp', hvalue⟩ := hseparates p hp i hi
    rw [lt_iff_toRat_lt, hvalue, (hseparates p hp j (hj.trans hi)).2]
    exact hp'.edgePoint_lt (Nat.succ_lt_succ hj) hi

theorem edgeSeparates_of_interior (hcount : count + 1 < Decimal.mantissaBound) (hp : p ∈ ps)
    (hpos : 0 < count) (hfits : EdgeFits p count) (h : Interior ps count (edgeValue count)) :
    EdgeSeparates p count := by
  have hvalue : ∀ i < count, (edgeValue count p i).toRat = edgePoint p count (i + 1) :=
    fun i hi => toRat_edgeValue hcount hfits hi
  refine ⟨hfits.width_lt, ?_, ?_⟩
  · intro i hi
    cases i with
    | zero =>
      rw [edgePoint_zero, ← hvalue 0 hi, ← lt_iff_toRat_lt]
      exact h.lower_lt p hp 0 hi
    | succ i =>
      have hlt := h.increasing p hp (i + 1) hi i (Nat.lt_succ_self i)
      rwa [lt_iff_toRat_lt, hvalue i (by omega), hvalue (i + 1) hi] at hlt
  · have hlt := h.lt_upper p hp (count - 1) (by omega)
    rwa [lt_iff_toRat_lt, hvalue (count - 1) (by omega), Nat.sub_add_cancel hpos] at hlt

/-! ### Wide intervals -/

/-- Rounding moves a number of either sign by half of the last place. -/
theorem abs_rounded_sub_le_abs (h : |x| < Decimal.mantissaBound) :
    |rounded x - x| ≤ halfUnit + relativeError * |x| := by
  obtain hx | hx := le_total 0 x
  · rw [abs_of_nonneg hx] at h ⊢
    exact abs_rounded_sub_le hx h
  · rw [abs_of_nonpos hx] at h ⊢
    have hneg := abs_rounded_sub_le (neg_nonneg.2 hx) h
    rwa [rounded_neg, neg_sub_neg, abs_sub_comm] at hneg

/-- How far rounding moves a number at most that is no larger than the ends of an interval. -/
def grain (p : Parameter) : ℚ := halfUnit + relativeError * (|p.lower.toRat| + |p.upper.toRat|)

/-- A piece of the interval is larger than the errors of the points, of which the error of the step
counts for each piece. -/
structure Spacious (p : Parameter) (count : ℕ) : Prop where
  width_lt : width p < decimalLimit
  pieces_lt : (count + 1) * (count * halfUnit + 6 * grain p) < width p

instance : Decidable (Spacious p count) :=
  decidable_of_iff (width p < decimalLimit ∧
      (count + 1) * (count * halfUnit + 6 * grain p) < width p)
    ⟨fun h => ⟨h.1, h.2⟩, fun h => ⟨h.1, h.2⟩⟩

lemma halfUnit_pos : 0 < halfUnit := by norm_num [halfUnit]

lemma relativeError_pos : 0 < relativeError := by norm_num [relativeError]

lemma grain_pos (p : Parameter) : 0 < grain p := by
  have hrelative := relativeError_pos
  have hhalf := halfUnit_pos
  unfold grain
  positivity

lemma error_le_grain (h : |x| ≤ |p.lower.toRat| + |p.upper.toRat|) :
    halfUnit + relativeError * |x| ≤ grain p :=
  add_le_add_right (mul_le_mul_of_nonneg_left h relativeError_pos.le) _

lemma width_le_reach (p : Parameter) : width p ≤ |p.lower.toRat| + |p.upper.toRat| := by
  unfold width
  linarith [neg_le_abs p.lower.toRat, le_abs_self p.upper.toRat]

lemma abs_rounded_width_sub_le (h : width p < decimalLimit) :
    |rounded (width p) - width p| ≤ grain p := by
  have hpos := width_pos p
  have hbound : |width p| < Decimal.mantissaBound := by
    rw [abs_of_pos hpos]
    exact h.trans limit_lt_bound
  apply (abs_rounded_sub_le_abs hbound).trans
  apply error_le_grain
  rw [abs_of_pos hpos]
  exact width_le_reach p

namespace Spacious

lemma piece_lt (h : Spacious p count) :
    count * halfUnit + 6 * grain p < width p / (count + 1) := by
  rw [lt_div_iff₀ (by positivity), mul_comm]
  exact h.pieces_lt

/-- A piece is part of the width. -/
lemma grain_lt (h : Spacious p count) : 6 * grain p < width p := by
  have hpiece := h.piece_lt
  have hpart : width p / (count + 1) ≤ width p := by
    apply div_le_self (width_pos p).le
    linarith [Nat.cast_nonneg (α := ℚ) count]
  have hhalf : 0 ≤ count * halfUnit := mul_nonneg (Nat.cast_nonneg count) halfUnit_pos.le
  linarith

/-- The step is not much shorter than a piece, and all steps together leave most of the last piece. -/
theorem step_bounds (h : Spacious p count) (hpos : 0 < count) :
    width p / (count + 1) - 2 * grain p ≤ edgeStep p count ∧
      edgeStep p count * count < width p - 3 * grain p := by
  have hgrain := grain_pos p
  have hpiece := h.piece_lt
  have hwide := h.grain_lt
  have hone : (1 : ℚ) ≤ count := by exact_mod_cast hpos
  obtain ⟨hspanLow, hspanHigh⟩ := abs_le.1 (abs_rounded_width_sub_le h.width_lt)
  have hpieces : (count + 1) * (width p / (count + 1)) = width p :=
    mul_div_cancel₀ _ (by positivity)
  have hshares : (count + 1) * (rounded (width p) / (count + 1)) = rounded (width p) :=
    mul_div_cancel₀ _ (by positivity)
  have hstep := abs_rounded_sub_le_abs (x := rounded (width p) / (count + 1))
  rw [← edgeStep] at hstep
  generalize rounded (width p) / (count + 1 : ℚ) = share at hshares hstep
  generalize width p / (count + 1 : ℚ) = piece at hpiece hpieces ⊢
  have hhalf : 0 ≤ count * halfUnit := mul_nonneg (Nat.cast_nonneg count) halfUnit_pos.le
  have hshareLow : piece - grain p ≤ share := by
    by_contra hlt
    have hless := mul_lt_mul_of_pos_left (not_le.1 hlt) (by linarith : (0 : ℚ) < count + 1)
    have hgrains : grain p ≤ (count + 1) * grain p := le_mul_of_one_le_left hgrain.le (by linarith)
    linarith
  have hsharePos : 0 < share := by linarith
  have hshareHigh : share ≤ width p := by
    have htwice : 2 * share ≤ (count + 1) * share :=
      mul_le_mul_of_nonneg_right (by linarith) hsharePos.le
    linarith
  rw [abs_of_pos hsharePos] at hstep
  have hmoved := hstep (hshareHigh.trans_lt (h.width_lt.trans limit_lt_bound))
  obtain ⟨hlow, hhigh⟩ := abs_le.1 hmoved
  have hreach := width_le_reach p
  have herror : halfUnit + relativeError * share ≤ grain p := by
    have hle := error_le_grain (x := share) (p := p)
    rw [abs_of_pos hsharePos] at hle
    exact hle (hshareHigh.trans hreach)
  constructor
  · linarith
  · -- The error of the step counts for each step, its relative part for the whole width.
    have hothers : share * count = rounded (width p) - share := by linarith
    have hrelative : relativeError * (share * count) ≤ grain p := by
      have hle := error_le_grain (x := share * count) (p := p)
      rw [abs_of_nonneg (by positivity)] at hle
      linarith [hle (by linarith), halfUnit_pos]
    calc edgeStep p count * count
        ≤ (share + (halfUnit + relativeError * share)) * count := by
          apply mul_le_mul_of_nonneg_right _ (Nat.cast_nonneg count)
          linarith
      _ = share * count + count * halfUnit + relativeError * (share * count) := by ring
      _ < width p - 3 * grain p := by linarith

/-- The rounded offsets stay short of the upper end. -/
theorem offset_bounds (h : Spacious p count) (hpos : 0 < count) (hi : i ≤ count) :
    |rounded (edgeStep p count * i) - edgeStep p count * i| ≤ grain p ∧
      0 ≤ rounded (edgeStep p count * i) ∧
      rounded (edgeStep p count * i) < width p - 2 * grain p := by
  have hgrain := grain_pos p
  have hnonneg : 0 ≤ edgeStep p count * i := mul_nonneg (edgeStep_nonneg p count) (by positivity)
  have hlast : edgeStep p count * i ≤ edgeStep p count * count :=
    mul_le_mul_of_nonneg_left (by exact_mod_cast hi) (edgeStep_nonneg p count)
  have hbelow := (h.step_bounds hpos).2
  have hwidth := h.width_lt.trans limit_lt_bound
  have hmoved : |rounded (edgeStep p count * i) - edgeStep p count * i| ≤ grain p := by
    apply (abs_rounded_sub_le_abs _).trans (error_le_grain _)
    · rw [abs_of_nonneg hnonneg]
      linarith
    · rw [abs_of_nonneg hnonneg]
      linarith [width_le_reach p]
  refine ⟨hmoved, rounded_nonneg hnonneg, ?_⟩
  linarith [(abs_le.1 hmoved).2]

theorem abs_edgePoint_sub_le (h : Spacious p count) (hpos : 0 < count) (hi : i ≤ count) :
    |edgePoint p count i - (p.lower.toRat + rounded (edgeStep p count * i))| ≤ grain p := by
  obtain ⟨-, hlow, hhigh⟩ := h.offset_bounds hpos hi
  have hgrain := grain_pos p
  have hupper : p.lower.toRat + rounded (edgeStep p count * i) ≤ p.upper.toRat := by
    rw [width] at hhigh
    linarith
  have hlimits := abs_lt.1 (abs_toRat_lt p.lower)
  have hlimits' := abs_lt.1 (abs_toRat_lt p.upper)
  have hbound := limit_lt_bound
  apply (abs_rounded_sub_le_abs _).trans (error_le_grain _)
  · rw [abs_lt]
    constructor <;> linarith
  · rw [abs_le]
    constructor
    · linarith [neg_le_abs p.lower.toRat, neg_abs_le p.lower.toRat, abs_nonneg p.upper.toRat]
    · linarith [le_abs_self p.upper.toRat, abs_nonneg p.lower.toRat]

/-- The points of a wide interval are apart. -/
theorem edgeSeparates (h : Spacious p count) : EdgeSeparates p count := by
  obtain rfl | hpos := Nat.eq_zero_or_pos count
  · refine ⟨h.width_lt, fun i hi => absurd hi (Nat.not_lt_zero i), ?_⟩
    rw [edgePoint_zero]
    exact toRat_lower_lt p
  have hhalf : 0 ≤ count * halfUnit := mul_nonneg (Nat.cast_nonneg count) halfUnit_pos.le
  have hpiece := h.piece_lt
  refine ⟨h.width_lt, ?_, ?_⟩
  · intro i hi
    have hstep := (h.step_bounds hpos).1
    have hpoint := abs_le.1 (h.abs_edgePoint_sub_le hpos hi.le)
    have hpoint' := abs_le.1 (h.abs_edgePoint_sub_le hpos hi)
    have hoffset := abs_le.1 (h.offset_bounds hpos hi.le).1
    have hoffset' := abs_le.1 (h.offset_bounds hpos hi).1
    have hnext : edgeStep p count * (i + 1 : ℕ) = edgeStep p count * i + edgeStep p count := by
      push_cast
      ring
    rw [hnext] at hoffset' hpoint'
    linarith [hpoint.2, hpoint'.1, hoffset.2, hoffset'.1]
  · have hpoint := abs_le.1 (h.abs_edgePoint_sub_le hpos le_rfl)
    have hoffset := (h.offset_bounds hpos le_rfl).2.2
    rw [width] at hoffset
    linarith [hpoint.2, grain_pos p]

end Spacious

/-! ### Samples apart from each other -/

/-- The samples are those of the corners and of the edges; the points on an edge are strictly inside it
and in increasing order, and no two samples stand at the same place. -/
structure StandApart (ps : List Parameter) (count : ℕ) (samples : List Sample) : Prop where
  samples_eq : samples = (boxPoints ps count (edgeValue count)).map (sampleAt ps)
  interior : Interior ps count (edgeValue count)
  nodup : (samples.map fun s => location s.point).Nodup

lemma length_of_mem_boxPoints (h : vs ∈ boxPoints ps count value) : vs.length = ps.length := by
  obtain ⟨corner, hcorner, hvs⟩ := List.mem_flatMap.1 h
  have hlength := (mem_corners_iff.1 hcorner).length_eq.symm
  obtain rfl | hvs := List.mem_cons.1 hvs
  · exact hlength
  · obtain ⟨⟨p, axis⟩, -, hvs⟩ := List.mem_flatMap.1 hvs
    obtain ⟨-, i, -, rfl⟩ := mem_edge_iff.1 hvs
    exact List.length_set.trans hlength

theorem standApart_of_interior (h : vertexSamples ps count = .ok samples)
    (hinterior : Interior ps count (edgeValue count)) : StandApart ps count samples := by
  have hsamples := vertexSamples_eq h
  refine ⟨hsamples, hinterior, ?_⟩
  have hpoints : (samples.map fun s => location s.point) =
      (boxPoints ps count (edgeValue count)).map location := by
    rw [hsamples, List.map_map]
    apply List.map_congr_left
    intro vs hvs
    rw [Function.comp_apply, point_sampleAt (length_of_mem_boxPoints hvs)]
  rw [hpoints]
  exact hinterior.nodup_boxPoints

/-- When the samples of a box stand apart, and intervals that are wide enough for it. -/
theorem samples_stand_apart_iff (hvertices : vertexCount ps.length count = some n) :
    ((∃ samples, vertexSamples ps count = .ok samples ∧ StandApart ps count samples) ↔
        ∀ p ∈ ps, count = 0 ∨ EdgeSeparates p count) ∧
      ∀ p, Spacious p count → EdgeSeparates p count := by
  refine ⟨⟨?_, ?_⟩, fun p => Spacious.edgeSeparates⟩
  · rintro ⟨samples, hsamples, hapart⟩ p hp
    have hfits := (exists_vertexSamples_iff hvertices).1 ⟨samples, hsamples⟩ p hp
    obtain hzero | hpos := Nat.eq_zero_or_pos count
    · exact .inl hzero
    · exact .inr (edgeSeparates_of_interior (lt_of_vertexCount hvertices hp) hp hpos
        (hfits.resolve_left hpos.ne') hapart.interior)
  · intro h
    obtain ⟨samples, hsamples⟩ := (exists_vertexSamples_iff hvertices).2 fun p hp =>
      (h p hp).imp_right EdgeSeparates.edgeFits
    have hinterior := interior_of_edgeSeparates (fun p hp => lt_of_vertexCount hvertices hp) h
    exact ⟨samples, hsamples, standApart_of_interior hsamples hinterior⟩

theorem unitAndTriple_stand_apart : (∀ p ∈ unitAndTriple, Spacious p 2) ∧
    ∃ samples, vertexSamples unitAndTriple 2 = .ok samples ∧ StandApart unitAndTriple 2 samples := by
  have hspacious : ∀ p ∈ unitAndTriple, Spacious p 2 := by decide +kernel
  have hvertices : vertexCount unitAndTriple.length 2 = some 12 := by decide
  obtain ⟨hiff, hwide⟩ := samples_stand_apart_iff hvertices
  exact ⟨hspacious, hiff.2 fun p hp => .inr (hwide p (hspacious p hp))⟩

/-- An interval of eight units of the last place. -/
def eightUnits : Parameter := ⟨"p", .zero, lastPlace 8, trim_p_ne, by decide +kernel⟩

/-- Eight units in five pieces make a step of two units, and the fourth point meets the end. -/
theorem eightUnits_meet_end : vertexCount 1 4 = some 6 ∧
    vertexSamples [eightUnits] 4 = .ok ([[.zero], [lastPlace 2], [lastPlace 4], [lastPlace 6],
      [lastPlace 8], [lastPlace 8]].map (sampleAt [eightUnits])) ∧
    ¬∃ samples, vertexSamples [eightUnits] 4 = .ok samples ∧ StandApart [eightUnits] 4 samples := by
  have hsamples : vertexSamples [eightUnits] 4 = .ok ([[.zero], [lastPlace 2], [lastPlace 4],
      [lastPlace 6], [lastPlace 8], [lastPlace 8]].map (sampleAt [eightUnits])) := by decide +kernel
  refine ⟨by decide, hsamples, ?_⟩
  rintro ⟨samples, hsamples', hapart⟩
  obtain rfl : _ = samples := Except.ok.inj (hsamples.symm.trans hsamples')
  have hnodup := hapart.nodup
  revert hnodup
  decide +kernel

end MarkovFit.Proofs
