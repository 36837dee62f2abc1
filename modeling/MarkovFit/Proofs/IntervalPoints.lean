import MarkovFit.Proofs.DecimalQuotient
import MarkovFit.Proofs.Outcomes
import MarkovFit.Sampling.Uniform

/-!
# Points of an interval

A drawn value and a point on an edge are both reached from the lower end of an interval by a rounded
offset. Rounding is monotone and leaves the ends alone, so that neither falls below the lower end. A
drawn value is cut at the upper end. The points on an edge are not, and the last of them decides
whether all of them lie inside.
-/

namespace MarkovFit.Proofs

open Decimal Sampling

variable {x : ℚ} {p : Parameter} {v : Decimal} {count i : ℕ}

/-! ### Widths -/

theorem unguarded_eq_ok {α : Type} {r : Option α} {a : α} : unguarded r = .ok a ↔ r = some a := by
  cases r <;> simp [unguarded]

lemma toRat_lower_lt (p : Parameter) : p.lower.toRat < p.upper.toRat :=
  (lt_iff_toRat_lt _ _).1 p.lower_lt_upper

/-- The exact width of an interval. -/
def width (p : Parameter) : ℚ := p.upper.toRat - p.lower.toRat

theorem width_pos (p : Parameter) : 0 < width p :=
  sub_pos.2 (toRat_lower_lt p)

theorem span_eq_ok_iff : p.span = .ok v ↔ p.upper.sub? p.lower = some v := by
  rw [Parameter.span]
  cases p.upper.sub? p.lower <;> simp

theorem exists_span (h : width p < decimalLimit) :
    ∃ v, p.span = .ok v ∧ v.toRat = rounded (width p) := by
  have habs : |width p| < decimalLimit := by rwa [abs_of_pos (width_pos p)]
  obtain ⟨v, hv, hvalue⟩ := exists_of_isRounding (sub?_spec _ _) habs
  exact ⟨v, span_eq_ok_iff.2 hv, hvalue⟩

theorem of_span (h : p.span = .ok v) : width p < decimalLimit ∧ v.toRat = rounded (width p) := by
  have hrounding := sub?_spec p.upper p.lower
  rw [span_eq_ok_iff.1 h] at hrounding
  obtain ⟨habs, hvalue⟩ := of_isRounding_some hrounding
  exact ⟨(le_abs_self _).trans_lt habs, hvalue⟩

theorem contains_iff : p.contains v = true ↔ p.lower.toRat ≤ v.toRat ∧ v.toRat ≤ p.upper.toRat := by
  rw [Parameter.contains, Bool.and_eq_true, decide_eq_true_iff, decide_eq_true_iff,
    le_iff_toRat_le, le_iff_toRat_le]

/-- What is added to the lower end does not lead out of the range if it is not negative and the sum
is below the limit. -/
theorem exists_add_lower (offset : Decimal) (hoffset : 0 ≤ offset.toRat)
    (h : p.lower.toRat + offset.toRat < decimalLimit) :
    ∃ v, p.lower.add? offset = some v ∧ v.toRat = rounded (p.lower.toRat + offset.toRat) ∧
      p.lower.toRat ≤ v.toRat := by
  have hle : p.lower.toRat ≤ p.lower.toRat + offset.toRat := le_add_of_nonneg_right hoffset
  have habs : |p.lower.toRat + offset.toRat| < decimalLimit :=
    abs_lt.2 ⟨(toRat_mem_Ioo p.lower).1.trans_le hle, h⟩
  obtain ⟨v, hv, hvalue⟩ := exists_of_isRounding (add?_spec _ _) habs
  exact ⟨v, hv, hvalue, hvalue ▸ le_rounded p.lower hle h⟩

/-! ### Drawn values -/

/-- The width of the interval can be computed, and be added to the lower end. -/
structure DrawsFit (p : Parameter) : Prop where
  width_lt : width p < decimalLimit
  reach_lt : p.lower.toRat + rounded (width p) < decimalLimit

instance : Decidable (DrawsFit p) :=
  decidable_of_iff (width p < decimalLimit ∧ p.lower.toRat + rounded (width p) < decimalLimit)
    ⟨fun h => ⟨h.1, h.2⟩, fun h => ⟨h.1, h.2⟩⟩

theorem toRat_min_le (a b : Decimal) : (a.min b).toRat ≤ b.toRat := by
  rw [Decimal.min]
  split
  · exact le_rfl
  · rename_i hle
    rw [lt_iff_toRat_lt, not_lt] at hle
    exact hle

theorem le_toRat_min {a b : Decimal} (ha : x ≤ a.toRat) (hb : x ≤ b.toRat) : x ≤ (a.min b).toRat := by
  rw [Decimal.min]
  split
  · exact hb
  · exact ha

/-- The fraction `x` of the width, as a draw computes it. -/
def drawOffset (p : Parameter) (x : ℚ) : ℚ := rounded (rounded (width p) * x)

/-- The offset of a draw is there, and at most the width. -/
theorem exists_drawOffset (h : width p < decimalLimit) {t : Decimal} (hlow : 0 ≤ t.toRat)
    (hhigh : t.toRat ≤ 1) :
    ∃ w offset, p.span = .ok w ∧ w.mul? t = some offset ∧ offset.toRat = drawOffset p t.toRat ∧
      0 ≤ offset.toRat ∧ offset.toRat ≤ rounded (width p) := by
  obtain ⟨w, hw, hwidth⟩ := exists_span h
  have hwnonneg : 0 ≤ w.toRat := hwidth ▸ rounded_nonneg (width_pos p).le
  have hproduct : 0 ≤ w.toRat * t.toRat := mul_nonneg hwnonneg hlow
  have hle : w.toRat * t.toRat ≤ w.toRat := mul_le_of_le_one_right hwnonneg hhigh
  have habs : |w.toRat * t.toRat| < decimalLimit := by
    rw [abs_of_nonneg hproduct]
    exact hle.trans_lt (toRat_mem_Ioo w).2
  obtain ⟨offset, hoffset, hvalue⟩ := exists_of_isRounding (mul?_spec _ _) habs
  refine ⟨w, offset, hw, hoffset, by rw [hvalue, hwidth, drawOffset], ?_, ?_⟩
  · exact hvalue ▸ rounded_nonneg hproduct
  · rw [hvalue, ← hwidth]
    exact rounded_le w hle (by linarith [decimalLimit_pos])

/-- A draw has a value if its offset can be added to the lower end. -/
theorem exists_valueAt_of_offset (h : width p < decimalLimit) {t : Decimal} (hlow : 0 ≤ t.toRat)
    (hhigh : t.toRat ≤ 1) (hreach : p.lower.toRat + drawOffset p t.toRat < decimalLimit) :
    ∃ v, valueAt p t = .ok v ∧ p.contains v = true := by
  obtain ⟨w, offset, hw, hoffset, hvalue, hnonneg, -⟩ := exists_drawOffset h hlow hhigh
  rw [← hvalue] at hreach
  obtain ⟨v, hv, -, hlower⟩ := exists_add_lower offset hnonneg hreach
  refine ⟨v.min p.upper, ?_, contains_iff.2 ⟨?_, toRat_min_le v p.upper⟩⟩
  · simp only [valueAt, bind_eq_ok, unguarded_eq_ok]
    exact ⟨w, hw, offset, hoffset, v, hv, rfl⟩
  · exact le_toRat_min hlower (toRat_lower_lt p).le

/-- Otherwise the sum leaves the range before it is cut at the upper end. -/
theorem valueAt_of_limit_le (h : width p < decimalLimit) {t : Decimal} (hlow : 0 ≤ t.toRat)
    (hhigh : t.toRat ≤ 1) (hreach : decimalLimit ≤ p.lower.toRat + drawOffset p t.toRat) :
    valueAt p t = .error (.fault .decimalOverflow) := by
  obtain ⟨w, offset, hw, hoffset, hvalue, -, -⟩ := exists_drawOffset h hlow hhigh
  have hsum : p.lower.add? offset = none := by
    obtain ⟨hlt, -⟩ | ⟨-, hnone⟩ := add?_spec p.lower offset
    · rw [hvalue] at hlt
      exact absurd ((le_abs_self _).trans_lt hlt) (not_lt.2 hreach)
    · exact hnone
  rw [valueAt, hw]
  simp only [Bind.bind, Except.bind, hoffset, hsum, unguarded]

theorem exists_valueAt (h : DrawsFit p) {t : Decimal} (hlow : 0 ≤ t.toRat) (hhigh : t.toRat ≤ 1) :
    ∃ v, valueAt p t = .ok v ∧ p.contains v = true := by
  obtain ⟨-, offset, -, -, hvalue, -, hle⟩ := exists_drawOffset h.width_lt hlow hhigh
  apply exists_valueAt_of_offset h.width_lt hlow hhigh
  rw [← hvalue]
  linarith [h.reach_lt]

/-- A value that is drawn lies in the interval, whatever its width. -/
theorem contains_of_valueAt {t : Decimal} (hlow : 0 ≤ t.toRat) (h : valueAt p t = .ok v) :
    p.contains v = true := by
  simp only [valueAt, bind_eq_ok, unguarded_eq_ok] at h
  obtain ⟨w, hw, offset, hoffset, sum, hsum, hresult⟩ := h
  cases hresult
  obtain ⟨-, hwidth⟩ := of_span hw
  have hwnonneg : 0 ≤ w.toRat := hwidth ▸ rounded_nonneg (width_pos p).le
  have hproduct := mul?_spec w t
  rw [hoffset] at hproduct
  obtain ⟨-, hoffsetvalue⟩ := of_isRounding_some hproduct
  have hnonneg : 0 ≤ offset.toRat := hoffsetvalue ▸ rounded_nonneg (mul_nonneg hwnonneg hlow)
  have hle : p.lower.toRat ≤ p.lower.toRat + offset.toRat := le_add_of_nonneg_right hnonneg
  have hsumspec := add?_spec p.lower offset
  rw [hsum] at hsumspec
  obtain ⟨habs, hsumvalue⟩ := of_isRounding_some hsumspec
  have hlower : p.lower.toRat ≤ sum.toRat :=
    hsumvalue ▸ le_rounded p.lower hle ((le_abs_self _).trans_lt habs)
  refine contains_iff.2 ⟨?_, toRat_min_le sum p.upper⟩
  exact le_toRat_min hlower (toRat_lower_lt p).le

/-- The upper end is not reached without the width and the sum. -/
theorem drawsFit_of_valueAt {t : Decimal} (ht : t.toRat = 1) (h : valueAt p t = .ok v) :
    DrawsFit p := by
  simp only [valueAt, bind_eq_ok, unguarded_eq_ok] at h
  obtain ⟨w, hw, offset, hoffset, sum, hsum, -⟩ := h
  obtain ⟨hwidth, hwvalue⟩ := of_span hw
  have hproduct := mul?_spec w t
  rw [hoffset, ht, mul_one] at hproduct
  obtain ⟨-, hoffsetvalue⟩ := of_isRounding_some hproduct
  rw [rounded_toRat, hwvalue] at hoffsetvalue
  have hsumspec := add?_spec p.lower offset
  rw [hsum, hoffsetvalue] at hsumspec
  exact ⟨hwidth, (le_abs_self _).trans_lt (of_isRounding_some hsumspec).1⟩

/-! ### Points on an edge -/

/-- The distance between neighbouring points on an edge. -/
def edgeStep (p : Parameter) (count : ℕ) : ℚ := rounded (rounded (width p) / (count + 1))

/-- The value of the `i`-th of `count` points on an edge. -/
def edgePoint (p : Parameter) (count i : ℕ) : ℚ :=
  rounded (p.lower.toRat + rounded (edgeStep p count * i))

/-- The width of the interval can be computed, and the last point on its edge lies in it. -/
structure EdgeFits (p : Parameter) (count : ℕ) : Prop where
  width_lt : width p < decimalLimit
  last_le : edgePoint p count count ≤ p.upper.toRat

instance : Decidable (EdgeFits p count) :=
  decidable_of_iff (width p < decimalLimit ∧ edgePoint p count count ≤ p.upper.toRat)
    ⟨fun h => ⟨h.1, h.2⟩, fun h => ⟨h.1, h.2⟩⟩

theorem exists_boundaryStep (h : width p < decimalLimit) (hcount : count + 1 < mantissaBound) :
    ∃ step, boundaryStep p count = .ok step ∧ step.toRat = edgeStep p count := by
  obtain ⟨w, hw, hwidth⟩ := exists_span h
  obtain ⟨pieces, hpieces, hnat⟩ := exists_ofNat? hcount
  have hnonzero : pieces.mantissa ≠ 0 := by rw [hnat.mantissa]; exact Nat.succ_ne_zero count
  obtain ⟨step, hstep, hvalue⟩ := exists_div?_whole (a := w) hnat.scale hnonzero
  refine ⟨step, ?_, ?_⟩
  · simp only [boundaryStep, bind_eq_ok, unguarded_eq_ok]
    exact ⟨w, hw, pieces, hpieces, hstep⟩
  · rw [hvalue, hnat.toRat, hwidth, edgeStep]
    push_cast
    rfl

theorem of_boundaryStep {step : Decimal} (h : boundaryStep p count = .ok step)
    (hcount : count + 1 < mantissaBound) :
    width p < decimalLimit ∧ step.toRat = edgeStep p count := by
  have hwidth : width p < decimalLimit := by
    simp only [boundaryStep, bind_eq_ok] at h
    obtain ⟨w, hw, -⟩ := h
    exact (of_span hw).1
  obtain ⟨step', hstep', hvalue⟩ := exists_boundaryStep hwidth hcount
  rw [h] at hstep'
  cases hstep'
  exact ⟨hwidth, hvalue⟩

theorem edgeStep_nonneg (p : Parameter) (count : ℕ) : 0 ≤ edgeStep p count :=
  rounded_nonneg (div_nonneg (rounded_nonneg (width_pos p).le) (by positivity))

/-- A point is where its formula says, if nothing on the way leaves the range. -/
theorem exists_boundaryValue {step : Decimal} (hstep : step.toRat = edgeStep p count)
    (hi : i < mantissaBound) (hoffset : edgeStep p count * i < decimalLimit)
    (hsum : p.lower.toRat + rounded (edgeStep p count * i) < decimalLimit) :
    ∃ v, boundaryValue p step i = .ok v ∧ v.toRat = edgePoint p count i ∧
      p.lower.toRat ≤ v.toRat := by
  obtain ⟨factor, hfactor, hnat⟩ := exists_ofNat? hi
  have hproduct : 0 ≤ edgeStep p count * i := mul_nonneg (edgeStep_nonneg p count) (by positivity)
  have hspec := mul?_spec step factor
  rw [hstep, hnat.toRat] at hspec
  obtain ⟨offset, hmul, hvalue⟩ := exists_of_isRounding hspec (by rwa [abs_of_nonneg hproduct])
  rw [← hvalue] at hsum
  obtain ⟨v, hv, hvvalue, hlower⟩ := exists_add_lower offset (hvalue ▸ rounded_nonneg hproduct) hsum
  refine ⟨v, ?_, ?_, hlower⟩
  · simp only [boundaryValue, bind_eq_ok, unguarded_eq_ok]
    exact ⟨factor, hfactor, offset, hmul, hv⟩
  · rw [hvvalue, hvalue, edgePoint]

theorem of_boundaryValue {step : Decimal} (hstep : step.toRat = edgeStep p count)
    (hi : i < mantissaBound) (h : boundaryValue p step i = .ok v) : v.toRat = edgePoint p count i := by
  simp only [boundaryValue, bind_eq_ok, unguarded_eq_ok] at h
  obtain ⟨factor, hfactor, offset, hmul, hv⟩ := h
  obtain ⟨factor', hfactor', hnat⟩ := exists_ofNat? hi
  rw [hfactor] at hfactor'
  cases hfactor'
  have hproduct := mul?_spec step factor
  rw [hmul, hstep, hnat.toRat] at hproduct
  have hsum := add?_spec p.lower offset
  rw [hv, (of_isRounding_some hproduct).2] at hsum
  exact (of_isRounding_some hsum).2

/-- If the last point is not above the upper end, its sum has not left the range. -/
theorem EdgeFits.sum_lt (h : EdgeFits p count) :
    p.lower.toRat + rounded (edgeStep p count * count) < decimalLimit := by
  by_contra hge
  have hlast := h.last_le
  rw [edgePoint, rounded_of_limit_le (not_lt.1 hge)] at hlast
  linarith [(toRat_mem_Ioo p.upper).2, limit_lt_bound]

/-- Nor has its offset, since it would lead beyond any interval that is not too wide. -/
theorem EdgeFits.offset_lt (h : EdgeFits p count) : edgeStep p count * count < decimalLimit := by
  by_contra hge
  have hsum := h.sum_lt
  have hlast := h.last_le
  have hwidth := h.width_lt
  have hlower := (toRat_mem_Ioo p.lower).1
  rw [rounded_of_limit_le (not_lt.1 hge)] at hsum
  rw [edgePoint, rounded_of_limit_le (not_lt.1 hge)] at hlast
  have hhalf := sub_half_le_rounded (by linarith [limit_lt_bound]) (hsum.trans limit_lt_bound)
  rw [width] at hwidth
  linarith [limit_lt_bound]

/-- No point is above the last one. -/
theorem EdgeFits.exists_point (h : EdgeFits p count) {step : Decimal}
    (hstep : step.toRat = edgeStep p count) (hcount : count < mantissaBound) (hi : i ≤ count) :
    ∃ v, boundaryValue p step i = .ok v ∧ p.contains v = true := by
  have hcast : (i : ℚ) ≤ count := by exact_mod_cast hi
  have hproduct : 0 ≤ edgeStep p count * i := mul_nonneg (edgeStep_nonneg p count) (by positivity)
  have hle : edgeStep p count * i ≤ edgeStep p count * count :=
    mul_le_mul_of_nonneg_left hcast (edgeStep_nonneg p count)
  have hoffset : rounded (edgeStep p count * i) ≤ rounded (edgeStep p count * count) := by
    apply rounded_mono hle
    · linarith [decimalLimit_pos, limit_lt_bound]
    · linarith [h.offset_lt, limit_lt_bound]
  have hsum := h.sum_lt
  obtain ⟨v, hv, hvalue, hlower⟩ := exists_boundaryValue hstep (hi.trans_lt hcount)
    (hle.trans_lt h.offset_lt) (by linarith)
  refine ⟨v, hv, contains_iff.2 ⟨hlower, ?_⟩⟩
  rw [hvalue]
  refine le_trans ?_ h.last_le
  rw [edgePoint, edgePoint]
  apply rounded_mono (by linarith)
  · linarith [(toRat_mem_Ioo p.lower).1, rounded_nonneg hproduct, limit_lt_bound]
  · linarith [limit_lt_bound]

end MarkovFit.Proofs
