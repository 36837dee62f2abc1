import MarkovFit.Proofs.BoxVertices
import MarkovFit.Proofs.DecimalForms

/-!
# Draws next to the largest decimal

A draw is cut at the upper end of its interval, but only after its offset has been added to the lower
end. The width can have been rounded up by a half, and then the sum of the two passes the upper end by
a half. That is too much only if the upper end is the largest decimal, and only for the fraction one.
All other draws stay in their intervals.
-/

namespace MarkovFit.Proofs

open Decimal Sampling

variable {x : ℚ} {p : Parameter} {ps : List Parameter} {t : Decimal}

/-! ### Halves -/

/-- A number without room for a digit is rounded to an integer. -/
theorem rounded_of_room_zero (hx : 0 ≤ x) (hlt : x < decimalLimit) (hroom : room x = 0) :
    rounded x = nearestEven x := by
  rw [rounded_of_nonneg hx, roundedMagnitude, hroom, pow_zero, mul_one, div_one, settled,
    if_pos ((nearestEven_lt_bound_iff hx).2 hlt)]

/-- Rounding adds a half at most, and that only to reach an even number. -/
theorem rounded_le_add_half (hx : 0 ≤ x) (hlt : x < decimalLimit) :
    rounded x ≤ x + 1 / 2 ∧ (rounded x = x + 1 / 2 → ∃ k : ℕ, rounded x = 2 * k) := by
  cases hroom : room x with
  | zero =>
    rw [rounded_of_room_zero hx hlt hroom]
    refine ⟨by linarith [(nearestEven_spec hx).1], fun htie => ?_⟩
    obtain ⟨-, -, heven⟩ := roundHalfEven_spec (n := x.num.toNat) (Rat.den_pos x)
    rw [num_div_den_of_nonneg hx, ← nearestEven] at heven
    have hmod := heven (.inl (by linarith))
    refine ⟨nearestEven x / 2, ?_⟩
    exact_mod_cast (Nat.mul_div_cancel' (Nat.dvd_of_mod_eq_zero hmod)).symm
  | succ places =>
    -- With a digit after the point, even the bound that loses its last digit is nearer.
    have hten : (10 : ℚ) ≤ 10 ^ (places + 1) := le_self_pow₀ (by norm_num) (Nat.succ_ne_zero _)
    have hnearest := (nearestEven_spec (x := x * 10 ^ (places + 1)) (by positivity)).1
    have hbound := nearestEven_le_bound hx (hlt.trans limit_lt_bound)
    rw [hroom] at hbound
    rw [rounded_of_nonneg hx, roundedMagnitude, hroom]
    generalize nearestEven (x * 10 ^ (places + 1)) = n at hnearest hbound ⊢
    have hsettled : settled n ≤ n + 4 := by
      rw [settled]
      split <;> omega
    have hcast : (settled n : ℚ) ≤ n + 4 := by exact_mod_cast hsettled
    have hless : (settled n : ℚ) / 10 ^ (places + 1) < x + 1 / 2 := by
      rw [div_lt_iff₀ (by positivity), add_mul]
      linarith
    exact ⟨hless.le, fun htie => absurd htie hless.ne⟩

/-- The half above an odd number is rounded up. -/
theorem nearestEven_odd_half (k : ℕ) : nearestEven (2 * k + 3 / 2) = 2 * k + 2 := by
  have hquotient : (2 * k + 3 / 2 : ℚ) = (4 * k + 3 : ℕ) / (2 : ℕ) := by
    push_cast
    ring
  rw [hquotient, nearestEven_div two_pos, roundHalfEven]
  split <;> omega

/-! ### Intervals up to the largest decimal -/

/-- The interval ends at the largest decimal, and begins at the half above an odd number. -/
structure ReachesLimit (p : Parameter) : Prop where
  upper_eq : p.upper.toRat = mantissaBound - 1
  lower_eq : ∃ k : ℕ, p.lower.toRat = 2 * k + 3 / 2

lemma toRat_le_bound_sub_one (c : Decimal) : c.toRat ≤ mantissaBound - 1 := by
  have hvalue := mantissa_eq_abs c
  have hmantissa : (c.mantissa : ℚ) + 1 ≤ mantissaBound := by exact_mod_cast c.mantissa_lt
  have hone : (1 : ℚ) ≤ 10 ^ c.scale := one_le_pow₀ (by norm_num)
  have habs : |c.toRat| ≤ |c.toRat| * 10 ^ c.scale := le_mul_of_one_le_right (abs_nonneg _) hone
  linarith [le_abs_self c.toRat]

/-- A decimal with a fraction keeps a digit for it. -/
lemma toRat_lt_of_half {c : Decimal} {k : ℕ} (h : c.toRat = 2 * k + 3 / 2) :
    c.toRat * 10 < mantissaBound := by
  have hvalue := mantissa_eq_abs c
  have hpos : 0 ≤ c.toRat := by rw [h]; positivity
  have hmantissa : (c.mantissa : ℚ) < mantissaBound := by exact_mod_cast c.mantissa_lt
  rw [abs_of_nonneg hpos] at hvalue
  cases hscale : c.scale with
  | zero =>
    rw [hscale, pow_zero, mul_one, h] at hvalue
    have hinteger : (2 * c.mantissa : ℚ) = 4 * k + 3 := by
      rw [hvalue]
      ring
    have hparity : 2 * c.mantissa = 4 * k + 3 := by exact_mod_cast hinteger
    omega
  | succ places =>
    have hten : (10 : ℚ) ≤ 10 ^ (places + 1) := le_self_pow₀ (by norm_num) (Nat.succ_ne_zero _)
    rw [hscale] at hvalue
    calc c.toRat * 10 ≤ c.toRat * 10 ^ (places + 1) := mul_le_mul_of_nonneg_left hten hpos
      _ = c.mantissa := hvalue.symm
      _ < mantissaBound := hmantissa

/-- The bound is even, and so is what is left of it above an even number. -/
lemma exists_even_rest {k : ℕ} (h : (2 * k : ℚ) < mantissaBound) :
    ∃ j : ℕ, (mantissaBound : ℚ) = 2 * j + 2 * k + 2 := by
  have hlt : 2 * k < mantissaBound := by exact_mod_cast h
  have heven : mantissaBound % 2 = 0 := by decide
  have hrest : mantissaBound = 2 * (mantissaBound / 2 - k - 1) + 2 * k + 2 := by omega
  exact ⟨mantissaBound / 2 - k - 1, by exact_mod_cast hrest⟩

/-- A decimal below one is so by a unit of the finest scale at least. -/
lemma mul_pow_le_of_lt_one (h : t.toRat < 1) : t.toRat * 10 ^ maxScale ≤ 10 ^ maxScale - 1 := by
  have hunits : (t.units maxScale : ℚ) = t.toRat * 10 ^ maxScale := units_eq_mul_toRat t t.scale_le
  have hless : (t.units maxScale : ℚ) < (10 ^ maxScale : ℤ) := by
    rw [hunits]
    push_cast
    exact mul_lt_of_lt_one_left (by positivity) h
  have hstep : t.units maxScale ≤ 10 ^ maxScale - 1 := Int.le_sub_one_of_lt (by exact_mod_cast hless)
  rw [← hunits]
  exact_mod_cast hstep

namespace ReachesLimit

/-- The width is rounded up by a half, to a large integer. -/
theorem rounded_width (h : ReachesLimit p) : rounded (width p) = width p + 1 / 2 ∧
    ∃ m : ℕ, rounded (width p) = m ∧ (10 : ℚ) ^ maxScale ≤ m := by
  obtain ⟨k, hlower⟩ := h.lower_eq
  have hshort := toRat_lt_of_half hlower
  have hlargest : (2 : ℚ) * 10 ^ maxScale + 10 < mantissaBound := by norm_num [mantissaBound, maxScale]
  have hscale : (0 : ℚ) < 10 ^ maxScale := by positivity
  rw [hlower] at hshort
  obtain ⟨j, hbound⟩ : ∃ j : ℕ, (mantissaBound : ℚ) = 2 * j + 2 * (k + 1 : ℕ) + 2 := by
    apply exists_even_rest
    push_cast
    linarith
  push_cast at hbound
  have hwidth : width p = 2 * j + 3 / 2 := by
    rw [width, h.upper_eq, hlower, hbound]
    ring
  have hlt : width p < decimalLimit := by
    rw [decimalLimit, hwidth]
    linarith [Nat.cast_nonneg (α := ℚ) k]
  have hrounded : rounded (width p) = (2 * j + 2 : ℕ) := by
    have hroom : room (width p) = 0 := by
      apply room_eq (width_pos p).le (Nat.zero_le _)
      · linarith [limit_lt_bound]
      · right
        rw [zero_add, pow_one]
        linarith
    rw [rounded_of_room_zero (width_pos p).le hlt hroom, hwidth, nearestEven_odd_half]
  refine ⟨?_, _, hrounded, ?_⟩
  · rw [hrounded, hwidth]
    push_cast
    ring
  · push_cast
    linarith

/-- The sum with the whole width passes the upper end by a half. -/
theorem limit_le (h : ReachesLimit p) : decimalLimit ≤ p.lower.toRat + rounded (width p) := by
  rw [h.rounded_width.1, decimalLimit, width, h.upper_eq]
  linarith

/-- The next smaller offset is less by one at least. -/
theorem drawOffset_lt (h : ReachesLimit p) (hlow : 0 ≤ t.toRat) (hless : t.toRat < 1) :
    p.lower.toRat + drawOffset p t.toRat < decimalLimit := by
  obtain ⟨hrounded, m, hm, hlarge⟩ := h.rounded_width
  have hscale : (0 : ℚ) < 10 ^ maxScale := by positivity
  obtain ⟨k, hlower⟩ := h.lower_eq
  have hsum : p.lower.toRat + m = mantissaBound - 1 / 2 := by
    rw [← hm, hrounded, width, h.upper_eq]
    ring
  have hmlt : m < mantissaBound := by
    have hcast : (m : ℚ) < mantissaBound := by linarith [Nat.cast_nonneg (α := ℚ) k]
    exact_mod_cast hcast
  have hmpos : 1 ≤ m := by
    have hcast : (0 : ℚ) < m := hscale.trans_le hlarge
    exact_mod_cast hcast
  have hsmaller : m * t.toRat ≤ (m - 1 : ℕ) := by
    have hscaled : m * (t.toRat * 10 ^ maxScale) ≤ m * (10 ^ maxScale - 1) :=
      mul_le_mul_of_nonneg_left (mul_pow_le_of_lt_one hless) (Nat.cast_nonneg m)
    apply le_of_mul_le_mul_right _ hscale
    push_cast [hmpos]
    linarith
  obtain ⟨c, -, hc⟩ := exists_ofNat? (n := m - 1) (by omega)
  have hoffset : drawOffset p t.toRat ≤ c.toRat := by
    rw [drawOffset, hm]
    apply rounded_le c (by rwa [hc.toRat])
    linarith [decimalLimit_pos, mul_nonneg (Nat.cast_nonneg (α := ℚ) m) hlow]
  rw [hc.toRat, Nat.cast_sub hmpos, Nat.cast_one] at hoffset
  rw [decimalLimit]
  linarith

end ReachesLimit

/-- Which sums with the whole width leave the range. -/
theorem limit_le_whole_iff (h : width p < decimalLimit) :
    decimalLimit ≤ p.lower.toRat + rounded (width p) ↔ ReachesLimit p := by
  refine ⟨fun hreach => ?_, ReachesLimit.limit_le⟩
  have hwidth : width p = p.upper.toRat - p.lower.toRat := rfl
  have hlimit : decimalLimit = mantissaBound - 1 / 2 := rfl
  have hupper := toRat_le_bound_sub_one p.upper
  obtain ⟨hle, htie⟩ := rounded_le_add_half (width_pos p).le h
  -- The half that is missing up to the limit must come from rounding.
  obtain ⟨k, hk⟩ := htie (by linarith)
  obtain ⟨j, hbound⟩ := exists_even_rest (k := k) (by linarith)
  exact ⟨by linarith, j, by linarith⟩

/-- The fraction one takes the whole width, and a smaller one leaves all sums in the range. -/
theorem limit_le_offset_iff (h : width p < decimalLimit) (hlow : 0 ≤ t.toRat) (hhigh : t.toRat ≤ 1) :
    decimalLimit ≤ p.lower.toRat + drawOffset p t.toRat ↔ ReachesLimit p ∧ t.toRat = 1 := by
  obtain ⟨w, offset, hw, -, hvalue, -, hle⟩ := exists_drawOffset h hlow hhigh
  constructor
  · intro hreach
    rw [← hvalue] at hreach
    have hlimit := (limit_le_whole_iff h).1 (by linarith)
    refine ⟨hlimit, hhigh.antisymm (not_lt.1 fun hless => ?_)⟩
    have hbelow := hlimit.drawOffset_lt hlow hless
    linarith
  · rintro ⟨hlimit, hone⟩
    rw [drawOffset, hone, mul_one, ← (of_span hw).2, rounded_toRat, (of_span hw).2]
    exact hlimit.limit_le

/-! ### Draws -/

/-- The draw takes the whole width of an interval that reaches the limit. -/
def PassesLimit (p : Parameter) (t : Decimal) : Prop := ReachesLimit p ∧ t.toRat = 1

theorem exists_valueAt_of_not_passesLimit (h : width p < decimalLimit) (hlow : 0 ≤ t.toRat)
    (hhigh : t.toRat ≤ 1) (hpasses : ¬PassesLimit p t) :
    ∃ v, valueAt p t = .ok v ∧ p.contains v = true := by
  apply exists_valueAt_of_offset h hlow hhigh
  rw [← not_le, limit_le_offset_iff h hlow hhigh]
  exact hpasses

theorem valueAt_of_passesLimit (h : width p < decimalLimit) (hpasses : PassesLimit p t) :
    valueAt p t = .error (.fault .decimalOverflow) := by
  have hlow : 0 ≤ t.toRat := hpasses.2 ▸ zero_le_one
  have hhigh : t.toRat ≤ 1 := hpasses.2.le
  exact valueAt_of_limit_le h hlow hhigh ((limit_le_offset_iff h hlow hhigh).2 hpasses)

section Sources

variable {γ : Type} [RandomSource γ] {source : γ}

/-- The first draw that passes the limit ends the others. -/
theorem drawValues_of_passesLimit (h : ∀ p ∈ ps, width p < decimalLimit)
    (hpasses : ∃ x ∈ ps.zip (fractions ps.length source), PassesLimit x.1 x.2) :
    drawValues ps source = .error (.fault .decimalOverflow) := by
  induction ps generalizing source with
  | nil =>
    obtain ⟨x, hx, -⟩ := hpasses
    exact absurd hx List.not_mem_nil
  | cons p ps ih =>
    have hwidth := h p List.mem_cons_self
    obtain ⟨hlow, hhigh⟩ := fraction_bounds (RandomSource.next source).1
    have hdraw : drawValue p source = (do
        let v ← valueAt p (fraction (RandomSource.next source).1)
        return (v, (RandomSource.next source).2)) := rfl
    rw [drawValues, hdraw]
    by_cases hfirst : PassesLimit p (fraction (RandomSource.next source).1)
    · rw [valueAt_of_passesLimit hwidth hfirst]
      rfl
    · obtain ⟨v, hv, -⟩ := exists_valueAt_of_not_passesLimit hwidth hlow hhigh hfirst
      obtain ⟨x, hx, hpasses⟩ := hpasses
      obtain rfl | hx := List.mem_cons.1 hx
      · exact absurd hpasses hfirst
      · have hrest := ih (fun q hq => h q (List.mem_cons_of_mem p hq)) ⟨x, hx, hpasses⟩
        simp only [hv, Bind.bind, Except.bind, pure, Except.pure, hrest]

theorem drawSample_of_passesLimit (h : ∀ p ∈ ps, width p < decimalLimit)
    (hpasses : ∃ x ∈ ps.zip (fractions ps.length source), PassesLimit x.1 x.2) :
    drawSample ps source = .error (.fault .decimalOverflow) := by
  rw [drawSample, drawValues_of_passesLimit h hpasses]
  rfl

theorem exists_drawSample_of_not_passesLimit (h : ∀ p ∈ ps, width p < decimalLimit)
    (hpasses : ∀ x ∈ ps.zip (fractions ps.length source), ¬PassesLimit x.1 x.2) :
    ∃ sample rest, drawSample ps source = .ok (sample, rest) ∧ InBox ps sample.point := by
  have hvalues : ∀ x ∈ ps.zip (fractions ps.length source),
      ∃ v, valueAt x.1 x.2 = .ok v ∧ x.1.contains v = true := by
    intro x hx
    obtain ⟨hp, ht⟩ := List.of_mem_zip hx
    obtain ⟨hlow, hhigh⟩ := fractions_bounds ht
    exact exists_valueAt_of_not_passesLimit (h x.1 hp) hlow hhigh (hpasses x hx)
  obtain ⟨values, rest, hdraw, hbox⟩ := exists_drawValues_of_fractions hvalues
  obtain ⟨sample, hsample⟩ := exists_ofValues_iff.2 hbox
  refine ⟨sample, rest, bind_eq_ok.2 ⟨(values, rest), hdraw, bind_eq_ok.2 ⟨sample, hsample, rfl⟩⟩, ?_⟩
  rw [eq_sampleAt hsample, point_sampleAt hbox.length_eq.symm]
  exact hbox

end Sources

/-- Draws stay in the box, except for those of the fraction one on an interval that begins at the half
above an odd number and ends at the largest decimal. -/
theorem draws_stay_in_box (hspans : ∀ p ∈ ps, ∃ w, p.span = .ok w) :
    (∀ p ∈ ps, ∀ t : Decimal, 0 ≤ t.toRat → t.toRat ≤ 1 →
        (¬PassesLimit p t → ∃ v, valueAt p t = .ok v ∧ p.contains v = true) ∧
          (PassesLimit p t → valueAt p t = .error (.fault .decimalOverflow))) ∧
      ∀ (γ : Type) [RandomSource γ] (source : γ),
        ((∀ x ∈ ps.zip (fractions ps.length source), ¬PassesLimit x.1 x.2) →
            ∃ sample rest, drawSample ps source = .ok (sample, rest) ∧ InBox ps sample.point) ∧
          ((∃ x ∈ ps.zip (fractions ps.length source), PassesLimit x.1 x.2) →
            drawSample ps source = .error (.fault .decimalOverflow)) := by
  have hwidths : ∀ p ∈ ps, width p < decimalLimit := by
    intro p hp
    obtain ⟨w, hw⟩ := hspans p hp
    exact (of_span hw).1
  constructor
  · intro p hp t hlow hhigh
    exact ⟨exists_valueAt_of_not_passesLimit (hwidths p hp) hlow hhigh,
      valueAt_of_passesLimit (hwidths p hp)⟩
  · intro γ _ source
    exact ⟨exists_drawSample_of_not_passesLimit hwidths, drawSample_of_passesLimit hwidths⟩

theorem unitAndTriple_drawn : (∀ p ∈ unitAndTriple, ∃ w, p.span = .ok w) ∧
    ∀ (γ : Type) [RandomSource γ] (source : γ), ∃ sample rest,
      drawSample unitAndTriple source = .ok (sample, rest) ∧ InBox unitAndTriple sample.point := by
  have hspans : ∀ p ∈ unitAndTriple, ∃ w, p.span = .ok w := by
    have hok : ∀ p ∈ unitAndTriple, p.span.toOption.isSome = true := by decide +kernel
    exact fun p hp => exists_eq_ok (hok p hp)
  have hends : ∀ p ∈ unitAndTriple, p.upper.toRat ≠ mantissaBound - 1 := by decide +kernel
  refine ⟨hspans, fun γ _ source => ?_⟩
  apply ((draws_stay_in_box hspans).2 γ source).1
  intro x hx hpasses
  exact hends x.1 (List.of_mem_zip hx).1 hpasses.1.upper_eq

/-- From one and a half to the largest decimal. -/
def toLargest : Parameter :=
  ⟨"p", (Decimal.ofParts? false 15 1).getD .zero,
    (Decimal.ofNat? (Decimal.mantissaBound - 1)).getD .one, trim_p_ne, by decide +kernel⟩

/-- The width is rounded up by a half, and the source of the greatest words draws the fraction one. -/
theorem toLargest_overflows : (∃ w, toLargest.span = .ok w) ∧
    (0 ≤ Decimal.one.toRat ∧ Decimal.one.toRat ≤ 1 ∧
      valueAt toLargest .one = .error (.fault .decimalOverflow)) ∧
    drawSample [toLargest] greatestWords = .error (.fault .decimalOverflow) := by
  have hlimit : ReachesLimit toLargest := by
    refine ⟨by decide +kernel, 0, ?_⟩
    have hlower : toLargest.lower.toRat = 3 / 2 := by decide +kernel
    rw [hlower]
    norm_num
  have hspan := exists_eq_ok (x := toLargest.span) (by decide +kernel)
  have hwidth : ∀ p ∈ [toLargest], width p < decimalLimit := by
    intro p hp
    obtain rfl := List.mem_singleton.1 hp
    obtain ⟨w, hw⟩ := hspan
    exact (of_span hw).1
  refine ⟨hspan, ⟨by rw [toRat_one]; exact zero_le_one, toRat_one.le, ?_⟩, ?_⟩
  · exact valueAt_of_passesLimit (hwidth _ List.mem_cons_self) ⟨hlimit, toRat_one⟩
  · apply drawSample_of_passesLimit hwidth
    exact ⟨(toLargest, fraction (UInt64.ofNat (2 ^ 64 - 1))), List.mem_cons_self,
      hlimit, toRat_fraction_max⟩

end MarkovFit.Proofs
