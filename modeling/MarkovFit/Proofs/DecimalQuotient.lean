import MarkovFit.Proofs.DecimalRounding

/-!
# Rounded quotients

Quotients are rounded as other results are. While digits are developed, the digits and the remainder
together keep the exact quotient; the development ends where nothing remains or where the rounding takes
place. A divisor with a longer fraction than the dividend makes it start before the point, and there
alone a quotient can be too large.
-/

namespace MarkovFit.Proofs

open Decimal

variable {x : ℚ} {d q r : ℕ} {s : ℤ} {inexact : Bool}

/-- Digits and remainder of an exact quotient, at a scale. -/
structure Develops (x : ℚ) (d q r : ℕ) (s : ℤ) : Prop where
  nonneg : 0 ≤ s
  scale_le : s ≤ 28
  remainder_lt : r < d
  digits_lt : q < mantissaBound
  /-- Before the point the digits leave room for rounding up. -/
  leading : s = 0 → r = 0 ∨ q + 1 < mantissaBound
  value : x * 10 ^ s.toNat = q + r / d

/-- The digits of a quotient are those of a number rounded to a decimal. -/
def Settles (x : ℚ) (result : Option Quotient) : Prop :=
  ∃ quotient, result = some quotient ∧ quotient.digits < mantissaBound ∧ 0 ≤ quotient.scale ∧
    quotient.scale ≤ 28 ∧ (quotient.digits / 10 ^ quotient.scale.toNat : ℚ) = roundedMagnitude x

/-- The rounded mantissa at the finest scale with room. -/
theorem roundedMagnitude_eq {places : ℕ} (hplaces : places ≤ maxScale)
    (hlt : x * 10 ^ places < mantissaBound)
    (hfinest : places = maxScale ∨ (mantissaBound : ℚ) ≤ x * 10 ^ (places + 1)) (hx : 0 ≤ x) :
    roundedMagnitude x = settled (nearestEven (x * 10 ^ places)) / 10 ^ places := by
  rw [roundedMagnitude, room_eq hx hplaces hlt hfinest]

theorem Develops.value_nonneg (h : Develops x d q r s) : 0 ≤ x := by
  have hvalue : 0 ≤ x * 10 ^ s.toNat := by
    rw [h.value]
    positivity
  exact nonneg_of_mul_nonneg_left hvalue (by positivity)

theorem Develops.divisor_pos (h : Develops x d q r s) : 0 < d := Nat.zero_lt_of_lt h.remainder_lt

/-- The exact quotient at the scale of its digits. -/
theorem Develops.value_eq_div (h : Develops x d q r s) :
    x * 10 ^ s.toNat = (q * d + r : ℕ) / d := by
  have hd : (d : ℚ) ≠ 0 := by exact_mod_cast h.divisor_pos.ne'
  rw [h.value]
  push_cast
  field_simp

theorem Develops.value_lt (h : Develops x d q r s) : x * 10 ^ s.toNat < q + 1 := by
  have hpos : (0 : ℚ) < d := by exact_mod_cast h.divisor_pos
  have hfraction : (r / d : ℚ) < 1 := by
    rw [div_lt_one hpos]
    exact_mod_cast h.remainder_lt
  rw [h.value]
  linarith

theorem Develops.value_lt_bound (h : Develops x d q r s) : x * 10 ^ s.toNat < mantissaBound := by
  have hq : (q + 1 : ℚ) ≤ mantissaBound := by exact_mod_cast h.digits_lt
  exact h.value_lt.trans_le hq

/-- Without a remainder the digits are the quotient. -/
theorem Develops.settles_exact (h : Develops x d q 0 s) : Settles x (some ⟨q, s, inexact⟩) := by
  have hexact : x = q / 10 ^ s.toNat := by
    have hvalue := h.value
    rw [Nat.cast_zero, zero_div, add_zero] at hvalue
    rw [← hvalue, mul_div_cancel_right₀ _ (by positivity)]
  refine ⟨_, rfl, h.digits_lt, h.nonneg, h.scale_le, ?_⟩
  rw [hexact, roundedMagnitude_eq_self (by have := h.scale_le; simp only [maxScale]; omega)
    h.digits_lt]

/-! ### Rounding on the remainder -/

theorem roundHalfEven_mul_add (hr : r < d) :
    roundHalfEven (q * d + r) d =
      if 2 * r > d ∨ (2 * r = d ∧ q % 2 = 1) then q + 1 else q := by
  have hdiv : (q * d + r) / d = q := by
    rw [Nat.add_comm, Nat.add_mul_div_right _ _ (by omega), Nat.div_eq_of_lt hr, Nat.zero_add]
  have hmod : (q * d + r) % d = r := by
    rw [Nat.add_comm, Nat.add_mul_mod_self_right, Nat.mod_eq_of_lt hr]
  simp only [roundHalfEven, hdiv, hmod]

/-- The digits are rounded on the remainder if there is room for no further one. -/
theorem Develops.settles_round (h : Develops x d q r s) (hr : r ≠ 0)
    (hfinest : s = 28 ∨ mantissaBound ≤ q * 10) : Settles x (roundQuotient d q r s) := by
  have hnonneg := h.nonneg
  have hscale := h.scale_le
  have hplaces : s.toNat ≤ maxScale := by
    simp only [maxScale]
    omega
  have hmagnitude : roundedMagnitude x =
      settled (roundHalfEven (q * d + r) d) / 10 ^ s.toNat := by
    rw [roundedMagnitude_eq hplaces h.value_lt_bound _ h.value_nonneg, h.value_eq_div,
      nearestEven_div h.divisor_pos]
    obtain rfl | hfull := hfinest
    · exact .inl rfl
    · right
      have hcast : (mantissaBound : ℚ) ≤ q * 10 := by exact_mod_cast hfull
      have hlow : (q : ℚ) ≤ x * 10 ^ s.toNat := by
        rw [h.value]
        exact le_add_of_nonneg_right (by positivity)
      rw [pow_succ, ← mul_assoc]
      linarith
  have hround := roundHalfEven_mul_add (q := q) h.remainder_lt
  have hle : roundHalfEven (q * d + r) d ≤ q + 1 := by
    rw [hround]
    split <;> omega
  simp only [roundQuotient, ← hround]
  by_cases hlt : roundHalfEven (q * d + r) d < mantissaBound
  · rw [if_pos hlt]
    exact ⟨_, rfl, hlt, hnonneg, hscale, by rw [hmagnitude, settled, if_pos hlt]⟩
  · -- Rounding up has reached the bound, so there is a digit after the point that can go.
    have hdigits := h.digits_lt
    have hbound : roundHalfEven (q * d + r) d = mantissaBound := by omega
    have hpositive : ¬s ≤ 0 := fun hzero => by
      have hleading := h.leading (le_antisymm hzero hnonneg)
      omega
    have hplace : s.toNat = (s - 1).toNat + 1 := by omega
    rw [if_neg hlt, if_neg hpositive, hbound]
    refine ⟨_, rfl, (by decide : mantissaBound / 10 + 1 < mantissaBound), by simp only; omega,
      by simp only; omega, ?_⟩
    have hshort : (mantissaBound / 10 + 1) * 10 = mantissaBound + 4 := by decide
    rw [hmagnitude, hbound, settled, if_neg (lt_irrefl _), ← hshort, hplace, pow_succ]
    push_cast
    field_simp

/-- The half that decides about the last digit, seen from the digit and the remainder below it. -/
theorem half_of_last_digit {t : ℕ} {odd : Prop} (hr : r < d) :
    (2 * (t * d + r) > 10 * d ∨ (2 * (t * d + r) = 10 * d ∧ odd)) ↔
      (t > 5 ∨ (t = 5 ∧ (r ≠ 0 ∨ odd))) := by
  obtain hlow | rfl | hhigh := lt_trichotomy t 5
  · have hle : t * d ≤ 4 * d := Nat.mul_le_mul_right d (by omega)
    constructor <;> intro h <;> omega
  · by_cases hzero : r = 0
    · simp only [hzero]
      constructor
      · rintro (h | ⟨-, h⟩)
        · omega
        · exact .inr ⟨trivial, .inr h⟩
      · rintro (h | ⟨-, h | h⟩)
        · omega
        · exact absurd rfl h
        · exact .inr ⟨by omega, h⟩
    · exact ⟨fun _ => .inr ⟨rfl, .inl hzero⟩, fun _ => .inl (by omega)⟩
  · have hle : 6 * d ≤ t * d := Nat.mul_le_mul_right d (by omega)
    exact ⟨fun _ => .inl hhigh, fun _ => .inl (by omega)⟩

/-- One digit too many is rounded away together with the remainder. -/
theorem settles_shorten (hs : 0 < s) (hscale : s ≤ 28) (hr : r < d)
    (hvalue : x * 10 ^ s.toNat = q + r / d) (hfull : mantissaBound ≤ q)
    (hq : q < mantissaBound + 10 ^ 9) : Settles x (shortenQuotient q r s inexact) := by
  have hd : 0 < d := Nat.zero_lt_of_lt hr
  have hplace : s.toNat = (s - 1).toNat + 1 := by omega
  have hpos : (0 : ℚ) < d := by exact_mod_cast hd
  have hx : 0 ≤ x := by
    apply nonneg_of_mul_nonneg_left (b := (10 : ℚ) ^ s.toNat) _ (by positivity)
    rw [hvalue]
    positivity
  have hvalue_eq : x * 10 ^ (s - 1).toNat =
      (q / 10 * (10 * d) + (q % 10 * d + r) : ℕ) / (10 * d : ℕ) := by
    have hsplit : ((10 * (q / 10) + q % 10 : ℕ) : ℚ) = q := by rw [Nat.div_add_mod]
    rw [hplace, pow_succ, ← mul_assoc, ← hsplit] at hvalue
    push_cast at hvalue ⊢
    field_simp at hvalue ⊢
    linarith
  have hrest : q % 10 * d + r < 10 * d := by
    have hle : q % 10 * d ≤ 9 * d := Nat.mul_le_mul_right d (by omega)
    omega
  have hround := roundHalfEven_mul_add (q := q / 10) hrest
  simp only [half_of_last_digit hr] at hround
  have hlarge : 10 ^ 9 < mantissaBound / 10 := by decide
  have hlt : roundHalfEven (q / 10 * (10 * d) + (q % 10 * d + r)) (10 * d) < mantissaBound := by
    rw [hround]
    split <;> omega
  have hbound : x * 10 ^ (s - 1).toNat < mantissaBound := by
    rw [hvalue_eq, div_lt_iff₀ (by positivity)]
    have hnat : q / 10 * (10 * d) + (q % 10 * d + r) < mantissaBound * (10 * d) := by
      calc q / 10 * (10 * d) + (q % 10 * d + r) < (q / 10 + 1) * (10 * d) := by
            rw [Nat.add_mul, Nat.one_mul]
            omega
        _ ≤ mantissaBound * (10 * d) := Nat.mul_le_mul_right _ (by omega)
    exact_mod_cast hnat
  have hfinest : (mantissaBound : ℚ) ≤ x * 10 ^ ((s - 1).toNat + 1) := by
    have hcast : (mantissaBound : ℚ) ≤ q := by exact_mod_cast hfull
    rw [← hplace, hvalue]
    exact hcast.trans (le_add_of_nonneg_right (by positivity))
  simp only [shortenQuotient, if_neg (not_le.2 hs), ← hround]
  refine ⟨_, rfl, hlt, by simp only; omega, by simp only; omega, ?_⟩
  rw [roundedMagnitude_eq (by simp only [maxScale]; omega) hbound (.inr hfinest) hx, hvalue_eq,
    nearestEven_div (by positivity), settled, if_pos hlt]

/-! ### Developing the digits -/

/-- A block of further digits keeps the digits a mantissa; a longer one would not. -/
theorem headroom_spec (hq : q < mantissaBound) (limit : ℕ) :
    q * 10 ^ headroom q limit < mantissaBound ∧
      (headroom q limit = limit ∨ mantissaBound ≤ q * 10 ^ (headroom q limit + 1)) := by
  induction limit with
  | zero =>
    rw [headroom, pow_zero, mul_one]
    exact ⟨hq, .inl rfl⟩
  | succ limit ih =>
    rw [headroom, Nat.pow_eq]
    split
    · rename_i hlt
      exact ⟨hlt, .inl rfl⟩
    · rename_i hge
      refine ⟨ih.1, .inr ?_⟩
      obtain hlimit | hfull := ih.2
      · rw [hlimit]
        exact not_lt.1 hge
      · exact hfull

/-- A block of digits is what the remainder gives. -/
theorem mul_pow_eq_block (hd : 0 < d) (q r places : ℕ) :
    (q + r / d : ℚ) * 10 ^ places = (q * 10 ^ places + r * 10 ^ places / d : ℕ) +
      (r * 10 ^ places % d : ℕ) / d := by
  have hpos : (0 : ℚ) < d := by exact_mod_cast hd
  have hsplit : (d * (r * 10 ^ places / d : ℕ) + (r * 10 ^ places % d : ℕ) : ℚ) =
      r * 10 ^ places := by exact_mod_cast Nat.div_add_mod (r * 10 ^ places) d
  push_cast
  field_simp
  linarith

theorem mul_div_add_mod (h : Develops x d q r s) (places : ℕ) :
    x * 10 ^ (s + places).toNat = (q * 10 ^ places + r * 10 ^ places / d : ℕ) +
      (r * 10 ^ places % d : ℕ) / d := by
  have hscale : (s + places).toNat = s.toNat + places := by
    have := h.nonneg
    omega
  rw [hscale, pow_add, ← mul_assoc, h.value, mul_pow_eq_block h.divisor_pos]

theorem block_lt (hr : r < d) (places : ℕ) : r * 10 ^ places / d < 10 ^ places := by
  rw [Nat.div_lt_iff_lt_mul (Nat.zero_lt_of_lt hr), Nat.mul_comm]
  exact Nat.mul_lt_mul_of_pos_left hr (by positivity)

/-- The development ends with the exact quotient or with the rounded one. -/
theorem developQuotient_spec (h : Develops x d q r s) :
    Settles x (developQuotient d q r s inexact) := by
  -- The scale grows to 28 at most, and digits and remainder keep the quotient.
  induction hn : (28 - s).toNat using Nat.strong_induction_on generalizing q r s inexact with
  | _ n ih =>
    subst hn
    have hnonneg := h.nonneg
    have hscale := h.scale_le
    rw [developQuotient]
    by_cases hr : r = 0
    · rw [if_pos ⟨hr, hnonneg⟩]
      subst hr
      exact h.settles_exact
    rw [if_neg (fun hexact => hr hexact.1)]
    have hblock : blockSize q r s = headroom q (Nat.min 9 (28 - s).toNat) := if_neg hr
    obtain ⟨hfits, hfull⟩ := headroom_spec h.digits_lt (Nat.min 9 (28 - s).toNat)
    have hle := headroom_le q (Nat.min 9 (28 - s).toNat)
    simp only [hblock, Nat.pow_eq]
    generalize headroom q (Nat.min 9 (28 - s).toNat) = places at hfits hfull hle
    have hnine : places ≤ 9 := hle.trans (Nat.min_le_left _ _)
    have hrest : places ≤ (28 - s).toNat := hle.trans (Nat.min_le_right _ _)
    rw [if_neg (by omega)]
    by_cases hzero : places = 0
    · rw [if_pos hzero]
      apply h.settles_round hr
      obtain hlimit | hfull := hfull
      · left
        have hmin : 9 = 0 ∨ (28 - s).toNat = 0 := Nat.min_eq_zero_iff.1 (hlimit.symm.trans hzero)
        omega
      · rw [hzero] at hfull
        exact .inr hfull
    rw [if_neg hzero, if_neg (not_le.2 hfits)]
    have hvalue := mul_div_add_mod h places
    have hmod : r * 10 ^ places % d < d := Nat.mod_lt _ h.divisor_pos
    by_cases hover : mantissaBound ≤ q * 10 ^ places + r * 10 ^ places / d
    · rw [if_pos hover]
      apply settles_shorten (by omega) (by omega) hmod hvalue hover
      have hpow : 10 ^ places ≤ 10 ^ 9 := Nat.pow_le_pow_right (by norm_num) hnine
      have hlt := block_lt h.remainder_lt places
      omega
    · rw [if_neg hover]
      exact ih _ (by omega) ⟨by omega, by omega, hmod, not_le.1 hover, by omega, hvalue⟩ rfl

/-! ### Digits before the point -/

/-- The quotient is rounded to the digits, or is too large. -/
def SettlesOrOverflows (x : ℚ) (result : Option Quotient) : Prop :=
  (x < decimalLimit ∧ Settles x result) ∨ decimalLimit ≤ x ∧ result = none

theorem le_value {k : ℕ} (hx : x = (q + r / d) * 10 ^ k) (h : mantissaBound ≤ q * 10 ^ k) :
    decimalLimit ≤ x := by
  have hcast : (mantissaBound : ℚ) ≤ q * 10 ^ k := by exact_mod_cast h
  have hle : (q : ℚ) * 10 ^ k ≤ x := by
    rw [hx]
    gcongr
    exact le_add_of_nonneg_right (by positivity)
  exact limit_lt_bound.le.trans (hcast.trans hle)

/-- A quotient with digits after the point is not too large. -/
theorem lt_limit_of_places {places : ℕ}
    (h : x * 10 ^ (places + 1) < mantissaBound + 10 ^ 9 + 1) : x < decimalLimit := by
  by_contra hge
  have hge : decimalLimit ≤ x := not_lt.1 hge
  have hpos := decimalLimit_pos
  have hten : (10 : ℚ) ≤ 10 ^ (places + 1) := le_self_pow₀ (by norm_num) (Nat.succ_ne_zero places)
  have hle : decimalLimit * 10 ≤ x * 10 ^ (places + 1) :=
    mul_le_mul hge hten (by norm_num) (hpos.le.trans hge)
  have hlarge : (mantissaBound : ℚ) + 10 ^ 9 + 1 < decimalLimit * 10 := by
    norm_num [decimalLimit, mantissaBound]
  linarith

/-- If a full mantissa stands before the point, the remainder decides whether it is too large. -/
theorem settles_or_overflows_full (hr : r < d) (hfull : q + 1 = mantissaBound)
    (hx : x = q + r / d) : SettlesOrOverflows x (roundQuotient d q r 0) := by
  have hd : 0 < d := Nat.zero_lt_of_lt hr
  have hpos : (0 : ℚ) < d := by exact_mod_cast hd
  have hq : (q : ℚ) + 1 = mantissaBound := by exact_mod_cast hfull
  have hvalue : x = (q * d + r : ℕ) / d := by
    rw [hx]
    push_cast
    field_simp
  have hnonneg : 0 ≤ x := by
    rw [hvalue]
    positivity
  have hfraction : (r / d : ℚ) < 1 := by
    rw [div_lt_one hpos]
    exact_mod_cast hr
  have hround : nearestEven x = if 2 * r > d ∨ (2 * r = d ∧ q % 2 = 1) then q + 1 else q := by
    rw [hvalue, nearestEven_div hd, roundHalfEven_mul_add hr]
  have hlimit := nearestEven_lt_bound_iff hnonneg
  simp only [roundQuotient, ← hround]
  split
  · rename_i hlt
    refine .inl ⟨hlimit.1 hlt, _, rfl, hlt, le_rfl, by norm_num, ?_⟩
    have hmagnitude : roundedMagnitude x = settled (nearestEven (x * 10 ^ 0)) / 10 ^ 0 := by
      have hlow : (q : ℚ) ≤ x := by
        rw [hx]
        exact le_add_of_nonneg_right (by positivity)
      have hlarge : (10 : ℚ) < mantissaBound := ten_lt_limit.trans limit_lt_bound
      refine roundedMagnitude_eq (Nat.zero_le _) ?_ (.inr ?_) hnonneg
      · rw [pow_zero]
        linarith
      · rw [zero_add, pow_one]
        linarith
    rw [hmagnitude, pow_zero, mul_one, settled, if_pos hlt]
    rfl
  · rename_i hge
    exact .inr ⟨not_lt.1 (mt hlimit.2 hge), if_pos le_rfl⟩

/-- A quotient whose digits end at the point. -/
theorem developQuotient_at_point (hr : r < d) (hq : q < mantissaBound) (hx : x = q + r / d) :
    SettlesOrOverflows x (developQuotient d q r 0 inexact) := by
  have hpos : (0 : ℚ) < d := by exact_mod_cast Nat.zero_lt_of_lt hr
  have hfraction : (r / d : ℚ) < 1 := by
    rw [div_lt_one hpos]
    exact_mod_cast hr
  by_cases hleading : r = 0 ∨ q + 1 < mantissaBound
  · have hdevelops : Develops x d q r 0 :=
      ⟨le_rfl, by norm_num, hr, hq, fun _ => hleading, by simpa using hx⟩
    refine .inl ⟨?_, developQuotient_spec hdevelops⟩
    obtain rfl | hlt := hleading
    · rw [hx, Nat.cast_zero, zero_div, add_zero]
      simpa using div_pow_lt_limit hq 0
    · have hlimit := div_pow_lt_limit hlt 0
      rw [pow_zero, div_one, Nat.cast_add, Nat.cast_one] at hlimit
      linarith
  · rw [not_or, not_lt] at hleading
    obtain ⟨hzero, hfull⟩ := hleading
    have hroom : headroom q (Nat.min 9 (28 - (0 : ℤ)).toNat) = 0 := by
      by_contra hsome
      have hfits := (headroom_spec hq (Nat.min 9 (28 - (0 : ℤ)).toNat)).1
      have hten : 10 ≤ 10 ^ headroom q (Nat.min 9 (28 - (0 : ℤ)).toNat) :=
        Nat.le_self_pow hsome 10
      have hle := Nat.mul_le_mul_left q hten
      simp only [mantissaBound] at hfull hfits
      omega
    have hblock : blockSize q r 0 = 0 := (if_neg hzero).trans hroom
    rw [developQuotient, if_neg (fun hexact => hzero hexact.1)]
    simp only [hblock]
    rw [if_neg (by omega), if_pos trivial]
    exact settles_or_overflows_full hr (by omega) hx

/-- A block of digits before the point leads to fewer places before it, or past it. -/
theorem settles_after_block {k places : ℕ} (hr : r < d) (hx : x = (q + r / d) * 10 ^ k)
    (hplaces : 0 < places) (hnine : places ≤ 9) (hfits : q * 10 ^ places < mantissaBound)
    (ih : ∀ k' < k, ∀ q' r', r' < d → q' < mantissaBound → x = (q' + r' / d) * 10 ^ k' →
      SettlesOrOverflows x (developQuotient d q' r' (-k') inexact)) :
    SettlesOrOverflows x
      (if mantissaBound ≤ q * 10 ^ places + r * 10 ^ places / d then
        shortenQuotient (q * 10 ^ places + r * 10 ^ places / d) (r * 10 ^ places % d)
          (-k + places) inexact
      else developQuotient d (q * 10 ^ places + r * 10 ^ places / d) (r * 10 ^ places % d)
        (-k + places) inexact) := by
  have hd : 0 < d := Nat.zero_lt_of_lt hr
  have hpos : (0 : ℚ) < d := by exact_mod_cast hd
  have hblock := mul_pow_eq_block hd q r places
  have hmod : r * 10 ^ places % d < d := Nat.mod_lt _ hd
  have hdigits : q * 10 ^ places + r * 10 ^ places / d < mantissaBound + 10 ^ 9 := by
    have hpow : 10 ^ places ≤ 10 ^ 9 := Nat.pow_le_pow_right (by norm_num) hnine
    have hlt := block_lt hr places
    omega
  generalize q * 10 ^ places + r * 10 ^ places / d = q' at *
  generalize r * 10 ^ places % d = r' at *
  by_cases hbefore : places ≤ k
  · -- No digit is after the point yet.
    have hscale : (-k + places : ℤ) = -(k - places : ℕ) := by omega
    have hx' : x = (q' + r' / d) * 10 ^ (k - places) := by
      rw [← hblock, mul_assoc, ← pow_add, Nat.add_sub_cancel' hbefore, hx]
    rw [hscale]
    split
    · rename_i hfull
      have hlarge : mantissaBound ≤ q' * 10 ^ (k - places) :=
        hfull.trans (Nat.le_mul_of_pos_right q' (by positivity))
      exact .inr ⟨le_value hx' hlarge, if_pos (by omega)⟩
    · rename_i hlt
      exact ih (k - places) (by omega) q' r' hmod (not_le.1 hlt) hx'
  · obtain ⟨after, rfl⟩ : ∃ after, places = k + (after + 1) := ⟨places - k - 1, by omega⟩
    have hscale : (-k + (k + (after + 1) : ℕ) : ℤ) = (after + 1 : ℕ) := by
      push_cast
      ring
    have hx' : x * 10 ^ (after + 1) = q' + r' / d := by
      rw [← hblock, hx, mul_assoc, ← pow_add]
    have hlimit : x < decimalLimit := by
      have hcast : (q' : ℚ) < mantissaBound + 10 ^ 9 := by exact_mod_cast hdigits
      have hfraction : (r' / d : ℚ) < 1 := by
        rw [div_lt_one hpos]
        exact_mod_cast hmod
      have hlt : x * 10 ^ (after + 1) < mantissaBound + 10 ^ 9 + 1 := by
        rw [hx']
        linarith
      exact lt_limit_of_places hlt
    rw [hscale]
    refine .inl ⟨hlimit, ?_⟩
    split
    · rename_i hfull
      exact settles_shorten (by omega) (by omega) hmod hx' hfull hdigits
    · rename_i hlt
      exact developQuotient_spec
        ⟨by omega, by omega, hmod, not_le.1 hlt, fun h => by omega, hx'⟩

/-- A quotient whose digits end before the point is developed up to the point and beyond it. -/
theorem developQuotient_before_point {k : ℕ} (hr : r < d) (hq : q < mantissaBound)
    (hx : x = (q + r / d) * 10 ^ k) :
    SettlesOrOverflows x (developQuotient d q r (-k) inexact) := by
  induction k using Nat.strong_induction_on generalizing q r inexact with
  | _ k ih =>
    obtain rfl | hk := Nat.eq_zero_or_pos k
    · rw [Nat.cast_zero, neg_zero]
      exact developQuotient_at_point hr hq (by simpa using hx)
    have ih' : ∀ flag k', k' < k → ∀ q' r', r' < d → q' < mantissaBound →
        x = (q' + r' / d) * 10 ^ k' →
          SettlesOrOverflows x (developQuotient d q' r' (-k') flag) :=
      fun flag k' hk' q' r' hr' hq' hx' => ih k' hk' hr' hq' hx'
    rw [developQuotient, if_neg (by omega)]
    by_cases hzero : r = 0
    · have hblock : blockSize q r (-k) = Nat.min 9 k := by
        rw [blockSize, if_pos hzero, neg_neg, Int.toNat_natCast]
      have hplaces : Nat.min 9 k ≠ 0 := fun h => by
        have hmin : 9 = 0 ∨ k = 0 := Nat.min_eq_zero_iff.1 h
        omega
      have hle : Nat.min 9 k ≤ k := Nat.min_le_right 9 k
      simp only [hblock, Nat.pow_eq]
      rw [if_neg (fun h => h.1 hzero), if_neg hplaces]
      split
      · rename_i hfull
        refine .inr ⟨le_value hx (hfull.trans ?_), rfl⟩
        exact Nat.mul_le_mul_left q (Nat.pow_le_pow_right (by norm_num) hle)
      · rename_i hfits
        exact settles_after_block hr hx (Nat.pos_of_ne_zero hplaces) (Nat.min_le_left 9 k)
          (not_le.1 hfits) (ih' _)
    · have hblock : blockSize q r (-k) = headroom q 9 := by
        have hmin : Nat.min 9 (28 - (-k : ℤ)).toNat = 9 := Nat.min_eq_left (by omega)
        rw [blockSize, if_neg hzero, hmin]
      obtain ⟨hfits, hfull⟩ := headroom_spec hq 9
      have hnine := headroom_le q 9
      simp only [hblock, Nat.pow_eq]
      generalize headroom q 9 = places at hfits hfull hnine
      split
      · rename_i hshort
        have hfull := hfull.resolve_left (by omega)
        refine .inr ⟨le_value hx (hfull.trans ?_), rfl⟩
        exact Nat.mul_le_mul_left q (Nat.pow_le_pow_right (by norm_num) (by omega))
      · rw [if_neg (by omega), if_neg (not_le.2 hfits)]
        exact settles_after_block hr hx (by omega) hnine hfits (ih' _)

/-! ### Zeros at the end -/

/-- The value of a mantissa at a scale. -/
def partsValue (parts : ℕ × ℕ) : ℚ := parts.1 / 10 ^ parts.2

theorem partsValue_drop {m k t : ℕ} (hk : k ≤ t) (hzeros : m % 10 ^ k = 0) :
    partsValue (m / 10 ^ k, t - k) = partsValue (m, t) := by
  have hsplit : (10 : ℚ) ^ t = 10 ^ (t - k) * 10 ^ k := by rw [← pow_add, Nat.sub_add_cancel hk]
  have hexact : (m : ℚ) = (m / 10 ^ k : ℕ) * 10 ^ k := by
    exact_mod_cast (Nat.div_mul_cancel (Nat.dvd_of_mod_eq_zero hzeros)).symm
  rw [partsValue, partsValue, hsplit]
  simp only
  rw [hexact]
  field_simp

theorem dropZeros_spec (k : ℕ) (parts : ℕ × ℕ) :
    (dropZeros k parts).1 ≤ parts.1 ∧ (dropZeros k parts).2 ≤ parts.2 ∧
      partsValue (dropZeros k parts) = partsValue parts := by
  obtain ⟨m, t⟩ := parts
  simp only [dropZeros, Nat.pow_eq]
  split
  · rename_i hzeros
    exact ⟨Nat.div_le_self _ _, Nat.sub_le _ _, partsValue_drop hzeros.1 hzeros.2⟩
  · exact ⟨le_rfl, le_rfl, rfl⟩

theorem dropZeroBlocks_spec (m t : ℕ) :
    (dropZeroBlocks m t).1 ≤ m ∧ (dropZeroBlocks m t).2 ≤ t ∧
      partsValue (dropZeroBlocks m t) = partsValue (m, t) := by
  induction t using Nat.strong_induction_on generalizing m with
  | _ t ih =>
    rw [dropZeroBlocks]
    split
    · rename_i hzeros
      obtain ⟨hm, ht, hvalue⟩ := ih (t - 8) (by omega) (m / Nat.pow 10 8)
      exact ⟨hm.trans (Nat.div_le_self _ _), ht.trans (Nat.sub_le _ _),
        hvalue.trans (partsValue_drop hzeros.1 hzeros.2.2)⟩
    · exact ⟨le_rfl, le_rfl, rfl⟩

/-- Trimming drops zeros only. -/
theorem trimQuotient_spec (m t : ℕ) :
    (trimQuotient m t).1 ≤ m ∧ (trimQuotient m t).2 ≤ t ∧
      partsValue (trimQuotient m t) = partsValue (m, t) := by
  obtain ⟨hm, ht, hvalue⟩ := dropZeroBlocks_spec m t
  obtain ⟨hm₄, ht₄, hvalue₄⟩ := dropZeros_spec 4 (dropZeroBlocks m t)
  obtain ⟨hm₂, ht₂, hvalue₂⟩ := dropZeros_spec 2 (dropZeros 4 (dropZeroBlocks m t))
  obtain ⟨hm₁, ht₁, hvalue₁⟩ := dropZeros_spec 1 (dropZeros 2 (dropZeros 4 (dropZeroBlocks m t)))
  rw [trimQuotient]
  refine ⟨?_, ?_, ?_⟩
  · exact hm₁.trans (hm₂.trans (hm₄.trans hm))
  · exact ht₁.trans (ht₂.trans (ht₄.trans ht))
  · rw [hvalue₁, hvalue₂, hvalue₄, hvalue]

theorem signed_div (negative negative' : Bool) (x y : ℚ) :
    signed (negative != negative') (x / y) = signed negative x / signed negative' y := by
  cases negative <;> cases negative' <;> simp [signed, neg_div, div_neg]

/-- A mantissa over a whole number starts its development. -/
theorem develops_div {m t d : ℕ} (hm : m < mantissaBound) (ht : t ≤ maxScale) (hd : 0 < d) :
    Develops (m / 10 ^ t / d) d (m / d) (m % d) t := by
  have hpos : (0 : ℚ) < d := by exact_mod_cast hd
  refine ⟨Int.natCast_nonneg t, by exact_mod_cast ht, Nat.mod_lt m hd,
    (Nat.div_le_self m d).trans_lt hm, fun hzero => ?_, ?_⟩
  · by_cases hr : m % d = 0
    · exact .inl hr
    · have htwo : 2 ≤ d := by
        by_contra hone
        have hd : d = 1 := by omega
        rw [hd, Nat.mod_one] at hr
        exact hr rfl
      have hhalf : m / d ≤ m / 2 := Nat.div_le_div_left htwo two_pos
      simp only [mantissaBound] at hm ⊢
      omega
  · have hsplit : (d * (m / d : ℕ) + (m % d : ℕ) : ℚ) = m := by
      exact_mod_cast Nat.div_add_mod m d
    rw [Int.toNat_natCast, ← hsplit]
    field_simp

/-- The quotient of two mantissas is settled from their scales. -/
theorem settles_quotient (a b : Decimal) (hb : 0 < b.mantissa) :
    SettlesOrOverflows (a.mantissa / 10 ^ a.scale / (b.mantissa / 10 ^ b.scale))
      (developQuotient b.mantissa (a.mantissa / b.mantissa) (a.mantissa % b.mantissa)
        (a.scale - b.scale) false) := by
  have hpos : (0 : ℚ) < b.mantissa := by exact_mod_cast hb
  by_cases hle : b.scale ≤ a.scale
  · have hscale : (a.scale - b.scale : ℤ) = (a.scale - b.scale : ℕ) := by omega
    have hplaces : a.scale - b.scale ≤ maxScale := (Nat.sub_le _ _).trans a.scale_le
    have hsplit : (10 : ℚ) ^ a.scale = 10 ^ (a.scale - b.scale) * 10 ^ b.scale := by
      rw [← pow_add, Nat.sub_add_cancel hle]
    have hvalue : (a.mantissa / 10 ^ a.scale / (b.mantissa / 10 ^ b.scale) : ℚ) =
        a.mantissa / 10 ^ (a.scale - b.scale) / b.mantissa := by
      rw [hsplit]
      field_simp
    have hstart := develops_div a.mantissa_lt hplaces hb
    rw [hscale, hvalue]
    refine .inl ⟨?_, developQuotient_spec hstart⟩
    have hone : (1 : ℚ) ≤ b.mantissa := by exact_mod_cast hb
    exact (div_le_self (by positivity) hone).trans_lt (div_pow_lt_limit a.mantissa_lt _)
  · have hscale : (a.scale - b.scale : ℤ) = -(b.scale - a.scale : ℕ) := by omega
    have hsplit : (10 : ℚ) ^ b.scale = 10 ^ (b.scale - a.scale) * 10 ^ a.scale := by
      rw [← pow_add, Nat.sub_add_cancel (not_le.1 hle).le]
    have hdigits : (b.mantissa * (a.mantissa / b.mantissa : ℕ) + (a.mantissa % b.mantissa : ℕ) : ℚ) =
        a.mantissa := by exact_mod_cast Nat.div_add_mod a.mantissa b.mantissa
    rw [hscale]
    apply developQuotient_before_point (Nat.mod_lt _ hb)
    · exact (Nat.div_le_self _ _).trans_lt a.mantissa_lt
    · rw [hsplit, ← hdigits]
      field_simp

/-- Quotients are rounded as other results are, and are missing if they are too large. -/
theorem div?_spec {a b : Decimal} (hb : b.mantissa ≠ 0) :
    IsRounding (a.toRat / b.toRat) (a.div? b) := by
  have hbzero : ¬b.isZero = true := by simpa [isZero] using hb
  rw [div?, if_neg hbzero]
  by_cases ha : a.isZero = true
  · rw [if_pos ha, toRat_of_isZero ha, zero_div, ← toRat_zero]
    exact isRounding_toRat _
  have hexact : a.toRat / b.toRat = signed (a.negative != b.negative)
      (a.mantissa / 10 ^ a.scale / (b.mantissa / 10 ^ b.scale)) := by
    rw [signed_div, toRat_eq_signed, toRat_eq_signed]
  rw [if_neg ha, hexact]
  obtain ⟨hlt, quotient, hquotient, hdigits, hnonneg, hle, hvalue⟩ | ⟨hge, hquotient⟩ :=
    settles_quotient a b (Nat.pos_of_ne_zero hb)
  · refine isRounding_of_magnitude (by positivity) hlt ?_
    have hplaces : quotient.scale.toNat ≤ maxScale := by
      simp only [maxScale]
      omega
    simp only [hquotient, Option.bind_some, ← hvalue]
    split
    · obtain ⟨hm, ht, htrim⟩ := trimQuotient_spec quotient.digits quotient.scale.toNat
      obtain ⟨c, hc, hcvalue⟩ := exists_ofUnits? (a.negative != b.negative)
        (hm.trans_lt hdigits) (ht.trans hplaces)
      exact ⟨c, hc, hcvalue.trans (congrArg _ htrim)⟩
    · exact exists_ofUnits? _ hdigits hplaces
  · rw [IsRounding, abs_signed _ (by positivity)]
    simp only [hquotient]
    exact .inr ⟨hge, rfl⟩

/-- No quotient by a whole number is too large. -/
theorem exists_div?_whole {a b : Decimal} (hscale : b.scale = 0) (hb : b.mantissa ≠ 0) :
    ∃ c, a.div? b = some c ∧ c.toRat = rounded (a.toRat / b.toRat) := by
  apply exists_of_isRounding (div?_spec hb)
  have hone : (1 : ℚ) ≤ |b.toRat| := by
    rw [toRat_eq_signed, abs_signed _ (by positivity), hscale, pow_zero, div_one]
    exact_mod_cast Nat.pos_of_ne_zero hb
  rw [abs_div]
  exact (div_le_self (abs_nonneg _) hone).trans_lt (abs_toRat_lt a)

end MarkovFit.Proofs
