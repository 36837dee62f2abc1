import MarkovFit.Proofs.DecimalRounding
import MarkovFit.Proofs.DecimalText

/-!
# Forms of one value

Decimals of one value differ in the zeros at the end of the fraction, and in the sign if they are zero.
Sign and wholeness of a decimal are read off its value, the least integer above it is, and the form
without zeros at the end is the same for all of them.
-/

namespace MarkovFit.Proofs

open Decimal

variable {a a' : Decimal}

/-- The decimal without a sign that has these digits, or zero if they are out of range. -/
def unsigned (mantissa scale : ℕ) : Decimal := (ofParts? false mantissa scale).getD zero

theorem SameValue.toRat_eq (h : a.SameValue a') : a.toRat = a'.toRat :=
  (sameValue_iff_toRat_eq a a').1 h

theorem sameValue_of_toRat_eq (h : a.toRat = a'.toRat) : a.SameValue a' :=
  (sameValue_iff_toRat_eq a a').2 h

theorem sameValue_refl (a : Decimal) : a.SameValue a := sameValue_of_toRat_eq rfl

theorem sameValue_symm (h : a.SameValue a') : a'.SameValue a :=
  sameValue_of_toRat_eq (SameValue.toRat_eq h).symm

/-! ### Signs and whole numbers -/

theorem mantissa_eq_abs (a : Decimal) : (a.mantissa : ℚ) = |a.toRat| * 10 ^ a.scale := by
  rw [toRat_eq_signed, abs_signed _ (by positivity), div_mul_cancel₀ _ (by positivity)]

/-- A positive decimal is no less than the finest unit. -/
theorem one_le_mul_pow (ha : 0 < a.toRat) : 1 ≤ a.toRat * 10 ^ 28 := by
  have hmantissa : a.mantissa ≠ 0 := fun h => ha.ne' ((toRat_eq_zero_iff a).2 h)
  have hone : (1 : ℚ) ≤ a.mantissa := by exact_mod_cast Nat.pos_of_ne_zero hmantissa
  have hscale : (10 : ℚ) ^ a.scale ≤ 10 ^ 28 := pow_le_pow_right₀ (by norm_num) a.scale_le
  rw [mantissa_eq_abs, abs_of_pos ha] at hone
  exact hone.trans (mul_le_mul_of_nonneg_left hscale ha.le)

theorem isZero_iff : a.isZero = true ↔ a.toRat = 0 := by
  rw [isZero, beq_iff_eq, toRat_eq_zero_iff]

theorem nonneg_of_not_negative (h : ¬a.negative = true) : 0 ≤ a.toRat := by
  rw [toRat_eq_signed, Bool.eq_false_of_not_eq_true h]
  exact div_nonneg (Nat.cast_nonneg _) (by positivity)

theorem negative_of_toRat_neg (h : a.toRat < 0) : a.negative = true := by
  by_contra hsign
  exact not_le.2 h (nonneg_of_not_negative hsign)

theorem nonpos_of_negative (h : a.negative = true) : a.toRat ≤ 0 := by
  rw [toRat_eq_signed, h]
  exact neg_nonpos.2 (div_nonneg (Nat.cast_nonneg _) (by positivity))

theorem toRat_of_isInteger (h : a.isInteger = true) : a.toRat = a.trunc.signedMantissa := by
  have hzeros : a.mantissa % 10 ^ a.scale = 0 := beq_iff_eq.1 h
  have hdigits : (a.mantissa : ℚ) = (a.mantissa / 10 ^ a.scale : ℕ) * 10 ^ a.scale := by
    exact_mod_cast (Nat.div_mul_cancel (Nat.dvd_of_mod_eq_zero hzeros)).symm
  rw [toRat_eq_signed, hdigits, mul_div_cancel_right₀ _ (by positivity), signedMantissa, trunc]
  simp only [Nat.pow_eq, signed]
  generalize a.mantissa / 10 ^ a.scale = n
  cases a.negative <;> simp

/-- A decimal without a fractional part is an integer, and no other one is. -/
theorem isInteger_iff : a.isInteger = true ↔ ∃ n : ℤ, a.toRat = n := by
  refine ⟨fun h => ⟨_, toRat_of_isInteger h⟩, ?_⟩
  rintro ⟨n, hn⟩
  have hmantissa := mantissa_eq_abs a
  rw [hn, ← Int.cast_abs, ← Nat.cast_natAbs] at hmantissa
  have hdigits : a.mantissa = n.natAbs * 10 ^ a.scale := by exact_mod_cast hmantissa
  rw [isInteger, beq_iff_eq, hdigits]
  exact Nat.mul_mod_left _ _

/-- An integer that fits is read as it is. -/
theorem toRat_of_toInt64? {n : ℤ} (h : a.isInteger = true) (hn : a.toInt64? = some n) :
    a.toRat = n := by
  rw [toInt64?] at hn
  split at hn
  · cases hn
    exact toRat_of_isInteger h
  · cases hn

/-- The whole part of the magnitude. -/
theorem wholePart_bounds (a : Decimal) :
    ((a.mantissa / 10 ^ a.scale : ℕ) : ℚ) ≤ a.mantissa / 10 ^ a.scale ∧
      (a.mantissa / 10 ^ a.scale : ℚ) < (a.mantissa / 10 ^ a.scale : ℕ) + 1 := by
  have hpos : (0 : ℚ) < 10 ^ a.scale := by positivity
  rw [le_div_iff₀ hpos, div_lt_iff₀ hpos]
  constructor
  · exact_mod_cast Nat.div_mul_le_self a.mantissa (10 ^ a.scale)
  · have hlt := Nat.lt_mul_of_div_lt (Nat.lt_succ_self (a.mantissa / 10 ^ a.scale)) (by positivity)
    exact_mod_cast hlt

theorem toRat_trunc (a : Decimal) :
    a.trunc.toRat = signed a.negative (a.mantissa / 10 ^ a.scale : ℕ) := by
  rw [toRat_eq_signed, trunc, pow_zero, div_one]
  rfl

/-- The least integer that is not below a decimal. -/
theorem toRat_ceil (a : Decimal) : a.ceil.toRat = ⌈a.toRat⌉ := by
  obtain ⟨hlow, hhigh⟩ := wholePart_bounds a
  rw [ceil]
  split
  · rename_i hscale
    have hwhole : a.isInteger = true := by simp [isInteger, hscale, Nat.mod_one]
    obtain ⟨n, hn⟩ := isInteger_iff.1 hwhole
    rw [hn, Int.ceil_intCast]
  by_cases hwhole : a.isInteger = true
  · have htrunc : a.trunc.toRat = a.trunc.signedMantissa := by
      rw [toRat_eq_div, trunc, pow_zero, div_one]
    rw [if_pos (by simp [hwhole]), htrunc, toRat_of_isInteger hwhole, Int.ceil_intCast]
  cases hsign : a.negative with
  | true =>
    have hceil : ⌈a.toRat⌉ = -((a.mantissa / 10 ^ a.scale : ℕ) : ℤ) := by
      rw [Int.ceil_eq_iff, toRat_eq_signed, hsign, signed, if_pos rfl, Int.cast_neg, Int.cast_natCast]
      constructor <;> linarith
    rw [if_pos (by simp), toRat_trunc, hsign, hceil, signed, if_pos rfl]
    push_cast
    rfl
  | false =>
    have hvalue : a.toRat = a.mantissa / 10 ^ a.scale := by
      rw [toRat_eq_signed, hsign]
      rfl
    have hfraction : ((a.mantissa / 10 ^ a.scale : ℕ) : ℚ) < a.toRat := by
      refine lt_of_le_of_ne (hvalue ▸ hlow) fun heq => hwhole (isInteger_iff.2 ?_)
      exact ⟨(a.mantissa / 10 ^ a.scale : ℕ), by rw [← heq, Int.cast_natCast]⟩
    have hceil : ⌈a.toRat⌉ = ((a.mantissa / 10 ^ a.scale + 1 : ℕ) : ℤ) := by
      rw [Int.ceil_eq_iff, Int.cast_natCast, Nat.cast_add, Nat.cast_one, hvalue]
      rw [hvalue] at hfraction
      constructor <;> linarith
    rw [if_neg (by simp [hwhole]), hceil, toRat_eq_signed, pow_zero, div_one]
    rfl

/-! ### Zeros at the end -/

/-- A decimal with zeros put behind the fraction. -/
structure Extends (a a' : Decimal) (k : ℕ) : Prop where
  negative : a'.negative = a.negative
  mantissa : a'.mantissa = a.mantissa * 10 ^ k
  scale : a'.scale = a.scale + k

theorem negative_iff (hzero : a.isZero = false) : a.negative = true ↔ a.toRat < 0 := by
  have hvalue : a.toRat ≠ 0 := fun h => by
    rw [isZero_iff.2 h] at hzero
    cases hzero
  exact ⟨fun h => lt_of_le_of_ne (nonpos_of_negative h) hvalue, negative_of_toRat_neg⟩

/-- Of two decimals of one value that is not zero, the one with the longer fraction has more zeros. -/
theorem extends_of_le (h : a.SameValue a') (hzero : a.isZero = false) (hle : a.scale ≤ a'.scale) :
    Extends a a' (a'.scale - a.scale) := by
  rw [sameValue_iff_toRat_eq] at h
  have hzero' : a'.isZero = false := by
    rw [← Bool.not_eq_true, isZero_iff, ← h, ← isZero_iff, hzero]
    exact Bool.false_ne_true
  have hsplit : (10 : ℚ) ^ a'.scale = 10 ^ (a'.scale - a.scale) * 10 ^ a.scale := by
    rw [← pow_add, Nat.sub_add_cancel hle]
  have hmantissa : (a'.mantissa : ℚ) = a.mantissa * 10 ^ (a'.scale - a.scale) := by
    rw [mantissa_eq_abs, mantissa_eq_abs a, h, hsplit]
    ring
  refine ⟨?_, by exact_mod_cast hmantissa, by omega⟩
  rw [Bool.eq_iff_iff, negative_iff hzero', negative_iff hzero, h]

theorem stripZeros_extends (m s k : ℕ) : stripZeros (m * 10 ^ k) (s + k) = stripZeros m s := by
  induction k with
  | zero => simp
  | succ k ih =>
    rw [← Nat.add_assoc, stripZeros, pow_succ, ← mul_assoc, Nat.mul_mod_left, if_pos rfl,
      Nat.mul_div_cancel _ (by norm_num), ih]

theorem normalize_extends {k : ℕ} (h : Extends a a' k) : a'.normalize = a.normalize := by
  have hzero : a'.isZero = a.isZero := by
    simp [isZero, h.mantissa]
  simp only [Decimal.normalize, hzero, h.negative, h.mantissa, h.scale, stripZeros_extends]

/-- Decimals of one value have one form without zeros at the end. -/
theorem normalize_eq_of_sameValue (h : a.SameValue a') : a.normalize = a'.normalize := by
  have hvalue := SameValue.toRat_eq h
  cases hzero : a.isZero with
  | true =>
    have hzero' : a'.isZero = true := by rw [isZero_iff, ← hvalue, ← isZero_iff, hzero]
    rw [Decimal.normalize, Decimal.normalize, if_pos hzero, if_pos hzero']
  | false =>
    obtain hle | hle := Nat.le_total a.scale a'.scale
    · exact (normalize_extends (extends_of_le h hzero hle)).symm
    · have hzero' : a'.isZero = false := by
        rw [← Bool.not_eq_true, isZero_iff, ← hvalue, ← isZero_iff, hzero]
        exact Bool.false_ne_true
      exact normalize_extends (extends_of_le (sameValue_symm h) hzero' hle)

end MarkovFit.Proofs
