import MarkovFit.Decimal.Binary
import MarkovFit.Proofs.DecimalValue
import MarkovFit.Proofs.DoubleBits

/-!
# Doubles of decimals

The double of a decimal is always a number, so that any two of them are comparable. Whole decimals of
at most 53 bits are ordered as their doubles.
-/

namespace MarkovFit.Proofs

/-- The powers of ten that occur as scales are positive doubles, rounded or multiplied up. -/
theorem isRegular_powersOfTen : ∀ places : Fin 29,
    IsRegular (datum (Double.ofNat (Nat.pow 10 places.val))) ∧
      IsRegular (datum (Decimal.floatPowerOfTen places)) := by
  decide +kernel

theorem signed_toFloat (a : Decimal) : ∃ s, Signed s a.toFloat := by
  have hnat : ∀ n, Signed .positive (Double.ofNat n) := fun n => signed_nearest false n 1
  simp only [Decimal.toFloat]
  by_cases hscale : a.scale = 0
  · rw [if_pos hscale]
    split
    · exact ⟨_, (hnat _).neg⟩
    · exact ⟨_, hnat _⟩
  · rw [if_neg hscale]
    obtain ⟨hpower, hproduct⟩ := isRegular_powersOfTen ⟨a.scale, Nat.lt_succ_of_le a.scale_le⟩
    obtain ⟨s, hx⟩ : ∃ s, Signed s (if a.mantissa % Nat.pow 10 a.scale = 0 then
        Double.ofNat (a.mantissa / Nat.pow 10 a.scale)
      else Double.roundToInteger ((Double.ofNat (a.mantissa / Nat.pow 10 a.scale) +
        Double.ofNat (a.mantissa % Nat.pow 10 a.scale) / Double.ofNat (Nat.pow 10 a.scale)) *
          Decimal.floatPowerOfTen a.scale) / Decimal.floatPowerOfTen a.scale) := by
      split
      · exact ⟨_, hnat _⟩
      · have hfraction := (hnat (a.mantissa % Nat.pow 10 a.scale)).div hpower
        have hscaled := ((hnat (a.mantissa / Nat.pow 10 a.scale)).add hfraction).mul hproduct
        obtain ⟨s, hrounded⟩ := signed_roundToInteger hscaled
        exact ⟨_, hrounded.div hproduct⟩
    split
    · exact ⟨_, hx.neg⟩
    · exact ⟨_, hx⟩

/-! ### Whole decimals -/

/-- The decimal is whole and its mantissa fits into a double. -/
structure IsSmallWhole (a : Decimal) : Prop where
  whole : a.scale = 0
  small : a.mantissa < 2 ^ 53

variable {a b : Decimal}

theorem toFloat_of_isSmallWhole (ha : IsSmallWhole a) :
    a.toFloat =
      Double.ofMagnitudeBits (a.negative && !a.isZero) (naturalBits a.mantissa) := by
  simp only [Decimal.toFloat, if_pos ha.whole]
  by_cases hnegative : (a.negative && !a.isZero) = true
  · rw [if_pos hnegative, hnegative, neg_ofNat ha.small]
  · rw [if_neg hnegative, Bool.eq_false_of_not_eq_true hnegative, ofNat_eq ha.small]

theorem apply_naturalBits_lt_iff (ha : IsSmallWhole a) (hb : IsSmallWhole b) :
    (signOf (a.negative && !a.isZero)).apply (naturalBits a.mantissa) <
        (signOf (b.negative && !b.isZero)).apply (naturalBits b.mantissa) ↔
      a.signedMantissa < b.signedMantissa := by
  have hlt := naturalBits_lt_iff ha.small hb.small
  have hgt := naturalBits_lt_iff hb.small ha.small
  have hapos := naturalBits_lt_iff (Nat.two_pow_pos 53) ha.small
  have hbpos := naturalBits_lt_iff (Nat.two_pow_pos 53) hb.small
  have hzero : naturalBits 0 = 0 := rfl
  simp only [signOf, Float.Model.UnpackedFloat.Sign.apply, Decimal.signedMantissa, Decimal.isZero]
  cases a.negative <;> cases b.negative <;> by_cases ha0 : a.mantissa = 0 <;>
    by_cases hb0 : b.mantissa = 0 <;> simp [ha0, hb0, hzero] at * <;> omega

theorem toFloat_lt_iff (ha : IsSmallWhole a) (hb : IsSmallWhole b) :
    a.toFloat < b.toFloat ↔ a.toRat < b.toRat := by
  obtain ⟨_, hsigned⟩ := signed_toFloat a
  obtain ⟨_, hsigned'⟩ := signed_toFloat b
  have hvalue : a.toRat < b.toRat ↔ a.signedMantissa < b.signedMantissa := by
    rw [toRat_eq_div, toRat_eq_div, ha.whole, hb.whole, pow_zero, div_one, div_one, Int.cast_lt]
  rw [hsigned.lt_iff hsigned', hvalue, toFloat_of_isSmallWhole ha, toFloat_of_isSmallWhole hb,
    datum_ofMagnitudeBits (naturalBits_le ha.small), datum_ofMagnitudeBits (naturalBits_le hb.small),
    rank_ofMagnitude_lt_iff (naturalBits_le ha.small) (naturalBits_le hb.small),
    apply_naturalBits_lt_iff ha hb]

end MarkovFit.Proofs
