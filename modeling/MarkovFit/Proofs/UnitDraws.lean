import MarkovFit.Proofs.DecimalScaling
import MarkovFit.Proofs.DoubleBits
import MarkovFit.Sampling.Uniform

/-!
# Unit draws

A word of a source is turned into a double below one, and that into a decimal of about sixteen
digits. Turning binary digits into decimal ones only loses bits, but the digits left are rounded up,
so that the decimal may reach one. It never exceeds it.
-/

namespace MarkovFit.Proofs

open Decimal

variable {m n places count : ℕ}

/-- The double of a draw is not rounded. -/
theorem parts_nearest_unit (hpos : n ≠ 0) (hn : n < 2 ^ 52) :
    Double.parts (Double.nearest false n (2 ^ 52)) =
      .finite false (n * 2 ^ (52 - n.log2)) (-(104 - n.log2 : ℕ)) := by
  have hlog : n.log2 < 52 := (Nat.log2_lt hpos).2 hn
  obtain ⟨hlow, hhigh⟩ := aligned_bounds hpos (by omega)
  rw [nearest_div_pow hpos (by omega) (by omega),
    parts_ofMagnitudeBits (by rw [infinityBits]; omega), if_neg (by omega)]
  congr 1
  · rw [← aligned]
    omega
  · omega

/-! ### Decimal digits for binary ones -/

/-- A lost bit makes the number smaller. -/
theorem halvingsToTenths_spec (count : ℕ) {places : ℕ} (hcount : count ≤ places)
    (h : m * 5 ^ count ≤ 10 ^ places) :
    ∃ m' places' : ℕ, halvingsToTenths count m (-places) = (m', -(places' : ℤ)) ∧
      m' ≤ 10 ^ places' := by
  -- A step halves the number and drops a place, or multiplies by five, which the bound allows for.
  induction count generalizing m places with
  | zero => exact ⟨m, places, rfl, by simpa using h⟩
  | succ count ih =>
    obtain ⟨rest, rfl⟩ : ∃ rest, places = rest + 1 := ⟨places - 1, by omega⟩
    have hhalf : ∃ m' places' : ℕ,
        halvingsToTenths count (m / 2) (-(rest + 1 : ℕ) + 1) = (m', -(places' : ℤ)) ∧
          m' ≤ 10 ^ places' := by
      have hstep : -((rest + 1 : ℕ) : ℤ) + 1 = -(rest : ℤ) := by omega
      rw [hstep]
      apply ih (by omega)
      refine Nat.le_of_mul_le_mul_right ?_ (by norm_num : 0 < 10)
      calc m / 2 * 5 ^ count * 10 = m / 2 * 2 * 5 ^ (count + 1) := by ring
        _ ≤ m * 5 ^ (count + 1) := Nat.mul_le_mul_right _ (Nat.div_mul_le_self m 2)
        _ ≤ 10 ^ rest * 10 := by rwa [← pow_succ]
    rw [halvingsToTenths]
    split
    · exact hhalf
    · split
      · apply ih (by omega)
        rwa [mul_assoc, ← pow_succ']
      · exact hhalf

theorem rounded_tenth_le (h : m ≤ 10 ^ (places + 1)) :
    (if 5 ≤ m % 10 then m / 10 + 1 else m / 10) ≤ 10 ^ places := by
  rw [pow_succ] at h
  split <;> omega

theorem dropDigits_le (hcount : count ≤ places) (h : m ≤ 10 ^ places) :
    (dropDigits count m places).1 ≤ 10 ^ (dropDigits count m places).2 := by
  induction count generalizing m places with
  | zero => exact h
  | succ count ih =>
    obtain ⟨rest, rfl⟩ : ∃ rest, places = rest + 1 := ⟨places - 1, by omega⟩
    rw [dropDigits]
    by_cases hzero : m / 10 = 0
    · rw [if_pos hzero]
      exact Nat.zero_le _
    · rw [if_neg hzero]
      exact ih (by omega) (rounded_tenth_le h)

theorem dropToDouble_le (h : m ≤ 10 ^ places) :
    (dropToDouble m places).1 ≤ 10 ^ (dropToDouble m places).2 := by
  induction places generalizing m with
  | zero => exact h
  | succ places ih =>
    rw [dropToDouble]
    split
    · exact ih (rounded_tenth_le h)
    · exact h

theorem stripZeros_le (h : m ≤ 10 ^ places) :
    (stripZeros m places).1 ≤ 10 ^ (stripZeros m places).2 := by
  induction places generalizing m with
  | zero => exact h
  | succ places ih =>
    rw [stripZeros]
    split
    · apply ih
      rw [pow_succ] at h
      omega
    · exact h

/-! ### Fractions -/

/-- The decimal that is drawn with a word. -/
def fraction (w : UInt64) : Decimal :=
  (ofFloat? (Double.nearest false (w >>> 12).toNat (Nat.pow 2 52))).getD Decimal.zero

/-- A decimal that is positive and at most one. -/
theorem toRat_bounds {c : Decimal} (hsign : c.negative = false) (h : c.mantissa ≤ 10 ^ c.scale) :
    0 ≤ c.toRat ∧ c.toRat ≤ 1 := by
  have hcast : (c.mantissa : ℚ) ≤ 10 ^ c.scale := by exact_mod_cast h
  rw [toRat_eq_div, signedMantissa, hsign]
  simp only [Bool.false_eq_true, if_false, Int.cast_natCast]
  exact ⟨by positivity, div_le_one_of_le₀ hcast (by positivity)⟩

theorem ofFloat?_bounds {x : Float} {c : Decimal}
    (hparts : Double.parts x = .finite false m (-(places : ℤ))) (hm : m ≤ 2 ^ places)
    (h : ofFloat? x = some c) : 0 ≤ c.toRat ∧ c.toRat ≤ 1 := by
  simp only [ofFloat?, hparts] at h
  split at h
  · obtain ⟨hsign, hmantissa, hscale⟩ := ofParts?_eq_some h
    exact toRat_bounds hsign (by rw [hmantissa]; exact Nat.zero_le _)
  · have htenths : m * 5 ^ places ≤ 10 ^ places := by
      calc m * 5 ^ places ≤ 2 ^ places * 5 ^ places := Nat.mul_le_mul_right _ hm
        _ = 10 ^ places := by rw [← Nat.mul_pow]
    obtain ⟨m', places', hhalvings, hm'⟩ := halvingsToTenths_spec places le_rfl htenths
    have hnonpos : ¬0 < -(places' : ℤ) := by omega
    have hstart : -(places : ℤ) ≤ 0 := by omega
    simp only [if_pos hstart, neg_neg, Int.toNat_natCast, hhalvings, Option.bind_eq_bind,
      Option.bind_some, if_neg hnonpos] at h
    obtain ⟨hsign, hmantissa, hscale⟩ := ofParts?_eq_some h
    apply toRat_bounds hsign
    rw [hmantissa, hscale]
    exact stripZeros_le (dropToDouble_le (dropDigits_le (Nat.sub_le _ _) hm'))

theorem fraction_bounds (w : UInt64) : 0 ≤ (fraction w).toRat ∧ (fraction w).toRat ≤ 1 := by
  have hn : (w >>> 12).toNat < 2 ^ 52 := by
    rw [UInt64.toNat_shiftRight, Nat.shiftRight_eq_div_pow]
    have hw := w.toNat_lt
    exact Nat.div_lt_of_lt_mul hw
  rw [fraction]
  cases hdecimal : ofFloat? (Double.nearest false (w >>> 12).toNat (Nat.pow 2 52)) with
  | none => rw [Option.getD_none, toRat_zero]; exact ⟨le_rfl, zero_le_one⟩
  | some c =>
    rw [Option.getD_some]
    by_cases hpos : (w >>> 12).toNat = 0
    · have hzero : Double.parts (Double.nearest false 0 (Nat.pow 2 52)) =
          .finite false 0 (-(1074 : ℕ)) := by rfl
      rw [hpos] at hdecimal
      exact ofFloat?_bounds hzero (Nat.zero_le _) hdecimal
    · apply ofFloat?_bounds (parts_nearest_unit hpos hn) _ hdecimal
      have hlog : (w >>> 12).toNat.log2 < 52 := (Nat.log2_lt hpos).2 hn
      calc (w >>> 12).toNat * 2 ^ (52 - (w >>> 12).toNat.log2)
          ≤ 2 ^ 52 * 2 ^ (52 - (w >>> 12).toNat.log2) := Nat.mul_le_mul_right _ hn.le
        _ = 2 ^ (104 - (w >>> 12).toNat.log2) := by
          rw [← Nat.pow_add]
          congr 1
          omega

/-- The greatest draw is rounded up to one. -/
theorem toRat_fraction_max : (fraction (UInt64.ofNat (2 ^ 64 - 1))).toRat = 1 := by
  have hone : fraction (UInt64.ofNat (2 ^ 64 - 1)) = Decimal.one := by decide +kernel
  rw [hone, toRat_one]

end MarkovFit.Proofs
