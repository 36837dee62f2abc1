import MarkovFit.Decimal.Power
import MarkovFit.Proofs.DecimalValue

/-!
# Powers of natural numbers

Natural numbers are decimals of scale zero, and on them products and powers are exact or
fail.
-/

namespace MarkovFit.Proofs

open Decimal

/-- The decimal is this natural number, written without a fraction. -/
structure IsNat (a : Decimal) (n : Nat) : Prop where
  negative : a.negative = false
  mantissa : a.mantissa = n
  scale : a.scale = 0

/-- The wide number is this natural number, written without a fraction. -/
structure IsWideNat (a : Wide) (n : Nat) : Prop where
  negative : a.negative = false
  mantissa : a.mantissa = n
  scale : a.scale = 0

lemma IsNat.toRat {a : Decimal} {n : Nat} (h : IsNat a n) : a.toRat = n := by
  rw [toRat_eq_div, h.scale, signedMantissa, h.negative, h.mantissa]
  simp

theorem roundHalfEven_mul_self (q : Nat) {d : Nat} (hd : 0 < d) : roundHalfEven (q * d) d = q := by
  simp [roundHalfEven, Nat.mul_div_cancel q hd]
  omega

theorem ofParts?_eq_some {negative : Bool} {m s : Nat} {a : Decimal}
    (h : ofParts? negative m s = some a) :
    a.negative = negative ∧ a.mantissa = m ∧ a.scale = s := by
  unfold ofParts? at h
  split at h
  · split at h
    · cases h
      exact ⟨rfl, rfl, rfl⟩
    · cases h
  · cases h

theorem exists_ofNat? {n : ℕ} (hn : n < mantissaBound) : ∃ c, ofNat? n = some c ∧ IsNat c n := by
  have hc : ofNat? n = some ⟨false, n, 0, hn, Nat.zero_le _⟩ :=
    (dif_pos hn).trans (dif_pos (Nat.zero_le _))
  exact ⟨_, hc, rfl, rfl, rfl⟩

theorem toRat_of_ofParts? {negative : Bool} {m s : Nat} {a : Decimal}
    (h : ofParts? negative m s = some a) :
    a.toRat = (if negative then -(m : ℚ) else m) / 10 ^ s := by
  obtain ⟨hn, hm, hs⟩ := ofParts?_eq_some h
  rw [toRat_eq_div, signedMantissa, hn, hm, hs]
  split <;> simp

/-- Clearing the sign of a zero does not change the value. -/
theorem toRat_of_ofUnits? {negative : Bool} {m s : Nat} {a : Decimal}
    (h : ofUnits? negative m s = some a) :
    a.toRat = (if negative then -(m : ℚ) else m) / 10 ^ s := by
  rw [toRat_of_ofParts? h]
  by_cases hm : m = 0
  · simp [hm]
  · simp [hm]

/-! ## Natural numbers -/

theorem fit_nat {n m s : Nat} (h : fit n 0 = some (m, s)) : m = n ∧ s = 0 := by
  have hround : roundHalfEven n 1 = n := by simpa using roundHalfEven_mul_self n Nat.one_pos
  simp only [fit, Nat.zero_sub, Nat.zero_add] at h
  split at h
  · cases h
  · rename_i hk
    have hk : excessDigits (n / Nat.pow 10 0) = 0 := by omega
    simp only [hk, Nat.pow_eq, Nat.pow_zero, hround] at h
    split at h
    · cases h
      exact ⟨rfl, rfl⟩
    · simp at h

theorem mul?_nat {a b c : Decimal} {m n : Nat} (ha : IsNat a m) (hb : IsNat b n)
    (h : a.mul? b = some c) : IsNat c (m * n) := by
  simp only [mul?, isZero, ha.negative, ha.mantissa, ha.scale, hb.negative, hb.mantissa,
    hb.scale] at h
  split at h
  · rename_i hzero
    cases h
    have hmn : m * n = 0 := by simpa using hzero
    exact ⟨rfl, hmn.symm, rfl⟩
  · split at h
    · rw [if_neg (by decide), if_neg (by decide)] at h
      obtain ⟨hn, hm, hs⟩ := ofParts?_eq_some h
      exact ⟨by simpa using hn, hm, hs⟩
    · obtain ⟨⟨p, s⟩, hfit, hparts⟩ := Option.bind_eq_some_iff.1 h
      obtain ⟨rfl, rfl⟩ := fit_nat hfit
      obtain ⟨hn, hm, hs⟩ := ofParts?_eq_some hparts
      exact ⟨by simpa using hn, hm, hs⟩

theorem rescale_nat {n top maxScale m s : Nat} (h : Wide.rescale n 0 top maxScale = some (m, s)) :
    m = n ∧ s = 0 := by
  simp only [Wide.rescale, Nat.not_lt_zero, gt_iff_lt, if_false] at h
  split at h
  · cases h
    exact ⟨rfl, rfl⟩
  · split at h
    · cases h
      exact ⟨rfl, rfl⟩
    · split at h
      · cases h
      · -- without surplus digits there is nothing to shrink by
        rename_i hexact hsurplus
        have hk : Wide.surplusDigits n top = 0 := by omega
        rw [hk] at h hexact
        rw [Wide.shrink, if_neg hexact] at h
        simp at h

theorem wide_mul?_nat {a b c : Wide} {m n : Nat} (ha : IsWideNat a m) (hb : IsWideNat b n)
    (h : a.mul? b = some c) : IsWideNat c (m * n) := by
  simp only [Wide.mul?, Wide.isZero, ha.negative, ha.mantissa, ha.scale, hb.negative, hb.mantissa,
    hb.scale] at h
  split at h
  · rename_i hzero
    cases h
    have hmn : m * n = 0 := by simpa using hzero
    exact ⟨rfl, hmn.symm, rfl⟩
  · split at h
    · rw [Wide.dropPlaces, if_neg (by decide)] at h
      cases h
      exact ⟨rfl, rfl, rfl⟩
    · obtain ⟨⟨p, s⟩, hrescale, hc⟩ := Option.map_eq_some_iff.1 h
      obtain ⟨rfl, rfl⟩ := rescale_nat hrescale
      subst hc
      exact ⟨rfl, rfl, rfl⟩

theorem toDecimal?_nat {a : Wide} {d : Decimal} {n : Nat} (ha : IsWideNat a n)
    (h : a.toDecimal? = some d) : IsNat d n := by
  simp only [Wide.toDecimal?, ha.negative, ha.mantissa, ha.scale] at h
  split at h
  · obtain ⟨hn, hm, hs⟩ := ofParts?_eq_some h
    exact ⟨by simpa using hn, hm, hs⟩
  · obtain ⟨⟨p, s⟩, hrescale, hparts⟩ := Option.bind_eq_some_iff.1 h
    obtain ⟨rfl, rfl⟩ := rescale_nat hrescale
    obtain ⟨hn, hm, hs⟩ := ofParts?_eq_some hparts
    exact ⟨by simpa using hn, hm, hs⟩

/-- One bit of the exponent: a factor if it is set, then the square and the other bits. -/
theorem squaring_step {α : Type} (mul : α → α → Option α) {e : Nat} (he : e ≠ 0) (acc w : α) :
    squaring mul e acc w = (if e % 2 = 1 then mul acc w else some acc).bind fun acc =>
      if e / 2 = 0 then some acc else (mul w w).bind fun w => squaring mul (e / 2) acc w := by
  rw [squaring, if_neg he]
  by_cases hbit : e % 2 = 1 <;> simp only [hbit, if_true, if_false] <;> rfl

/-- Repeated squaring computes powers wherever single products are exact. -/
theorem squaring_pow {α : Type} {mul : α → α → Option α} {Is : α → Nat → Prop}
    (hmul : ∀ {x y z : α} {m n : Nat}, Is x m → Is y n → mul x y = some z → Is z (m * n))
    (e : Nat) {acc w r : α} {m n : Nat} (hacc : Is acc m) (hw : Is w n)
    (h : squaring mul e acc w = some r) : Is r (m * n ^ e) := by
  induction e using Nat.strong_induction_on generalizing acc w m n with
  | _ e ih =>
    by_cases he : e = 0
    · rw [squaring, if_pos he] at h
      cases h
      simpa [he] using hacc
    · rw [squaring_step mul he] at h
      obtain ⟨acc', hacc', h⟩ := Option.bind_eq_some_iff.1 h
      have hbit : Is acc' (m * n ^ (e % 2)) := by
        split at hacc'
        · rename_i hodd
          simpa [hodd] using hmul hacc hw hacc'
        · rename_i hodd
          cases hacc'
          have heven : e % 2 = 0 := by omega
          simpa [heven] using hacc
      split at h
      · cases h
        have hlast : e % 2 = e := by omega
        rwa [hlast] at hbit
      · obtain ⟨w', hw', h⟩ := Option.bind_eq_some_iff.1 h
        have hrest := ih (e / 2) (by omega) hbit (hmul hw hw hw') h
        have hsplit : m * n ^ e = m * n ^ (e % 2) * (n * n) ^ (e / 2) := by
          rw [mul_assoc, ← pow_two, ← pow_mul, ← pow_add, Nat.mod_add_div]
        rwa [hsplit]

theorem normalize_nat {a : Decimal} {n : Nat} (ha : IsNat a n) : IsNat a.normalize n := by
  unfold Decimal.normalize
  split
  · rename_i hzero
    have hn : n = 0 := by simpa [isZero, ha.mantissa] using hzero
    exact ⟨rfl, hn.symm, rfl⟩
  · exact ⟨ha.negative, by simp [ha.scale, ha.mantissa, stripZeros], by simp [ha.scale, stripZeros]⟩

/-- Powers of natural numbers are exact or leave the range. -/
theorem powNat?_nat {a r : Decimal} {n e : Nat} (ha : IsNat a n) (h : a.powNat? e = some r) :
    IsNat r (n ^ e) := by
  unfold powNat? at h
  split at h
  · rename_i he
    cases h
    subst he
    exact ⟨rfl, rfl, rfl⟩
  · rename_i he
    split at h
    · rename_i hzero
      cases h
      have hn : n = 0 := by simpa [isZero, ha.mantissa] using hzero
      exact ⟨rfl, by simp [hn, he, Decimal.zero], rfl⟩
    · split at h
      · rename_i hone
        cases h
        have hn : n = 1 := by
          rw [sameValue_iff_toRat_eq, ha.toRat, toRat_one] at hone
          exact_mod_cast hone
        exact ⟨rfl, by simp [hn, Decimal.one], rfl⟩
      · split at h
        · rename_i he1
          cases h
          simpa [he1] using ha
        · split at h
          · rename_i he2
            simpa [he2, pow_two] using mul?_nat ha ha h
          · split at h
            · obtain ⟨p, hp, rfl⟩ := Option.map_eq_some_iff.1 h
              have hpow := squaring_pow mul?_nat e ⟨rfl, rfl, rfl⟩ ha hp
              exact normalize_nat (by simpa [Decimal.one] using hpow)
            · obtain ⟨p, hp, rfl⟩ := Option.map_eq_some_iff.1 h
              obtain ⟨w, hw, hp⟩ := Option.bind_eq_some_iff.1 hp
              have hwide : IsWideNat (Wide.ofDecimal a) n := ⟨ha.negative, ha.mantissa, ha.scale⟩
              have hpow := squaring_pow wide_mul?_nat e ⟨rfl, rfl, rfl⟩ hwide hw
              exact normalize_nat (toDecimal?_nat (by simpa [Wide.one] using hpow) hp)

/-- The factor of a scaling is the power of ten itself. -/
theorem powNat?_ten {k : Nat} {f : Decimal} (h : ten.powNat? k = some f) : IsNat f (10 ^ k) :=
  powNat?_nat ⟨rfl, rfl, rfl⟩ h

/-! ## Excess digits -/

theorem div_pow_excessDigits_lt (m : Nat) : m / 10 ^ excessDigits m < mantissaBound := by
  induction m using Nat.strong_induction_on with
  | _ m ih =>
    rw [excessDigits]
    split
    · rename_i hm
      simpa using hm
    · rename_i hm
      have hlt : m / 10 < m := Nat.div_lt_self (by simp only [mantissaBound] at hm; omega) (by decide)
      have := ih (m / 10) hlt
      rwa [Nat.div_div_eq_div_mul, ← pow_succ'] at this

end MarkovFit.Proofs
