import MarkovFit.Decimal.Power
import MarkovFit.Decimal.Root
import MarkovFit.Proofs.DecimalForms
import MarkovFit.Proofs.DecimalQuotient
import MarkovFit.Proofs.DecimalScaling

/-!
# Arithmetic on equal values

Operations on decimals of one value have results of one value, whatever zeros stand at the ends of the
operands. Sums, products and quotients are rounded from the exact result, and with them roots and short
powers. Logarithms of one value are even the same decimal, since the first product with Euler's number
fixes the form.
-/

namespace MarkovFit.Proofs

open Decimal

variable {a a' b b' c c' : Decimal} {x : ℚ} {r r' : Option Decimal}

theorem sameValue_congr (ha : a.SameValue a') (hb : b.SameValue b') :
    a.SameValue b ↔ a'.SameValue b' := by
  rw [sameValue_iff_toRat_eq, sameValue_iff_toRat_eq, SameValue.toRat_eq ha, SameValue.toRat_eq hb]

/-- Both results are missing, or they have one value. -/
abbrev SameResult (r r' : Option Decimal) : Prop := Option.Rel SameValue r r'

theorem sameResult_refl (r : Option Decimal) : SameResult r r := by
  cases r with
  | none => exact .none
  | some a => exact .some (sameValue_refl a)

/-- The exact result decides whether there is a result, and its value. -/
theorem sameResult_of_isRounding (h : IsRounding x r) (h' : IsRounding x r') : SameResult r r' := by
  obtain ⟨hx, c, rfl, hc⟩ | ⟨hx, rfl⟩ := h
  · obtain ⟨c', rfl, hc'⟩ := exists_of_isRounding h' hx
    exact .some (sameValue_of_toRat_eq (hc.trans hc'.symm))
  · obtain ⟨hx', -⟩ | ⟨-, rfl⟩ := h'
    · exact absurd hx (not_le.2 hx')
    · exact .none

theorem SameResult.bind {α : Type} {R : α → α → Prop} {f f' : Decimal → Option α}
    (h : SameResult r r') (hf : ∀ a a', a.SameValue a' → Option.Rel R (f a) (f' a')) :
    Option.Rel R (r.bind f) (r'.bind f') := by
  cases h with
  | none => exact .none
  | some h => exact hf _ _ h

/-! ### Sums, products and quotients -/

theorem sameResult_add (ha : a.SameValue a') (hb : b.SameValue b') :
    SameResult (a.add? b) (a'.add? b') := by
  refine sameResult_of_isRounding (add?_spec a b) ?_
  rw [SameValue.toRat_eq ha, SameValue.toRat_eq hb]
  exact add?_spec a' b'

theorem sameResult_sub (ha : a.SameValue a') (hb : b.SameValue b') :
    SameResult (a.sub? b) (a'.sub? b') := by
  refine sameResult_of_isRounding (sub?_spec a b) ?_
  rw [SameValue.toRat_eq ha, SameValue.toRat_eq hb]
  exact sub?_spec a' b'

theorem sameResult_mul (ha : a.SameValue a') (hb : b.SameValue b') :
    SameResult (a.mul? b) (a'.mul? b') := by
  refine sameResult_of_isRounding (mul?_spec a b) ?_
  rw [SameValue.toRat_eq ha, SameValue.toRat_eq hb]
  exact mul?_spec a' b'

theorem isZero_eq_of_sameValue (h : a.SameValue a') : a.isZero = a'.isZero := by
  rw [Bool.eq_iff_iff, isZero_iff, isZero_iff, SameValue.toRat_eq h]

theorem sameResult_div (ha : a.SameValue a') (hb : b.SameValue b') :
    SameResult (a.div? b) (a'.div? b') := by
  have hzero := isZero_eq_of_sameValue hb
  by_cases hb₀ : b.isZero = true
  · rw [div?, div?, if_pos hb₀, if_pos (hzero ▸ hb₀)]
    exact .none
  · have hmantissa : ∀ {b : Decimal}, ¬b.isZero = true → b.mantissa ≠ 0 := by
      intro b h
      simpa [isZero] using h
    refine sameResult_of_isRounding (div?_spec (hmantissa hb₀)) ?_
    rw [SameValue.toRat_eq ha, SameValue.toRat_eq hb]
    exact div?_spec (hmantissa (hzero ▸ hb₀))

/-! ### Roots -/

/-- Both computations fail, or their results have one value. -/
def SameOutcome {ε : Type} : Except ε Decimal → Except ε Decimal → Prop
  | .ok v, .ok v' => v.SameValue v'
  | .error _, .error _ => True
  | _, _ => False

theorem sameResult_rootStep (ha : a.SameValue a') (hb : b.SameValue b') :
    SameResult (rootStep? a b) (rootStep? a' b') :=
  (sameResult_div ha hb).bind fun _ _ hq =>
    (sameResult_add hb hq).bind fun _ _ hsum => sameResult_div hsum (sameValue_refl two)

theorem sameOutcome_iterateRoot (ha : a.SameValue a') (steps : ℕ) (hb : b.SameValue b') :
    SameOutcome (iterateRoot a steps b) (iterateRoot a' steps b') := by
  induction steps generalizing b b' with
  | zero => trivial
  | succ steps ih =>
    have hstep := sameResult_rootStep ha hb
    rw [iterateRoot, iterateRoot]
    generalize rootStep? a b = r at hstep
    generalize rootStep? a' b' = r' at hstep
    cases hstep with
    | none => trivial
    | @some y y' hy =>
      simp only [sameValue_congr hy hb]
      split
      · exact hy
      · exact ih hy

theorem sameOutcome_sqrt (ha : a.SameValue a') (hsign : a.negative = a'.negative) :
    SameOutcome a.sqrt a'.sqrt := by
  have hhalf := sameResult_div ha (sameValue_refl two)
  simp only [sqrt, hsign, isZero_eq_of_sameValue ha]
  split
  · trivial
  split
  · exact sameValue_refl zero
  generalize a.div? two = r at hhalf
  generalize a'.div? two = r' at hhalf
  cases hhalf with
  | none => trivial
  | some hhalf =>
    simp only [isZero_eq_of_sameValue hhalf]
    apply sameOutcome_iterateRoot ha
    split
    · exact ha
    · exact hhalf

/-! ### Whole powers -/

theorem sameResult_squaring (e : ℕ) (ha : a.SameValue a') (hb : b.SameValue b') :
    SameResult (squaring mul? e a b) (squaring mul? e a' b') := by
  induction e using Nat.strong_induction_on generalizing a a' b b' with
  | _ e ih =>
    by_cases he : e = 0
    · rw [squaring, squaring, if_pos he, if_pos he]
      exact .some ha
    · rw [squaring_step _ he, squaring_step _ he]
      have hacc : SameResult (if e % 2 = 1 then a.mul? b else some a)
          (if e % 2 = 1 then a'.mul? b' else some a') := by
        split
        · exact sameResult_mul ha hb
        · exact .some ha
      refine hacc.bind fun acc acc' hacc => ?_
      split
      · exact .some hacc
      · exact (sameResult_mul hb hb).bind fun w w' hw =>
          ih (e / 2) (Nat.div_lt_self (Nat.pos_of_ne_zero he) Nat.one_lt_two) hacc hw

/-- A power is fixed by the value of its base, except that long ones see the digits of the base. -/
theorem sameResult_powNat {e : ℕ} (ha : a.SameValue a')
    (hwide : 1024 ≤ e → a.toRat = 0 ∨ a.toRat = 1 ∨ a = a') :
    SameResult (a.powNat? e) (a'.powNat? e) := by
  simp only [powNat?, sameValue_congr ha (sameValue_refl one), isZero_eq_of_sameValue ha]
  split
  · exact sameResult_refl _
  split
  · exact sameResult_refl _
  split
  · exact sameResult_refl _
  split
  · exact .some ha
  split
  · exact sameResult_mul ha ha
  split
  · have hpower := sameResult_squaring e (sameValue_refl one) ha
    generalize squaring mul? e one a = r at hpower
    generalize squaring mul? e one a' = r' at hpower
    cases hpower with
    | none => exact .none
    | some hpower =>
      exact .some (sameValue_of_toRat_eq (congrArg toRat (normalize_eq_of_sameValue hpower)))
  · -- Only bases other than zero and one get here, and they have to be the same decimal.
    rename_i hzero hnotOne _ _ hlong
    obtain hvalue | hvalue | rfl := hwide (not_lt.1 hlong)
    · rw [SameValue.toRat_eq ha, ← isZero_iff] at hvalue
      exact absurd hvalue hzero
    · rw [SameValue.toRat_eq ha, ← toRat_one] at hvalue
      exact absurd (sameValue_of_toRat_eq hvalue) hnotOne
    · exact sameResult_refl _

theorem sameResult_powInt {e : ℤ} (ha : a.SameValue a')
    (hwide : 1024 ≤ |e| → a.toRat = 0 ∨ a.toRat = 1 ∨ a = a') :
    SameResult (a.powInt? e) (a'.powInt? e) := by
  rw [powInt?, powInt?]
  split
  · rename_i he
    apply sameResult_powNat ha
    intro hlong
    apply hwide
    rw [abs_of_nonneg he]
    omega
  · rename_i he
    have hpower : SameResult (a.powNat? (-e).toNat) (a'.powNat? (-e).toNat) := by
      apply sameResult_powNat ha
      intro hlong
      apply hwide
      rw [abs_of_neg (not_le.1 he)]
      omega
    exact hpower.bind fun _ _ hp => sameResult_div (sameValue_refl one) hp

/-! ### Logarithms -/

theorem roundHalfEven_mul_mul (n : ℕ) {d k : ℕ} (hd : 0 < d) (hk : 0 < k) :
    roundHalfEven (n * k) (d * k) = roundHalfEven n d := by
  have hpos : (0 : ℚ) < k := by exact_mod_cast hk
  rw [← nearestEven_div hd, ← nearestEven_div (Nat.mul_pos hd hk)]
  push_cast
  rw [mul_div_mul_right _ _ hpos.ne']

/-- Zeros beyond the finest scale are dropped without a trace. -/
theorem fit_extends {m s : ℕ} (hs : maxScale ≤ s) (k : ℕ) : fit (m * 10 ^ k) (s + k) = fit m s := by
  have hsurplus : s + k - maxScale = s - maxScale + k := by omega
  have hdropped : m * 10 ^ k / 10 ^ (s - maxScale + k) = m / 10 ^ (s - maxScale) := by
    rw [pow_add, Nat.mul_div_mul_right _ _ (by positivity)]
  simp only [fit, Nat.pow_eq, hsurplus, hdropped]
  generalize excessDigits (m / 10 ^ (s - maxScale)) = excess
  have hdigits : s - maxScale + k + excess = s - maxScale + excess + k := by omega
  have hplaces : s + k - (s - maxScale + excess + k) = s - (s - maxScale + excess) := by omega
  have hfits : s + k < s - maxScale + excess + k ↔ s < s - maxScale + excess := by omega
  rw [hdigits, hplaces, pow_add _ _ k, roundHalfEven_mul_mul m (by positivity) (by positivity)]
  simp only [hfits]

theorem mul?_of_extends {k : ℕ} (h : Extends a a' k) (hscale : b.scale = maxScale)
    (hlong : 2 ^ 32 ≤ b.mantissa) : a'.mul? b = a.mul? b := by
  have hzero : a'.isZero = a.isZero := by simp [isZero, h.mantissa]
  have hproduct : a.mantissa * 10 ^ k * b.mantissa = a.mantissa * b.mantissa * 10 ^ k := by ring
  have hplaces : a.scale + k + b.scale = a.scale + b.scale + k := by omega
  have hnotShort : ∀ m : ℕ, ¬(m < Nat.pow 2 32 ∧ b.mantissa < Nat.pow 2 32) :=
    fun m hm => absurd hm.2 (not_lt.2 hlong)
  simp only [mul?, hzero, h.negative, h.mantissa, h.scale, if_neg (hnotShort _), hproduct, hplaces]
  rw [fit_extends (by omega)]

/-- A factor with a mantissa of all digits fixes the form of the product. -/
theorem mul?_eq_of_sameValue (h : a.SameValue a') (hscale : b.scale = maxScale)
    (hlong : 2 ^ 32 ≤ b.mantissa) : a.mul? b = a'.mul? b := by
  have hzero := isZero_eq_of_sameValue h
  by_cases ha : a.isZero = true
  · rw [mul?, mul?, ← hzero, ha]
    rfl
  · have ha := Bool.eq_false_of_not_eq_true ha
    obtain hle | hle := Nat.le_total a.scale a'.scale
    · exact (mul?_of_extends (extends_of_le h ha hle) hscale hlong).symm
    · exact mul?_of_extends (extends_of_le (sameValue_symm h) (hzero ▸ ha) hle) hscale hlong

/-- Counted factors agree, and what is left has one value. -/
abbrev SameCounted (r r' : Option (Decimal × ℤ)) : Prop :=
  Option.Rel (fun p p' => p.1.SameValue p'.1 ∧ p.2 = p'.2) r r'

theorem lt_iff_of_sameValue (ha : a.SameValue a') (b : Decimal) : a < b ↔ a' < b := by
  rw [lt_iff_toRat_lt, lt_iff_toRat_lt, SameValue.toRat_eq ha]

theorem le_iff_of_sameValue (ha : a.SameValue a') (b : Decimal) : b ≤ a ↔ b ≤ a' := by
  rw [le_iff_toRat_le, le_iff_toRat_le, SameValue.toRat_eq ha]

theorem sameCounted_raiseToOne (steps : ℕ) (ha : a.SameValue a') (k : ℤ) :
    SameCounted (raiseToOne steps a k) (raiseToOne steps a' k) := by
  induction steps generalizing a a' k with
  | zero => exact .some ⟨ha, rfl⟩
  | succ steps ih =>
    simp only [raiseToOne, lt_iff_of_sameValue ha]
    split
    · exact (sameResult_mul ha (sameValue_refl ten)).bind fun _ _ h => ih h _
    · exact .some ⟨ha, rfl⟩

theorem sameCounted_lowerToTen (steps : ℕ) (ha : a.SameValue a') (k : ℤ) :
    SameCounted (lowerToTen steps a k) (lowerToTen steps a' k) := by
  induction steps generalizing a a' k with
  | zero => exact .some ⟨ha, rfl⟩
  | succ steps ih =>
    simp only [lowerToTen, le_iff_of_sameValue ha]
    split
    · exact (sameResult_div ha (sameValue_refl ten)).bind fun _ _ h => ih h _
    · exact .some ⟨ha, rfl⟩

theorem one_le_of_raiseToOne {steps : ℕ} {k j : ℤ} (h : raiseToOne steps a k = some (b, j))
    (ha : 1 ≤ a.toRat * 10 ^ steps) : 1 ≤ b.toRat := by
  induction steps generalizing a k with
  | zero =>
    cases h
    simpa using ha
  | succ steps ih =>
    rw [raiseToOne] at h
    split at h
    · obtain ⟨c, hc, h⟩ := Option.bind_eq_some_iff.1 h
      apply ih h
      have hten : IsNat ten (10 ^ 1) := ⟨rfl, rfl, rfl⟩
      rw [mul?_pow_ten hten hc]
      calc (1 : ℚ) ≤ a.toRat * 10 ^ (steps + 1) := ha
        _ = 10 ^ 1 * a.toRat * 10 ^ steps := by ring
    · rename_i hge
      cases h
      rw [lt_iff_toRat_lt, toRat_one, not_lt] at hge
      exact hge

theorem toRat_ten : ten.toRat = 10 := by
  have hten : IsNat ten 10 := ⟨rfl, rfl, rfl⟩
  simpa using hten.toRat

theorem one_le_of_lowerToTen {steps : ℕ} {k j : ℤ} (h : lowerToTen steps a k = some (b, j))
    (ha : 1 ≤ a.toRat) : 1 ≤ b.toRat := by
  induction steps generalizing a k with
  | zero =>
    cases h
    exact ha
  | succ steps ih =>
    rw [lowerToTen] at h
    split at h
    · rename_i hten
      obtain ⟨c, hc, h⟩ := Option.bind_eq_some_iff.1 h
      apply ih h
      rw [le_iff_toRat_le, toRat_ten] at hten
      have hquotient := div?_spec (a := a) (b := ten) (by decide)
      rw [hc, toRat_ten] at hquotient
      obtain ⟨hlimit, hvalue⟩ := of_isRounding_some hquotient
      rw [hvalue, ← toRat_one]
      apply le_rounded
      · rw [toRat_one, le_div_iff₀ (by norm_num)]
        linarith
      · exact (abs_lt.1 hlimit).2
    · cases h
      exact ha

theorem lowerBelowOne_eq (ha : a.SameValue a') (hone : 1 ≤ a.toRat) (steps : ℕ) (c : ℤ) :
    lowerBelowOne (steps + 1) a c = lowerBelowOne (steps + 1) a' c := by
  have hle : one ≤ a := by rwa [le_iff_toRat_le, toRat_one]
  rw [lowerBelowOne, lowerBelowOne, if_pos hle, if_pos ((le_iff_of_sameValue ha one).1 hle),
    mul?_eq_of_sameValue ha rfl (by decide)]

/-- Positive decimals of one value have the same logarithm. -/
theorem ln?_eq_of_sameValue (ha : a.SameValue a') (hpos : 0 < a.toRat) : a.ln? = a'.ln? := by
  simp only [ln?, sameValue_congr ha (sameValue_refl one)]
  split
  · rfl
  -- Both pass the loops with equal counts, until a product with Euler's inverse makes them one decimal.
  have hraised := sameCounted_raiseToOne 29 ha 0
  generalize hr : raiseToOne 29 a 0 = r at hraised
  generalize raiseToOne 29 a' 0 = r' at hraised
  cases hraised with
  | none => rfl
  | @some p p' hp =>
    obtain ⟨x, k⟩ := p
    obtain ⟨x', k'⟩ := p'
    obtain ⟨hx, rfl⟩ : x.SameValue x' ∧ k = k' := hp
    have hstart : 1 ≤ a.toRat * 10 ^ 29 := by
      have hunit := one_le_mul_pow hpos
      rw [pow_succ]
      linarith
    have hone := one_le_of_raiseToOne hr hstart
    have hlowered := sameCounted_lowerToTen 29 hx k
    change (lowerToTen 29 x k).bind _ = (lowerToTen 29 x' k).bind _
    generalize hr : lowerToTen 29 x k = r at hlowered
    generalize lowerToTen 29 x' k = r' at hlowered
    cases hlowered with
    | none => rfl
    | @some p p' hp =>
      obtain ⟨y, j⟩ := p
      obtain ⟨y', j'⟩ := p'
      obtain ⟨hy, rfl⟩ : y.SameValue y' ∧ j = j' := hp
      simp only [Option.bind_some, sameValue_congr hy (sameValue_refl one),
        lowerBelowOne_eq hy (one_le_of_lowerToTen hr hone) 3 0]

theorem abs_congr (ha : a.SameValue a') : a.abs.SameValue a'.abs := by
  apply sameValue_of_toRat_eq
  rw [toRat_abs, toRat_abs, SameValue.toRat_eq ha]

/-- Fractional powers are the same decimal, for bases and exponents of one value. -/
theorem sameResult_powFraction (ha : a.SameValue a') (hb : b.SameValue b') :
    SameResult (a.powFraction? b) (a'.powFraction? b') := by
  simp only [powFraction?, isZero_eq_of_sameValue ha, sameValue_congr ha (sameValue_refl one)]
  split
  · exact sameResult_refl _
  rename_i hzero
  split
  · exact sameResult_refl _
  have hpos : 0 < a.abs.toRat := by
    rw [isZero_iff, ← SameValue.toRat_eq ha] at hzero
    rw [toRat_abs]
    exact abs_pos.2 hzero
  rw [ln?_eq_of_sameValue (abs_congr ha) hpos, normalize_eq_of_sameValue hb]
  exact sameResult_refl _

end MarkovFit.Proofs
