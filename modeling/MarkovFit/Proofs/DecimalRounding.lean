import MarkovFit.Decimal.Arithmetic
import MarkovFit.Proofs.DecimalScaling

/-!
# Rounding to decimals

Sums, differences and products are rounded by one function of the exact result: to an even last digit
at the finest scale that has room for it. The function is monotone and leaves the values of decimals
alone, so that no result ever passes the value of a decimal. A result is missing exactly if the exact
value is too large to be rounded to a mantissa. However many digits a number has, moving its decimal
point loses none of them.
-/

namespace MarkovFit.Proofs

open Decimal

/-! ### Rounding to an integer -/

variable {n d n' d' : Nat}

/-- The rounded quotient is at most a half away, and even if it is as far as that. -/
theorem roundHalfEven_spec (hd : 0 < d) :
    (roundHalfEven n d : ℚ) - 1 / 2 ≤ n / d ∧ (n / d : ℚ) ≤ roundHalfEven n d + 1 / 2 ∧
      ((n / d : ℚ) = roundHalfEven n d - 1 / 2 ∨ (n / d : ℚ) = roundHalfEven n d + 1 / 2 →
        roundHalfEven n d % 2 = 0) := by
  have hpos : (0 : ℚ) < d := by exact_mod_cast hd
  have hquotient : (n / d : ℚ) = (n / d : ℕ) + (n % d : ℕ) / d := by
    have hsplit : (d : ℚ) * (n / d : ℕ) + (n % d : ℕ) = n := by exact_mod_cast Nat.div_add_mod n d
    rw [← hsplit]
    field_simp
  have hlt : (n % d : ℕ) / d < (1 : ℚ) := by
    rw [div_lt_one hpos]
    exact_mod_cast Nat.mod_lt n hd
  have hnonneg : (0 : ℚ) ≤ (n % d : ℕ) / d := by positivity
  have habove : 2 * (n % d) > d ↔ (1 / 2 : ℚ) < (n % d : ℕ) / d := by
    rw [lt_div_iff₀ hpos, gt_iff_lt, div_mul_eq_mul_div, one_mul, div_lt_iff₀ two_pos, mul_comm 2]
    exact_mod_cast Iff.rfl
  have htie : 2 * (n % d) = d ↔ ((n % d : ℕ) / d : ℚ) = 1 / 2 := by
    rw [div_eq_iff hpos.ne', div_mul_eq_mul_div, one_mul, eq_div_iff two_ne_zero, mul_comm 2]
    exact_mod_cast Iff.rfl
  simp only [roundHalfEven, hquotient, habove, htie]
  generalize ((n % d : ℕ) / d : ℚ) = f at *
  generalize n / d = q
  split
  · rename_i hup
    push_cast
    have hhigh : 1 / 2 ≤ f := by
      rcases hup with h | h
      · exact h.le
      · exact h.1.ge
    refine ⟨by linarith, by linarith, fun hhalf => ?_⟩
    rcases hup with h | h
    · rcases hhalf with h' | h' <;> linarith
    · omega
  · rename_i hdown
    rw [not_or, not_lt] at hdown
    refine ⟨by linarith, by linarith [hdown.1], fun hhalf => ?_⟩
    have hodd : ¬q % 2 = 1 := fun hodd => hdown.2 ⟨by rcases hhalf with h | h <;> linarith, hodd⟩
    omega

theorem roundHalfEven_mono (hd : 0 < d) (hd' : 0 < d') (h : (n / d : ℚ) ≤ n' / d') :
    roundHalfEven n d ≤ roundHalfEven n' d' := by
  obtain ⟨hlow, -, hevenLow⟩ := roundHalfEven_spec (n := n) hd
  obtain ⟨-, hhigh, hevenHigh⟩ := roundHalfEven_spec (n := n') hd'
  generalize roundHalfEven n d = q at *
  generalize roundHalfEven n' d' = q' at *
  by_contra hlt
  have hle : (q' : ℚ) + 1 ≤ q := by exact_mod_cast Nat.lt_of_not_le hlt
  -- Both quotients are the same half then, and two neighbours cannot both be even.
  have heven : q % 2 = 0 := hevenLow (.inl (by linarith))
  have heven' : q' % 2 = 0 := hevenHigh (.inr (by linarith))
  have hnext : (q : ℚ) = q' + 1 := by linarith
  have hnext : q = q' + 1 := by exact_mod_cast hnext
  omega

/-- The integer nearest to a number that is not negative; of two, the even one. -/
def nearestEven (x : ℚ) : ℕ := roundHalfEven x.num.toNat x.den

theorem num_div_den_of_nonneg {x : ℚ} (hx : 0 ≤ x) : (x.num.toNat / x.den : ℚ) = x := by
  have hnum : ((x.num.toNat : ℤ) : ℚ) = x.num := by
    rw [Int.toNat_of_nonneg (Rat.num_nonneg.2 hx)]
  have hcast : (x.num.toNat : ℚ) = x.num := by exact_mod_cast hnum
  rw [hcast, Rat.num_div_den]

theorem nearestEven_spec {x : ℚ} (hx : 0 ≤ x) :
    (nearestEven x : ℚ) - 1 / 2 ≤ x ∧ x ≤ nearestEven x + 1 / 2 := by
  have hspec := roundHalfEven_spec (n := x.num.toNat) (Rat.den_pos x)
  rw [num_div_den_of_nonneg hx] at hspec
  exact ⟨hspec.1, hspec.2.1⟩

theorem nearestEven_div (hd : 0 < d) : nearestEven (n / d) = roundHalfEven n d := by
  have hvalue := num_div_den_of_nonneg (x := n / d) (by positivity)
  apply Nat.le_antisymm
  · exact roundHalfEven_mono (Rat.den_pos _) hd hvalue.le
  · exact roundHalfEven_mono hd (Rat.den_pos _) hvalue.ge

theorem nearestEven_mono {x y : ℚ} (hx : 0 ≤ x) (h : x ≤ y) : nearestEven x ≤ nearestEven y := by
  apply roundHalfEven_mono (Rat.den_pos _) (Rat.den_pos _)
  rwa [num_div_den_of_nonneg hx, num_div_den_of_nonneg (hx.trans h)]

theorem nearestEven_natCast (n : ℕ) : nearestEven n = n := by
  calc nearestEven n = nearestEven ((n : ℚ) / (1 : ℕ)) := by rw [Nat.cast_one, div_one]
    _ = roundHalfEven n 1 := nearestEven_div Nat.one_pos
    _ = n := by simpa using roundHalfEven_mul_self n Nat.one_pos

/-- A number below a natural number is rounded to it at most. -/
theorem nearestEven_le {x : ℚ} (hx : 0 ≤ x) (h : x ≤ n) : nearestEven x ≤ n :=
  (nearestEven_mono hx h).trans_eq (nearestEven_natCast n)

/-! ### Rounding to a decimal -/

variable {x y : ℚ}

theorem div_pow_le (hx : 0 ≤ x) (places : ℕ) : x / 10 ^ places ≤ x :=
  div_le_self hx (one_le_pow₀ (by norm_num))

theorem le_mul_pow (hx : 0 ≤ x) (places : ℕ) : x ≤ x * 10 ^ places :=
  le_mul_of_one_le_right hx (one_le_pow₀ (by norm_num))

/-- The finest scale at which the number has room. -/
def room (x : ℚ) : ℕ := Nat.findGreatest (fun places => x * 10 ^ places < mantissaBound) maxScale

/-- The mantissa that a number gets which is rounded to `m`: the bound itself loses a digit, upwards. -/
def settled (m : ℕ) : ℕ := if m < mantissaBound then m else mantissaBound + 4

/-- The decimal value to which a number is rounded that is not negative. -/
def roundedMagnitude (x : ℚ) : ℚ := settled (nearestEven (x * 10 ^ room x)) / 10 ^ room x

theorem room_le (x : ℚ) : room x ≤ maxScale := Nat.findGreatest_le _

theorem mul_pow_room_lt (h : x < mantissaBound) : x * 10 ^ room x < mantissaBound := by
  have hzero : x * 10 ^ 0 < mantissaBound := by rwa [pow_zero, mul_one]
  exact Nat.findGreatest_spec (P := fun places => x * 10 ^ places < mantissaBound)
    (Nat.zero_le maxScale) hzero

theorem mantissaBound_le_of_room_lt {places : ℕ} (hroom : room x < places) (hmax : places ≤ maxScale) :
    (mantissaBound : ℚ) ≤ x * 10 ^ places :=
  not_lt.1 (Nat.findGreatest_is_greatest hroom hmax)

theorem le_room {places : ℕ} (hmax : places ≤ maxScale) (h : x * 10 ^ places < mantissaBound) :
    places ≤ room x :=
  Nat.le_findGreatest hmax h

theorem room_anti (h : x ≤ y) (hy : y < mantissaBound) : room y ≤ room x := by
  apply le_room (room_le y)
  exact (mul_le_mul_of_nonneg_right h (by positivity)).trans_lt (mul_pow_room_lt hy)

/-- There is room exactly up to here if there is none one digit further. -/
theorem room_eq {places : ℕ} (hx : 0 ≤ x) (hmax : places ≤ maxScale)
    (hlt : x * 10 ^ places < mantissaBound)
    (hfinest : places = maxScale ∨ (mantissaBound : ℚ) ≤ x * 10 ^ (places + 1)) :
    room x = places := by
  apply Nat.le_antisymm _ (le_room hmax hlt)
  obtain rfl | hfinest := hfinest
  · exact room_le x
  · by_contra hlarger
    have hfits := mul_pow_room_lt ((le_mul_pow hx places).trans_lt hlt)
    have hmono : x * 10 ^ (places + 1) ≤ x * 10 ^ room x :=
      mul_le_mul_of_nonneg_left (pow_le_pow_right₀ (by norm_num) (Nat.lt_of_not_le hlarger)) hx
    exact absurd hfinest (not_le.2 (hmono.trans_lt hfits))

theorem settled_mono {m m' : ℕ} (hm' : m' ≤ mantissaBound) (h : m ≤ m') : settled m ≤ settled m' := by
  unfold settled
  split <;> split <;> omega

theorem settled_le (m : ℕ) : settled m ≤ mantissaBound + 4 := by
  unfold settled
  split <;> omega

theorem nearestEven_le_bound (hx : 0 ≤ x) (h : x < mantissaBound) :
    nearestEven (x * 10 ^ room x) ≤ mantissaBound :=
  nearestEven_le (by positivity) (mul_pow_room_lt h).le

/-- A greater number is not rounded to a smaller value. With less room, its value is at least the
bound without a digit, and the other one's at most that. -/
theorem roundedMagnitude_mono (hx : 0 ≤ x) (h : x ≤ y) (hy : y < mantissaBound) :
    roundedMagnitude x ≤ roundedMagnitude y := by
  have hxbound := h.trans_lt hy
  obtain hroom | hroom := (room_anti h hy).eq_or_lt
  · have hmono : nearestEven (x * 10 ^ room x) ≤ nearestEven (y * 10 ^ room x) :=
      nearestEven_mono (by positivity) (mul_le_mul_of_nonneg_right h (by positivity))
    have hbound := nearestEven_le_bound (hx.trans h) hy
    rw [hroom] at hbound
    rw [roundedMagnitude, roundedMagnitude, hroom]
    gcongr
    exact settled_mono hbound hmono
  · have hfull : (mantissaBound : ℚ) / (10 : ℕ) ≤ y * 10 ^ room y := by
      rw [div_le_iff₀ (by norm_num), mul_assoc, Nat.cast_ofNat, ← pow_succ]
      exact mantissaBound_le_of_room_lt (Nat.lt_succ_self _) (hroom.trans_le (room_le x))
    have hshort : settled (nearestEven ((mantissaBound : ℚ) / (10 : ℕ))) * 10 = mantissaBound + 4 := by
      rw [nearestEven_div (by norm_num)]
      decide
    have hlarge : settled (nearestEven ((mantissaBound : ℚ) / (10 : ℕ))) ≤
        settled (nearestEven (y * 10 ^ room y)) :=
      settled_mono (nearestEven_le_bound (hx.trans h) hy) (nearestEven_mono (by positivity) hfull)
    calc roundedMagnitude x ≤ (mantissaBound + 4 : ℕ) / 10 ^ room x := by
          rw [roundedMagnitude]
          gcongr
          exact settled_le _
      _ ≤ (mantissaBound + 4 : ℕ) / 10 ^ (room y + 1) := by
          gcongr
          · norm_num
          · exact hroom
      _ = settled (nearestEven ((mantissaBound : ℚ) / (10 : ℕ))) / 10 ^ room y := by
          rw [← hshort, pow_succ]
          push_cast
          field_simp
      _ ≤ roundedMagnitude y := by
          rw [roundedMagnitude]
          gcongr

/-- The values of decimals are left alone. -/
theorem roundedMagnitude_eq_self {places : ℕ} (hplaces : places ≤ maxScale) (hn : n < mantissaBound) :
    roundedMagnitude (n / 10 ^ places) = n / 10 ^ places := by
  have hroom : places ≤ room (n / 10 ^ places) := by
    apply le_room hplaces
    rw [div_mul_cancel₀ _ (by positivity)]
    exact_mod_cast hn
  have hsplit : (10 : ℚ) ^ room (n / 10 ^ places) =
      10 ^ (room (n / 10 ^ places) - places) * 10 ^ places := by
    rw [← pow_add, Nat.sub_add_cancel hroom]
  have hwhole : (n / 10 ^ places : ℚ) * 10 ^ room (n / 10 ^ places) =
      (n * 10 ^ (room (n / 10 ^ places) - places) : ℕ) := by
    rw [hsplit]
    push_cast
    field_simp
  have hlt : n * 10 ^ (room (n / 10 ^ places) - places) < mantissaBound := by
    have hbound : (n / 10 ^ places : ℚ) < mantissaBound :=
      (div_pow_le (by positivity) places).trans_lt (by exact_mod_cast hn)
    have hfits := mul_pow_room_lt hbound
    rw [hwhole] at hfits
    exact_mod_cast hfits
  rw [roundedMagnitude, hwhole, nearestEven_natCast, settled, if_pos hlt]
  rw [hsplit]
  push_cast
  field_simp

/-! ### The limit -/

/-- Numbers from here on have no decimal nearby. -/
def decimalLimit : ℚ := mantissaBound - 1 / 2

variable {m s q t : ℕ}

theorem limit_lt_bound : decimalLimit < mantissaBound := by
  rw [decimalLimit]
  exact sub_lt_self _ (by norm_num)

theorem ten_lt_limit : 10 < decimalLimit := by norm_num [decimalLimit, mantissaBound]

theorem decimalLimit_pos : 0 < decimalLimit := by linarith [ten_lt_limit]

/-- No mantissa reaches the limit. -/
theorem div_pow_lt_limit (hm : m < mantissaBound) (s : ℕ) : (m / 10 ^ s : ℚ) < decimalLimit := by
  have hle : (m / 10 ^ s : ℚ) ≤ m := div_pow_le (by positivity) s
  have hsucc : (m : ℚ) + 1 ≤ mantissaBound := by exact_mod_cast hm
  rw [decimalLimit]
  linarith

/-- Below the limit a number is rounded to a mantissa. -/
theorem nearestEven_lt_bound_iff (hx : 0 ≤ x) : nearestEven x < mantissaBound ↔ x < decimalLimit := by
  rw [decimalLimit]
  constructor
  · intro hlt
    by_contra hge
    have hhalf : ((2 * mantissaBound - 1 : ℕ) / (2 : ℕ) : ℚ) ≤ x := by
      rw [not_lt] at hge
      refine le_trans (le_of_eq ?_) hge
      norm_num [mantissaBound]
    have hmono := nearestEven_mono (by positivity) hhalf
    have hround : roundHalfEven (2 * mantissaBound - 1) 2 = mantissaBound := by decide
    rw [nearestEven_div two_pos, hround] at hmono
    omega
  · intro hlt
    have hcast : (nearestEven x : ℚ) < mantissaBound := by linarith [(nearestEven_spec hx).1]
    exact_mod_cast hcast

/-! ### Fitting a mantissa -/

theorem le_div_pow_of_excessDigits {j : ℕ} (h : excessDigits m = j + 1) :
    mantissaBound ≤ m / 10 ^ j := by
  induction j generalizing m with
  | zero =>
    rw [excessDigits] at h
    split at h
    · cases h
    · rename_i hm
      simpa using hm
  | succ j ih =>
    rw [excessDigits] at h
    split at h
    · cases h
    · have hdiv := ih (Nat.succ.inj h)
      rwa [Nat.div_div_eq_div_mul, ← pow_succ'] at hdiv

/-- The digits that `fit` drops: what is left is a mantissa, and one digit more would not be unless
that is beyond the finest scale. -/
theorem droppedDigits_spec (m s : ℕ) :
    ∃ k, k = s - maxScale + excessDigits (m / 10 ^ (s - maxScale)) ∧ m / 10 ^ k < mantissaBound ∧
      (k = s - maxScale ∨ ∃ j, k = j + 1 ∧ mantissaBound ≤ m / 10 ^ j) := by
  refine ⟨_, rfl, ?_, ?_⟩
  · rw [pow_add, ← Nat.div_div_eq_div_mul]
    exact div_pow_excessDigits_lt _
  · cases hexcess : excessDigits (m / 10 ^ (s - maxScale)) with
    | zero => exact .inl rfl
    | succ j =>
      refine .inr ⟨s - maxScale + j, rfl, ?_⟩
      rw [pow_add, ← Nat.div_div_eq_div_mul]
      exact le_div_pow_of_excessDigits hexcess

theorem div_pow_mul_pow {k : ℕ} (hk : k ≤ s) : (m / 10 ^ s : ℚ) * 10 ^ (s - k) = m / 10 ^ k := by
  have hsplit : (10 : ℚ) ^ s = 10 ^ (s - k) * 10 ^ k := by rw [← pow_add, Nat.sub_add_cancel hk]
  rw [hsplit]
  field_simp

theorem div_pow_lt_iff {k : ℕ} : m / 10 ^ k < mantissaBound ↔ (m / 10 ^ k : ℚ) < mantissaBound := by
  rw [Nat.div_lt_iff_lt_mul (by positivity), div_lt_iff₀ (by positivity)]
  exact_mod_cast Iff.rfl

theorem le_div_pow_iff {k : ℕ} : mantissaBound ≤ m / 10 ^ k ↔ (mantissaBound : ℚ) ≤ m / 10 ^ k := by
  rw [← not_lt, div_pow_lt_iff, not_lt]

theorem room_eq_of_dropped {k : ℕ} (hk : k ≤ s) (hscale : s - k ≤ maxScale)
    (hlt : m / 10 ^ k < mantissaBound)
    (hfinest : s - k = maxScale ∨ ∃ j, k = j + 1 ∧ mantissaBound ≤ m / 10 ^ j) :
    room (m / 10 ^ s) = s - k := by
  apply room_eq (by positivity) hscale
  · rw [div_pow_mul_pow hk]
    exact div_pow_lt_iff.1 hlt
  · obtain hfinest | ⟨j, rfl, hfinest⟩ := hfinest
    · exact .inl hfinest
    · right
      have hplace : s - (j + 1) + 1 = s - j := by omega
      rw [hplace, div_pow_mul_pow (by omega)]
      exact le_div_pow_iff.1 hfinest

/-- Too many digits before the point. -/
theorem limit_le_of_dropped {k : ℕ} (hk : s < k)
    (hfinest : k = s - maxScale ∨ ∃ j, k = j + 1 ∧ mantissaBound ≤ m / 10 ^ j) :
    decimalLimit ≤ (m / 10 ^ s : ℚ) := by
  obtain hfinest | ⟨j, rfl, hfinest⟩ := hfinest
  · omega
  · have hle : m / 10 ^ j ≤ m / 10 ^ s :=
      Nat.div_le_div_left (Nat.pow_le_pow_right (by norm_num) (by omega)) (by positivity)
    exact limit_lt_bound.le.trans (le_div_pow_iff.1 (hfinest.trans hle))

/-- A mantissa that is rounded up to the bound has one digit less. -/
theorem roundedMagnitude_of_bound {places : ℕ} (hroom : room x = places + 1)
    (hbound : nearestEven (x * 10 ^ (places + 1)) = mantissaBound) :
    roundedMagnitude x = roundHalfEven mantissaBound 10 / 10 ^ places := by
  have hshort : roundHalfEven mantissaBound 10 * 10 = mantissaBound + 4 := by decide
  rw [roundedMagnitude, hroom, hbound, settled, if_neg (lt_irrefl _), ← hshort, pow_succ]
  push_cast
  field_simp

/-- `fit` rounds, and fails on numbers only that are too large. -/
theorem fit_spec (m s : ℕ) :
    ((m / 10 ^ s : ℚ) < decimalLimit ∧ ∃ q t, fit m s = some (q, t) ∧ q < mantissaBound ∧
        t ≤ maxScale ∧ (q / 10 ^ t : ℚ) = roundedMagnitude (m / 10 ^ s)) ∨
      decimalLimit ≤ (m / 10 ^ s : ℚ) ∧ fit m s = none := by
  obtain ⟨k, hk, hlt, hfinest⟩ := droppedDigits_spec m s
  simp only [fit, Nat.pow_eq, ← hk]
  by_cases hks : s < k
  · exact .inr ⟨limit_le_of_dropped hks hfinest, if_pos hks⟩
  rw [if_neg hks]
  have hks : k ≤ s := Nat.le_of_not_lt hks
  have hscale : s - k ≤ maxScale := by omega
  have hscaled := div_pow_mul_pow (m := m) hks
  have hround : nearestEven ((m / 10 ^ s : ℚ) * 10 ^ (s - k)) = roundHalfEven m (10 ^ k) := by
    rw [hscaled, ← nearestEven_div (by positivity)]
    push_cast
    rfl
  by_cases hexact : k = 0
  · subst hexact
    have hm : m < mantissaBound := by simpa using hlt
    have hwhole : roundHalfEven m (10 ^ 0) = m := by simpa using roundHalfEven_mul_self m Nat.one_pos
    refine .inl ⟨div_pow_lt_limit hm s, m, s, ?_, hm, hscale,
      (roundedMagnitude_eq_self hscale hm).symm⟩
    rw [hwhole, if_pos hm, Nat.sub_zero]
  have hroom : room (m / 10 ^ s) = s - k := by
    apply room_eq_of_dropped hks hscale hlt
    obtain hfinest | hfinest := hfinest
    · exact .inl (by omega)
    · exact .inr hfinest
  by_cases hq : roundHalfEven m (10 ^ k) < mantissaBound
  · rw [if_pos hq]
    refine .inl ⟨?_, _, _, rfl, hq, hscale, ?_⟩
    · rw [← hround, nearestEven_lt_bound_iff (by positivity)] at hq
      exact (le_mul_pow (by positivity) _).trans_lt hq
    · rw [roundedMagnitude, hroom, hround, settled, if_pos hq]
  · rw [if_neg hq]
    by_cases hs : s - k = 0
    · rw [if_pos hs]
      rw [← hround, hs, pow_zero, mul_one, nearestEven_lt_bound_iff (by positivity), not_lt] at hq
      exact .inr ⟨hq, rfl⟩
    · -- The mantissa was rounded up to the bound, which costs one digit more.
      obtain ⟨places, hplaces⟩ : ∃ places, s - k = places + 1 := Nat.exists_eq_succ_of_ne_zero hs
      have hfits : (m / 10 ^ s : ℚ) * 10 ^ (s - k) < mantissaBound := by
        rw [hscaled]
        exact div_pow_lt_iff.1 hlt
      have hbound : roundHalfEven m (10 ^ k) = mantissaBound :=
        Nat.le_antisymm (hround ▸ nearestEven_le (by positivity) hfits.le) (Nat.le_of_not_lt hq)
      rw [hplaces] at hround hroom
      have hmagnitude := roundedMagnitude_of_bound hroom (hround.trans hbound)
      rw [if_neg hs, hbound, hplaces, Nat.add_sub_cancel]
      refine .inl ⟨?_, _, _, rfl, by decide, by omega, hmagnitude.symm⟩
      rw [hplaces, pow_succ, ← mul_assoc] at hfits
      have hle : (m / 10 ^ s : ℚ) ≤ m / 10 ^ s * 10 ^ places := le_mul_pow (by positivity) _
      have hlarge := ten_lt_limit
      rw [decimalLimit] at hlarge ⊢
      linarith

/-! ### Signs -/

/-- The decimal value to which a number is rounded. -/
def rounded (x : ℚ) : ℚ := if x < 0 then -roundedMagnitude (-x) else roundedMagnitude x

theorem roundedMagnitude_nonneg (x : ℚ) : 0 ≤ roundedMagnitude x := by
  rw [roundedMagnitude]
  positivity

theorem rounded_neg (x : ℚ) : rounded (-x) = -rounded x := by
  have hzero : roundedMagnitude 0 = 0 := by
    have hself := roundedMagnitude_eq_self (n := 0) (Nat.zero_le maxScale) (by decide)
    simpa using hself
  obtain hx | rfl | hx := lt_trichotomy x 0
  · rw [rounded, rounded, if_neg (by linarith), if_pos hx, neg_neg]
  · simp [rounded, hzero]
  · rw [rounded, rounded, if_pos (by linarith), if_neg (by linarith), neg_neg]

theorem rounded_of_nonneg (hx : 0 ≤ x) : rounded x = roundedMagnitude x := if_neg (not_lt.2 hx)

theorem rounded_nonneg (hx : 0 ≤ x) : 0 ≤ rounded x := by
  rw [rounded_of_nonneg hx]
  exact roundedMagnitude_nonneg x

theorem rounded_mono (h : x ≤ y) (hx : -mantissaBound < x) (hy : y < mantissaBound) :
    rounded x ≤ rounded y := by
  by_cases hynonneg : 0 ≤ y
  · by_cases hxnonneg : 0 ≤ x
    · rw [rounded_of_nonneg hxnonneg, rounded_of_nonneg hynonneg]
      exact roundedMagnitude_mono hxnonneg h hy
    · rw [rounded, if_pos (not_le.1 hxnonneg), rounded_of_nonneg hynonneg]
      exact (neg_nonpos.2 (roundedMagnitude_nonneg _)).trans (roundedMagnitude_nonneg _)
  · have hynegative := not_le.1 hynonneg
    rw [rounded, if_pos (h.trans_lt hynegative), rounded, if_pos hynegative, neg_le_neg_iff]
    exact roundedMagnitude_mono (by linarith) (by linarith) (by linarith)

/-- The number with a sign. -/
def signed (negative : Bool) (x : ℚ) : ℚ := if negative then -x else x

theorem abs_signed (negative : Bool) (hx : 0 ≤ x) : |signed negative x| = x := by
  cases negative with
  | false => exact abs_of_nonneg hx
  | true => exact (abs_neg x).trans (abs_of_nonneg hx)

theorem rounded_signed (negative : Bool) (hx : 0 ≤ x) :
    rounded (signed negative x) = signed negative (roundedMagnitude x) := by
  cases negative with
  | false => exact rounded_of_nonneg hx
  | true => exact (rounded_neg x).trans (congrArg _ (rounded_of_nonneg hx))

theorem signed_mul (negative negative' : Bool) (x y : ℚ) :
    signed (negative != negative') (x * y) = signed negative x * signed negative' y := by
  cases negative <;> cases negative' <;> simp [signed]

theorem signed_eq_div (negative : Bool) (m s : ℕ) :
    (if negative then -(m : ℚ) else m) / 10 ^ s = signed negative (m / 10 ^ s) := by
  cases negative with
  | false => rfl
  | true => exact neg_div _ _

theorem toRat_eq_signed (a : Decimal) : a.toRat = signed a.negative (a.mantissa / 10 ^ a.scale) := by
  rw [toRat_eq_div, signedMantissa, ← signed_eq_div]
  split <;> simp

theorem abs_toRat_lt (a : Decimal) : |a.toRat| < decimalLimit := by
  rw [toRat_eq_signed, abs_signed _ (by positivity)]
  exact div_pow_lt_limit a.mantissa_lt a.scale

theorem rounded_toRat (a : Decimal) : rounded a.toRat = a.toRat := by
  rw [toRat_eq_signed, rounded_signed _ (by positivity),
    roundedMagnitude_eq_self a.scale_le a.mantissa_lt]

theorem toRat_mem_Ioo (a : Decimal) : -decimalLimit < a.toRat ∧ a.toRat < decimalLimit :=
  abs_lt.1 (abs_toRat_lt a)

/-- A number between the value of a decimal and the limit is not rounded below the decimal. -/
theorem le_rounded (c : Decimal) (h : c.toRat ≤ x) (hx : x < decimalLimit) : c.toRat ≤ rounded x := by
  rw [← rounded_toRat c]
  apply rounded_mono h
  · linarith [(toRat_mem_Ioo c).1, limit_lt_bound]
  · linarith [limit_lt_bound]

theorem rounded_le (c : Decimal) (h : x ≤ c.toRat) (hx : -decimalLimit < x) : rounded x ≤ c.toRat := by
  rw [← rounded_toRat c]
  apply rounded_mono h
  · linarith [limit_lt_bound]
  · linarith [(toRat_mem_Ioo c).2, limit_lt_bound]

/-! ### Rounding large numbers -/

/-- From the limit on, the rounded number is larger than all decimals. -/
theorem rounded_of_limit_le (hx : decimalLimit ≤ x) : rounded x = mantissaBound + 4 := by
  have hlarge := ten_lt_limit
  have hnonneg : 0 ≤ x := by linarith
  have hroom : room x = 0 := by
    apply Nat.findGreatest_eq_zero_iff.2
    intro places hplaces _
    have hten : (10 : ℚ) ≤ 10 ^ places := le_self_pow₀ (by norm_num) (Nat.pos_iff_ne_zero.1 hplaces)
    have hmul : x * 10 ≤ x * 10 ^ places := mul_le_mul_of_nonneg_left hten hnonneg
    have hbound : (mantissaBound : ℚ) = decimalLimit + 1 / 2 := by
      rw [decimalLimit]
      ring
    rw [not_lt]
    linarith
  have hnearest : ¬nearestEven x < mantissaBound := by
    rw [nearestEven_lt_bound_iff hnonneg, not_lt]
    exact hx
  rw [rounded_of_nonneg hnonneg, roundedMagnitude, hroom, pow_zero, mul_one, div_one, settled,
    if_neg hnearest]
  push_cast
  rfl

/-- Rounding takes a half away at most. -/
theorem sub_half_le_rounded (hx : 0 ≤ x) (hlt : x < mantissaBound) : x - 1 / 2 ≤ rounded x := by
  have hnearest := (nearestEven_spec (x := x * 10 ^ room x) (by positivity)).2
  have hsettled : nearestEven (x * 10 ^ room x) ≤ settled (nearestEven (x * 10 ^ room x)) := by
    have hbound := nearestEven_le_bound hx hlt
    rw [settled]
    split <;> omega
  have hcast : (nearestEven (x * 10 ^ room x) : ℚ) ≤ settled (nearestEven (x * 10 ^ room x)) := by
    exact_mod_cast hsettled
  have hone : (1 : ℚ) ≤ 10 ^ room x := one_le_pow₀ (by norm_num)
  rw [rounded_of_nonneg hx, roundedMagnitude, le_div_iff₀ (by positivity)]
  calc (x - 1 / 2) * 10 ^ room x = x * 10 ^ room x - 1 / 2 * 10 ^ room x := by ring
    _ ≤ x * 10 ^ room x - 1 / 2 := by linarith
    _ ≤ settled (nearestEven (x * 10 ^ room x)) := by linarith

/-! ### Operations -/

/-- The result is the exact value rounded, or none if that is too large. -/
def IsRounding (x : ℚ) (result : Option Decimal) : Prop :=
  (|x| < decimalLimit ∧ ∃ c, result = some c ∧ c.toRat = rounded x) ∨
    decimalLimit ≤ |x| ∧ result = none

theorem isRounding_toRat (a : Decimal) : IsRounding a.toRat (some a) :=
  .inl ⟨abs_toRat_lt a, a, rfl, (rounded_toRat a).symm⟩

theorem exists_of_isRounding {result : Option Decimal} (h : IsRounding x result)
    (hx : |x| < decimalLimit) : ∃ c, result = some c ∧ c.toRat = rounded x := by
  obtain ⟨-, hresult⟩ | ⟨hlarge, -⟩ := h
  · exact hresult
  · exact absurd hx (not_lt.2 hlarge)

theorem of_isRounding_some {c : Decimal} (h : IsRounding x (some c)) :
    |x| < decimalLimit ∧ c.toRat = rounded x := by
  obtain ⟨hx, c', hc', hvalue⟩ | ⟨-, hnone⟩ := h
  · cases hc'
    exact ⟨hx, hvalue⟩
  · cases hnone

theorem exists_ofParts? {m s : ℕ} (negative : Bool) (hm : m < mantissaBound) (hs : s ≤ maxScale) :
    ∃ c, ofParts? negative m s = some c ∧ c.toRat = signed negative (m / 10 ^ s) := by
  have hc : ofParts? negative m s = some ⟨negative, m, s, hm, hs⟩ := (dif_pos hm).trans (dif_pos hs)
  exact ⟨_, hc, (toRat_of_ofParts? hc).trans (signed_eq_div _ _ _)⟩

theorem exists_ofUnits? {m s : ℕ} (negative : Bool) (hm : m < mantissaBound) (hs : s ≤ maxScale) :
    ∃ c, ofUnits? negative m s = some c ∧ c.toRat = signed negative (m / 10 ^ s) := by
  obtain ⟨c, hc, -⟩ := exists_ofParts? (negative && m != 0) hm hs
  exact ⟨c, hc, (toRat_of_ofUnits? hc).trans (signed_eq_div _ _ _)⟩

/-- A mantissa of the right value, with its sign. -/
theorem isRounding_of_magnitude {negative : Bool} {result : Option Decimal} (hx : 0 ≤ x)
    (hlt : x < decimalLimit)
    (h : ∃ c, result = some c ∧ c.toRat = signed negative (roundedMagnitude x)) :
    IsRounding (signed negative x) result := by
  rw [IsRounding, abs_signed _ hx, rounded_signed _ hx]
  exact .inl ⟨hlt, h⟩

/-- A mantissa that is fitted and then given its sign. -/
theorem isRounding_of_fit {negative : Bool} {build : ℕ → ℕ → Option Decimal}
    (hbuild : ∀ {q t : ℕ}, q < mantissaBound → t ≤ maxScale →
      ∃ c, build q t = some c ∧ c.toRat = signed negative (q / 10 ^ t)) (m s : ℕ) :
    IsRounding (signed negative (m / 10 ^ s)) ((fit m s).bind fun (q, t) => build q t) := by
  obtain ⟨hlt, q, t, hfit, hq, ht, hvalue⟩ | ⟨hge, hfit⟩ := fit_spec m s
  · rw [hfit]
    obtain ⟨c, hc, htoRat⟩ := hbuild hq ht
    exact isRounding_of_magnitude (by positivity) hlt ⟨c, hc, by rw [htoRat, hvalue]⟩
  · rw [hfit, IsRounding, abs_signed _ (by positivity)]
    exact .inr ⟨hge, rfl⟩

theorem toRat_of_isZero {a : Decimal} (h : a.isZero = true) : a.toRat = 0 :=
  (toRat_eq_zero_iff a).2 (beq_iff_eq.1 h)

theorem signed_natAbs (z : ℤ) : signed (decide (z < 0)) z.natAbs = z := by
  have habs : (z.natAbs : ℚ) = |(z : ℚ)| := by rw [Nat.cast_natAbs, Int.cast_abs]
  rw [habs]
  by_cases hz : z < 0
  · have hneg : (z : ℚ) < 0 := by exact_mod_cast hz
    rw [decide_eq_true hz, abs_of_neg hneg]
    exact neg_neg _
  · have hnonneg : (0 : ℚ) ≤ z := by exact_mod_cast not_lt.1 hz
    rw [decide_eq_false hz, abs_of_nonneg hnonneg]
    rfl

theorem add?_spec (a b : Decimal) : IsRounding (a.toRat + b.toRat) (a.add? b) := by
  simp only [add?]
  by_cases ha : a.isZero = true
  · rw [if_pos ha, toRat_of_isZero ha, zero_add]
    exact isRounding_toRat b
  · rw [if_neg ha]
    by_cases hb : b.isZero = true
    · rw [if_pos hb, toRat_of_isZero hb, add_zero]
      exact isRounding_toRat a
    · rw [if_neg hb]
      generalize htotal : a.units (max a.scale b.scale) + b.units (max a.scale b.scale) = total
      have hsum : (total : ℚ) = (a.toRat + b.toRat) * 10 ^ max a.scale b.scale := by
        rw [← htotal, Int.cast_add, units_eq_mul_toRat a (le_max_left _ _),
          units_eq_mul_toRat b (le_max_right _ _), add_mul]
      have hvalue : a.toRat + b.toRat =
          signed (decide (total < 0)) (total.natAbs / 10 ^ max a.scale b.scale) := by
        rw [← signed_eq_div, ← signed, signed_natAbs, hsum, mul_div_cancel_right₀ _ (by positivity)]
      rw [hvalue]
      exact isRounding_of_fit (exists_ofUnits? _) _ _

theorem sub?_spec (a b : Decimal) : IsRounding (a.toRat - b.toRat) (a.sub? b) := by
  rw [sub?]
  by_cases hb : b.isZero = true
  · rw [if_pos hb, toRat_of_isZero hb, sub_zero]
    by_cases ha : a.isZero = true
    · rw [if_pos ha, toRat_of_isZero ha, ← toRat_of_isZero hb]
      exact isRounding_toRat b
    · rw [if_neg ha]
      exact isRounding_toRat a
  · rw [if_neg hb, sub_eq_add_neg, ← toRat_neg]
    exact add?_spec a (-b)

/-- Short products have room down to the finest scale. -/
theorem roundedMagnitude_of_short (hx : 0 ≤ x) (hshort : x * 10 ^ maxScale < 2 ^ 64) :
    roundedMagnitude x = nearestEven (x * 10 ^ maxScale) / 10 ^ maxScale := by
  have hbound : (2 ^ 64 : ℚ) < mantissaBound := by norm_num [mantissaBound]
  have hroom : room x = maxScale :=
    Nat.le_antisymm (room_le x) (le_room le_rfl (hshort.trans hbound))
  have hnearest : nearestEven (x * 10 ^ maxScale) < mantissaBound := by
    have hle : nearestEven (x * 10 ^ maxScale) ≤ 2 ^ 64 :=
      nearestEven_le (by positivity) (by exact_mod_cast hshort.le)
    exact hle.trans_lt (by decide)
  rw [roundedMagnitude, hroom, settled, if_pos hnearest]

/-- A short product is rounded at the finest scale; far below it nothing is left. -/
theorem isRounding_short {p s : ℕ} (negative : Bool) (hp : p < 2 ^ 64) :
    IsRounding (signed negative (p / 10 ^ s))
      (if s > 47 then some Decimal.zero
      else if s > maxScale then
        ofUnits? negative (roundHalfEven p (10 ^ (s - maxScale))) maxScale
      else ofUnits? negative p s) := by
  have hcast : (p : ℚ) < 2 ^ 64 := by exact_mod_cast hp
  have hmantissa : p < mantissaBound := hp.trans (by decide)
  apply isRounding_of_magnitude (by positivity) (div_pow_lt_limit hmantissa s)
  by_cases hcoarse : s ≤ maxScale
  · have hscale : s ≤ 28 := hcoarse
    rw [if_neg (by omega), if_neg (by omega), roundedMagnitude_eq_self hcoarse hmantissa]
    exact exists_ofUnits? negative hmantissa hcoarse
  have hs : s - (s - maxScale) = maxScale := by omega
  have hscaled : (p / 10 ^ s : ℚ) * 10 ^ maxScale = p / 10 ^ (s - maxScale) := by
    have hmoved := div_pow_mul_pow (m := p) (Nat.sub_le s maxScale)
    rwa [hs] at hmoved
  have hshort : (p / 10 ^ s : ℚ) * 10 ^ maxScale < 2 ^ 64 := by
    rw [hscaled]
    exact (div_pow_le (by positivity) _).trans_lt hcast
  rw [roundedMagnitude_of_short (by positivity) hshort]
  by_cases hfar : s > 47
  · have htiny : (p / 10 ^ s : ℚ) * 10 ^ maxScale < 1 / 2 := by
      rw [hscaled, div_lt_iff₀ (by positivity)]
      have hpow : (10 : ℚ) ^ 20 ≤ 10 ^ (s - maxScale) :=
        pow_le_pow_right₀ (by norm_num) (by simp only [maxScale]; omega)
      linarith
    have hnothing : nearestEven ((p / 10 ^ s : ℚ) * 10 ^ maxScale) = 0 := by
      have hlow := (nearestEven_spec (x := (p / 10 ^ s : ℚ) * 10 ^ maxScale) (by positivity)).1
      have hlt : (nearestEven ((p / 10 ^ s : ℚ) * 10 ^ maxScale) : ℚ) < 1 := by linarith
      exact Nat.lt_one_iff.1 (by exact_mod_cast hlt)
    rw [if_pos hfar, hnothing]
    refine ⟨_, rfl, ?_⟩
    cases negative <;> simp [signed]
  · have hround : nearestEven ((p / 10 ^ s : ℚ) * 10 ^ maxScale) =
        roundHalfEven p (10 ^ (s - maxScale)) := by
      rw [hscaled, ← nearestEven_div (by positivity)]
      push_cast
      rfl
    have hle : roundHalfEven p (10 ^ (s - maxScale)) ≤ 2 ^ 64 := by
      rw [← hround]
      exact nearestEven_le (by positivity) (by exact_mod_cast hshort.le)
    rw [if_neg hfar, if_pos (by omega), hround]
    exact exists_ofUnits? negative (hle.trans_lt (by decide)) le_rfl

theorem mul?_spec (a b : Decimal) : IsRounding (a.toRat * b.toRat) (a.mul? b) := by
  simp only [mul?]
  by_cases hzero : (a.isZero || b.isZero) = true
  · have hproduct : a.toRat * b.toRat = Decimal.zero.toRat := by
      rw [toRat_zero]
      obtain h | h := Bool.or_eq_true_iff.1 hzero
      · rw [toRat_of_isZero h, zero_mul]
      · rw [toRat_of_isZero h, mul_zero]
    rw [if_pos hzero, hproduct]
    exact isRounding_toRat _
  rw [if_neg hzero]
  have hvalue : a.toRat * b.toRat = signed (a.negative != b.negative)
      ((a.mantissa * b.mantissa : ℕ) / 10 ^ (a.scale + b.scale)) := by
    rw [toRat_eq_signed, toRat_eq_signed, ← signed_mul, div_mul_div_comm, ← pow_add, Nat.cast_mul]
  rw [hvalue]
  generalize (a.negative != b.negative) = negative
  generalize a.scale + b.scale = s
  by_cases hshort : a.mantissa < Nat.pow 2 32 ∧ b.mantissa < Nat.pow 2 32
  · have hproduct : a.mantissa * b.mantissa < 2 ^ 32 * 2 ^ 32 :=
      Nat.mul_lt_mul'' hshort.1 hshort.2
    rw [if_pos hshort]
    exact isRounding_short negative hproduct
  · rw [if_neg hshort]
    exact isRounding_of_fit (exists_ofParts? negative) _ _

/-! ### Powers of ten -/

/-- Moving the point of a mantissa loses no digits, as long as the number is not too large. -/
theorem roundedMagnitude_mul_pow {k : ℕ} (hm : m < mantissaBound) (hs : s ≤ maxScale)
    (hlimit : (m / 10 ^ s : ℚ) * 10 ^ k < decimalLimit) :
    roundedMagnitude (m / 10 ^ s * 10 ^ k) = m / 10 ^ s * 10 ^ k := by
  obtain hk | hk := Nat.le_total k s
  · have hmoved := div_pow_mul_pow (m := m) (Nat.sub_le s k)
    rw [Nat.sub_sub_self hk] at hmoved
    rw [hmoved, roundedMagnitude_eq_self ((Nat.sub_le s k).trans hs) hm]
  · have hwhole : (m / 10 ^ s : ℚ) * 10 ^ k = (m * 10 ^ (k - s) : ℕ) / 10 ^ 0 := by
      have hsplit : (10 : ℚ) ^ k = 10 ^ (k - s) * 10 ^ s := by rw [← pow_add, Nat.sub_add_cancel hk]
      rw [hsplit]
      push_cast
      field_simp
    have hlt : m * 10 ^ (k - s) < mantissaBound := by
      rw [hwhole, pow_zero, div_one] at hlimit
      exact_mod_cast hlimit.trans limit_lt_bound
    rw [hwhole, roundedMagnitude_eq_self (Nat.zero_le _) hlt]

/-- Multiplying by a power of ten is exact, for mantissas of any length. -/
theorem mul?_pow_ten {a f p : Decimal} {k : ℕ} (hf : IsNat f (10 ^ k))
    (h : a.mul? f = some p) : p.toRat = 10 ^ k * a.toRat := by
  have hrounding := mul?_spec a f
  have hvalue : a.toRat * f.toRat = signed a.negative (a.mantissa / 10 ^ a.scale * 10 ^ k) := by
    have hmul := signed_mul a.negative false (a.mantissa / 10 ^ a.scale) (10 ^ k)
    rw [Bool.bne_false] at hmul
    rw [hmul, toRat_eq_signed, hf.toRat]
    push_cast
    rfl
  rw [h] at hrounding
  obtain ⟨hlimit, hp⟩ := of_isRounding_some hrounding
  rw [hvalue, abs_signed _ (by positivity)] at hlimit
  rw [hp, hvalue, rounded_signed _ (by positivity),
    roundedMagnitude_mul_pow a.mantissa_lt a.scale_le hlimit, ← hvalue, hf.toRat, mul_comm]
  push_cast
  rfl

/-- A number times a power of ten is there unless it is too large. -/
theorem exists_mul?_pow_ten_iff {a f : Decimal} {k : ℕ} (hf : IsNat f (10 ^ k)) :
    (∃ p, a.mul? f = some p) ↔ |10 ^ k * a.toRat| < decimalLimit := by
  have hrounding := mul?_spec a f
  have hproduct : a.toRat * f.toRat = 10 ^ k * a.toRat := by
    rw [hf.toRat, mul_comm, Nat.cast_pow, Nat.cast_ofNat]
  rw [hproduct] at hrounding
  constructor
  · rintro ⟨p, hp⟩
    rw [hp] at hrounding
    exact (of_isRounding_some hrounding).1
  · intro hlimit
    obtain ⟨p, hp, -⟩ := exists_of_isRounding hrounding hlimit
    exact ⟨p, hp⟩

end MarkovFit.Proofs
