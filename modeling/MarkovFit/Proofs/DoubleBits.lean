import MarkovFit.Proofs.DecimalScaling
import MarkovFit.Proofs.DoubleOrder

/-!
# The bits of doubles

Without their sign, the bits of a double are a natural number up to that of infinity. They say which
double it is, and doubles that are not negative are ordered as their bits.
-/

namespace MarkovFit.Proofs

open Float.Model Float.Model.UnpackedFloat

/-! ### Taking bits apart -/

/-- The bits of infinity, without the sign. -/
def infinityBits : Nat := 2047 * 2 ^ 52

/-- The datum with a sign and with bits up to those of infinity. A leading bit is added except below
`2 ^ 52`. -/
def ofMagnitude (s : Sign) (bits : Nat) : UnpackedFloat :=
  if h : bits = 0 then .zero s
  else if bits < 2 ^ 52 then .finite s bits (-1074) (Nat.pos_of_ne_zero h)
  else if bits < infinityBits then
    .finite s (2 ^ 52 + bits % 2 ^ 52) ((bits / 2 ^ 52 : Nat) - 1075) (by positivity)
  else .infinity s

variable {s : Sign} {bits : Nat}

theorem finite_congr {m n : Nat} {e f : Int} {hm : 0 < m} {hn : 0 < n} (hmn : m = n) (hef : e = f) :
    UnpackedFloat.finite s m e hm = .finite s n f hn := by
  subst hmn hef
  rfl

theorem toNat_one_append (m : BitVec 52) : (1#1 ++ m).toNat = 2 ^ 52 + m.toNat := by
  rw [BitVec.toNat_append, ← Nat.shiftLeft_add_eq_or_of_lt m.isLt]
  rfl

theorem unpack_packComponents (hbits : bits ≤ infinityBits) :
    UnpackedFloat.unpack .binary64
        (packComponents .binary64 s (BitVec.ofNat 11 (bits / 2 ^ 52)) (BitVec.ofNat 52 bits)) =
      ofMagnitude s bits := by
  obtain hinfinite | hbits := hbits.eq_or_lt
  · subst hinfinite
    cases s <;> rfl
  have hbelow : bits < 2047 * 2 ^ 52 := hbits
  have hexponent : (BitVec.ofNat 11 (bits / 2 ^ 52)).toNat = bits / 2 ^ 52 := by
    rw [BitVec.toNat_ofNat]
    omega
  have hfraction : (BitVec.ofNat 52 bits).toNat = bits % 2 ^ 52 := BitVec.toNat_ofNat _ _
  have hfinite : BitVec.ofNat 11 (bits / 2 ^ 52) ≠ -1#11 := by
    intro h
    have hnat : (BitVec.ofNat 11 (bits / 2 ^ 52)).toNat = 2047 := congrArg BitVec.toNat h
    omega
  have hexponentZero : BitVec.ofNat 11 (bits / 2 ^ 52) = 0#11 ↔ bits < 2 ^ 52 := by
    rw [← BitVec.toNat_inj, hexponent, BitVec.toNat_zero]
    omega
  have hfractionZero : BitVec.ofNat 52 bits = 0#52 ↔ bits % 2 ^ 52 = 0 := by
    rw [← BitVec.toNat_inj, hfraction, BitVec.toNat_zero]
  have hbias : ((Format.binary64.exponentBias : Nat) : Int) = 1023 := rfl
  have hwidth : ((Format.binary64.mantissaBitsWithoutImplicit : Nat) : Int) = 52 := rfl
  simp only [UnpackedFloat.unpack, unpackExponent_packComponents, unpackMantissa_packComponents,
    unpackSign_packComponents, Sign.ofBitVec_toBitVec, if_neg hfinite, ofMagnitude, hexponentZero,
    hfractionZero, hbias, hwidth]
  by_cases hsmall : bits < 2 ^ 52
  · rw [if_pos hsmall]
    by_cases hzero : bits = 0
    · rw [dif_pos (by omega), dif_pos hzero]
    · rw [dif_neg (by omega), dif_neg hzero, if_pos hsmall]
      apply finite_congr
      · omega
      · omega
  · rw [if_neg hsmall, dif_neg (by omega), if_neg hsmall, if_pos hbits]
    apply finite_congr
    · rw [toNat_one_append, hfraction]
    · omega

/-- The datum of some bits is packed into these bits. -/
theorem pack_ofMagnitude (hbits : bits ≤ infinityBits) :
    UnpackedFloat.pack .binary64 (ofMagnitude s bits) =
      packComponents .binary64 s (BitVec.ofNat 11 (bits / 2 ^ 52)) (BitVec.ofNat 52 bits) := by
  obtain hinfinite | hbits := hbits.eq_or_lt
  · subst hinfinite
    cases s <;> rfl
  have hbelow : bits < 2047 * 2 ^ 52 := hbits
  have hbias : ((Format.binary64.exponentBias : Nat) : Int) = 1023 := rfl
  have hwidth : ((Format.binary64.mantissaBitsWithoutImplicit : Nat) : Int) = 52 := rfl
  have hmantissaBits : Format.binary64.mantissaBits = 53 := rfl
  rw [ofMagnitude]
  by_cases hzero : bits = 0
  · rw [dif_pos hzero, hzero]
    rfl
  · rw [dif_neg hzero]
    by_cases hsmall : bits < 2 ^ 52
    · have hlog : bits.log2 < 52 := (Nat.log2_lt hzero).2 hsmall
      have hexponent : bits / 2 ^ 52 = 0 := Nat.div_eq_of_lt hsmall
      rw [if_pos hsmall, UnpackedFloat.pack, if_neg (by decide), if_neg (by omega), hexponent]
    · have hlog : (2 ^ 52 + bits % 2 ^ 52).log2 = 52 := by
        rw [Nat.log2_eq_iff (by omega)]
        omega
      have hbiased : ((bits / 2 ^ 52 : Nat) - 1075 + (Format.binary64.exponentBias : Nat) +
          (Format.binary64.mantissaBitsWithoutImplicit : Nat) : Int).toNat = bits / 2 ^ 52 := by
        omega
      have hlarge : ¬2 ^ Format.binary64.exponentBits ≤ bits / 2 ^ 52 + 1 := by
        rw [show 2 ^ Format.binary64.exponentBits = 2048 from rfl]
        omega
      simp only [if_neg hsmall, if_pos hbits, UnpackedFloat.pack, hbiased, if_neg hlarge, hlog,
        hmantissaBits, if_true]
      congr 1
      apply BitVec.eq_of_toNat_eq
      simp

/-! ### Doubles from their bits -/

variable {negative : Bool} {bits' : Nat}

theorem toModel_ofMagnitudeBits (hbits : bits ≤ infinityBits) :
    (Double.ofMagnitudeBits negative bits).toModel =
      Float.Model.pack (ofMagnitude (signOf negative) bits) := by
  have hword : (UInt64.ofNat (if negative then Nat.pow 2 63 + bits else bits)).toBitVec =
      packComponents .binary64 (signOf negative) (BitVec.ofNat 11 (bits / 2 ^ 52))
        (BitVec.ofNat 52 bits) := by
    apply bits_eq_packComponents
    rw [infinityBits] at hbits
    omega
  rw [← unpack_packComponents hbits, ← hword]
  rfl

theorem toNat_toBits_ofMagnitudeBits (hbits : bits ≤ infinityBits) :
    (Double.ofMagnitudeBits negative bits).toBits.toNat =
      if negative then 2 ^ 63 + bits else bits := by
  have hlt : bits < 2 ^ 63 := by
    rw [infinityBits] at hbits
    omega
  have hpack : (Double.ofMagnitudeBits negative bits).toBits.toNat =
      (UnpackedFloat.pack .binary64 (ofMagnitude (signOf negative) bits)).toNat :=
    congrArg (fun m : Float.Model => m.toBits.toNat) (toModel_ofMagnitudeBits hbits)
  rw [hpack, pack_ofMagnitude hbits, ← bits_eq_packComponents negative hlt]
  refine (BitVec.toNat_ofNat _ 64).trans (Nat.mod_eq_of_lt ?_)
  split <;> omega

theorem datum_ofMagnitudeBits (hbits : bits ≤ infinityBits) :
    datum (Double.ofMagnitudeBits negative bits) = ofMagnitude (signOf negative) bits := by
  rw [← unpack_packComponents hbits, ← pack_ofMagnitude hbits, datum, toModel_ofMagnitudeBits hbits]
  rfl

/-- Doubles are ordered as their bits with their signs: the exponent stands above the significand,
and the leading bit above that makes up for the first exponent. -/
theorem rank_ofMagnitude_lt_iff {t : Sign} (hbits : bits ≤ infinityBits)
    (hbits' : bits' ≤ infinityBits) :
    rank (ofMagnitude s bits) < rank (ofMagnitude t bits') ↔ s.apply bits < t.apply bits' := by
  rw [infinityBits] at hbits hbits'
  unfold ofMagnitude infinityBits
  cases s <;> cases t <;> split_ifs <;>
    simp [rank, Prod.Lex.toLex_lt_toLex, Sign.apply] <;> omega

theorem parts_ofMagnitudeBits (hbits : bits < infinityBits) :
    Double.parts (Double.ofMagnitudeBits negative bits) =
      if bits < 2 ^ 52 then .finite negative bits (-1074)
      else .finite negative (2 ^ 52 + bits % 2 ^ 52) ((bits / 2 ^ 52 : Nat) - 1075) := by
  have hbelow : bits < 2047 * 2 ^ 52 := hbits
  obtain ⟨word, hword⟩ : ∃ word, word = if negative then 2 ^ 63 + bits else bits := ⟨_, rfl⟩
  have hsign : decide (Nat.pow 2 63 ≤ word) = negative := by
    cases negative
    · simp [hword]
      omega
    · simp [hword]
  have hexponent : word / Nat.pow 2 52 % Nat.pow 2 11 = bits / 2 ^ 52 := by
    simp only [Nat.pow_eq]
    split at hword <;> omega
  have hfraction : word % Nat.pow 2 52 = bits % 2 ^ 52 := by
    simp only [Nat.pow_eq]
    split at hword <;> omega
  simp only [Double.parts, toNat_toBits_ofMagnitudeBits hbits.le, ← hword, hsign, hexponent,
    hfraction]
  rw [if_neg (by omega)]
  by_cases hsmall : bits < 2 ^ 52
  · rw [if_pos (by omega), if_pos hsmall, Nat.mod_eq_of_lt hsmall]
  · rw [if_neg (by omega), if_neg hsmall]
    rfl

/-! ### Opposite doubles -/

theorem neg_ofMagnitude : (ofMagnitude (signOf negative) bits).neg = ofMagnitude (signOf !negative) bits := by
  unfold ofMagnitude
  cases negative <;> split_ifs <;> rfl

theorem neg_ofMagnitudeBits (hbits : bits ≤ infinityBits) :
    -Double.ofMagnitudeBits negative bits = Double.ofMagnitudeBits (!negative) bits := by
  have hdatum : (Double.ofMagnitudeBits negative bits).toModel.unpack =
      ofMagnitude (signOf negative) bits := datum_ofMagnitudeBits hbits
  have hneg : (-Double.ofMagnitudeBits negative bits).toModel =
      Float.Model.pack (ofMagnitude (signOf !negative) bits) := by
    rw [← neg_ofMagnitude, ← hdatum]
    rfl
  have hopposite : (Double.ofMagnitudeBits (!negative) bits).toModel =
      Float.Model.pack (ofMagnitude (signOf !negative) bits) := toModel_ofMagnitudeBits hbits
  exact congrArg Float.ofModel (hneg.trans hopposite.symm)

/-- A number is made from its sign and its bits. -/
theorem exists_eq_ofMagnitudeBits {x : Float} (hx : Signed s x) :
    ∃ negative bits, bits ≤ infinityBits ∧ x = Double.ofMagnitudeBits negative bits := by
  obtain ⟨word, hword⟩ : ∃ word, word = x.toBits.toNat := ⟨_, rfl⟩
  have hlt : word < 2 ^ 64 := hword ▸ x.toBits.toNat_lt
  have hbits : word % 2 ^ 63 ≤ infinityBits := by
    by_contra hlarge
    apply parts_ne_nan hx
    rw [infinityBits] at hlarge
    simp only [Double.parts, ← hword, Nat.pow_eq]
    rw [if_pos (by omega), if_neg (by omega)]
  refine ⟨decide (2 ^ 63 ≤ word), word % 2 ^ 63, hbits, ?_⟩
  rw [← Float.toBits_inj, ← UInt64.toNat_inj]
  rw [toNat_toBits_ofMagnitudeBits hbits, ← hword]
  split
  · rename_i hnegative
    have hle := of_decide_eq_true hnegative
    omega
  · rename_i hpositive
    have hgt : ¬2 ^ 63 ≤ word := fun hle => hpositive (decide_eq_true hle)
    omega

theorem neg_lt_neg_iff_of_signed {t : Sign} {x y : Float} (hx : Signed s x) (hy : Signed t y) :
    -x < -y ↔ y < x := by
  rw [hx.neg.lt_iff hy.neg, hy.lt_iff hx]
  obtain ⟨negative, bits, hbits, rfl⟩ := exists_eq_ofMagnitudeBits hx
  obtain ⟨negative', bits', hbits', rfl⟩ := exists_eq_ofMagnitudeBits hy
  rw [neg_ofMagnitudeBits hbits, neg_ofMagnitudeBits hbits']
  simp only [datum_ofMagnitudeBits, hbits, hbits', rank_ofMagnitude_lt_iff]
  cases negative <;> cases negative' <;> simp [signOf, Sign.apply] <;> omega

/-! ### Doubles of fractions -/

variable {n k : Nat}

/-- A natural number of at most 53 bits, moved to the place of the leading bit. -/
def aligned (n : Nat) : Nat := n * 2 ^ (52 - n.log2)

theorem aligned_bounds (hpos : n ≠ 0) (hn : n < 2 ^ 53) :
    2 ^ 52 ≤ aligned n ∧ aligned n < 2 ^ 53 := by
  have hlog : n.log2 < 53 := (Nat.log2_lt hpos).2 hn
  have hsplit : 2 ^ 52 = 2 ^ n.log2 * 2 ^ (52 - n.log2) := by
    rw [← Nat.pow_add]
    congr 1
    omega
  constructor
  · rw [hsplit]
    exact Nat.mul_le_mul_right _ (Nat.log2_self_le hpos)
  · have hlt : n < 2 ^ (n.log2 + 1) := Nat.lt_log2_self
    calc aligned n < 2 ^ (n.log2 + 1) * 2 ^ (52 - n.log2) :=
          Nat.mul_lt_mul_of_pos_right hlt (Nat.two_pow_pos _)
      _ = 2 ^ 53 := by rw [Nat.pow_succ, Nat.mul_right_comm, ← hsplit, ← Nat.pow_succ]

theorem scaleByPowerOfTwo_up (d : Nat) {e : Int} {places : Nat} (he : e = places) :
    Double.scaleByPowerOfTwo n d e = (n * 2 ^ places, d) := by
  subst he
  exact if_pos (Int.natCast_nonneg places)

theorem scaleByPowerOfTwo_down (d : Nat) {e : Int} {places : Nat} (he : e = -places) :
    Double.scaleByPowerOfTwo n d e = (n, d * 2 ^ places) := by
  subst he
  cases places with
  | zero => simp [Double.scaleByPowerOfTwo]
  | succ places =>
    rw [Double.scaleByPowerOfTwo, if_neg (by omega), Int.neg_neg]
    rfl

/-- The leading bit of `n / 2 ^ k` is that of `n`, moved by `k`. -/
theorem leadingExponent_div_pow (hpos : n ≠ 0) :
    Double.leadingExponent n (2 ^ k) = (n.log2 : Int) - k := by
  have hlog : 2 ^ n.log2 ≤ n := Nat.log2_self_le hpos
  by_cases hle : n.log2 ≤ k
  · have hleading : 2 ^ k ≤ n * 2 ^ (k - n.log2) :=
      calc 2 ^ k = 2 ^ n.log2 * 2 ^ (k - n.log2) := by rw [← Nat.pow_add, Nat.add_sub_cancel' hle]
        _ ≤ n * 2 ^ (k - n.log2) := Nat.mul_le_mul_right _ hlog
    have hshift : -((n.log2 : Int) - k) = (k - n.log2 : Nat) := by omega
    simp only [Double.leadingExponent, Nat.log2_two_pow, scaleByPowerOfTwo_up _ hshift]
    exact if_neg (Nat.not_lt.2 hleading)
  · have hleading : 2 ^ k * 2 ^ (n.log2 - k) ≤ n := by
      rwa [← Nat.pow_add, Nat.add_sub_cancel' (Nat.le_of_not_le hle)]
    have hshift : -((n.log2 : Int) - k) = -(n.log2 - k : Nat) := by omega
    simp only [Double.leadingExponent, Nat.log2_two_pow, scaleByPowerOfTwo_down _ hshift]
    exact if_neg (Nat.not_lt.2 hleading)

/-- A fraction with at most 53 bits is a double. -/
theorem nearest_div_pow (hpos : n ≠ 0) (hn : n < 2 ^ 53) (hk : k ≤ 1022) :
    Double.nearest negative n (2 ^ k) =
      Double.ofMagnitudeBits negative ((n.log2 + 1022 - k) * 2 ^ 52 + aligned n) := by
  have hlog : n.log2 < 53 := (Nat.log2_lt hpos).2 hn
  obtain ⟨hleading, hwidth⟩ := aligned_bounds hpos hn
  have hexponent : max (Double.leadingExponent n (2 ^ k) - 52) (-1074) = (n.log2 : Int) - k - 52 := by
    rw [leadingExponent_div_pow hpos]
    omega
  have hshift : -((n.log2 : Int) - k - 52) = (52 - n.log2 + k : Nat) := by omega
  have hrounded : roundHalfEven (n * 2 ^ (52 - n.log2 + k)) (2 ^ k) = aligned n := by
    rw [Nat.pow_add, ← Nat.mul_assoc]
    exact roundHalfEven_mul_self _ (Nat.two_pow_pos k)
  have hbits : ((n.log2 : Int) - k - 52 + 1074).toNat = n.log2 + 1022 - k := by omega
  have hdefined : ¬(n = 0 ∨ 2 ^ k = 0) := by simp [hpos]
  simp only [Double.nearest, if_neg hdefined, hexponent, scaleByPowerOfTwo_up _ hshift, hrounded,
    hbits, Nat.pow_eq, if_neg (Nat.not_lt.2 hleading)]
  congr 1
  apply Nat.min_eq_left
  omega

/-! ### Doubles of natural numbers -/

/-- The bits of a natural number of at most 53 bits. -/
def naturalBits (n : Nat) : Nat := if n = 0 then 0 else (n.log2 + 1022) * 2 ^ 52 + aligned n

theorem ofNat_eq (hn : n < 2 ^ 53) :
    Double.ofNat n = Double.ofMagnitudeBits false (naturalBits n) := by
  rw [Double.ofNat, naturalBits]
  by_cases hpos : n = 0
  · rw [if_pos hpos, hpos]
    rfl
  · rw [if_neg hpos]
    exact nearest_div_pow hpos hn (Nat.zero_le 1022)

theorem naturalBits_le (hn : n < 2 ^ 53) : naturalBits n ≤ infinityBits := by
  rw [naturalBits, infinityBits]
  split
  · omega
  · rename_i hpos
    have hlog : n.log2 < 53 := (Nat.log2_lt hpos).2 hn
    have hwidth := (aligned_bounds hpos hn).2
    omega

theorem naturalBits_lt {n' : Nat} (hlt : n < n') (hn' : n' < 2 ^ 53) :
    naturalBits n < naturalBits n' := by
  have hpos' : n' ≠ 0 := by omega
  have hbounds' := aligned_bounds hpos' hn'
  by_cases hpos : n = 0
  · rw [naturalBits, if_pos hpos, naturalBits, if_neg hpos']
    omega
  · rw [naturalBits, if_neg hpos, naturalBits, if_neg hpos']
    have hbounds := aligned_bounds hpos (hlt.trans hn')
    have hlog : n.log2 ≤ n'.log2 := by
      rw [Nat.le_log2 hpos']
      exact (Nat.log2_self_le hpos).trans hlt.le
    obtain hlog | hlog := hlog.eq_or_lt
    · have haligned : aligned n < aligned n' := by
        rw [aligned, aligned, hlog]
        exact Nat.mul_lt_mul_of_pos_right hlt (Nat.two_pow_pos _)
      omega
    · omega

theorem naturalBits_lt_iff {n' : Nat} (hn : n < 2 ^ 53) (hn' : n' < 2 ^ 53) :
    naturalBits n < naturalBits n' ↔ n < n' := by
  constructor
  · intro hlt
    by_contra hge
    obtain heq | hlt' := (Nat.not_lt.1 hge).eq_or_lt
    · rw [heq] at hlt
      exact lt_irrefl _ hlt
    · exact lt_asymm hlt (naturalBits_lt hlt' hn)
  · intro hlt
    exact naturalBits_lt hlt hn'

theorem neg_ofNat (hn : n < 2 ^ 53) :
    -Double.ofNat n = Double.ofMagnitudeBits true (naturalBits n) := by
  rw [ofNat_eq hn, neg_ofMagnitudeBits (naturalBits_le hn)]
  rfl

end MarkovFit.Proofs
