import Mathlib
import MarkovFit.Double.Parts

/-!
# The order of doubles

A double that is a number has a rank, and doubles are compared by their ranks. So the order of those
that are numbers is total up to the sign of zero. Sums, products and quotients of numbers with a sign
are numbers with a sign, apart from the few forms that denote nothing.
-/

namespace MarkovFit.Proofs

open Float.Model Float.Model.UnpackedFloat

/-! ### Numbers with a sign -/

/-- The datum is a number and has the sign. -/
def HasSign (sign : Sign) : UnpackedFloat → Prop
  | .notANumber => False
  | .infinity s | .zero s | .finite s _ _ _ => s = sign

/-- The datum is positive and finite. -/
def IsRegular : UnpackedFloat → Prop
  | .finite .positive _ _ _ => True
  | _ => False

instance : DecidablePred IsRegular
  | .finite .positive _ _ _ => .isTrue trivial
  | .finite .negative _ _ _ | .notANumber | .infinity _ | .zero _ => .isFalse id

variable {s t : Sign} {u v : UnpackedFloat}

theorem hasSign_roundWithAccuracy (m : Nat) (e : Int) (accuracy : Accuracy) :
    HasSign s (roundWithAccuracy .binary64 s m e accuracy) := by
  simp only [roundWithAccuracy]
  split
  · rfl
  · rfl

theorem hasSign_neg (h : HasSign s u) : HasSign (-s) u.neg := by
  cases u with
  | notANumber => exact h
  | infinity _ | zero _ | finite _ _ _ _ => exact congrArg _ h

/-- The exact sum of two positive numbers is positive, and rounding keeps the sign. -/
theorem hasSign_add (hu : HasSign .positive u) (hv : HasSign .positive v) :
    HasSign .positive (UnpackedFloat.add .binary64 u v) := by
  cases u <;> cases v <;> cases hu <;> cases hv <;> try rfl
  case finite.finite.refl.refl m e hm n f hn =>
    have hsum : 0 < Sign.positive.apply (decreaseExponent m e (min e f)).1 +
        Sign.positive.apply (decreaseExponent n f (min e f)).1 := by
      simp only [Sign.apply, decreaseExponent, Nat.shiftLeft_eq]
      positivity
    simp only [UnpackedFloat.add, UnpackedFloat.normalize, Int.compare_eq_gt.2 hsum]
    exact hasSign_roundWithAccuracy _ _ _

theorem hasSign_mul (hu : HasSign s u) (hv : IsRegular v) :
    HasSign (s * .positive) (UnpackedFloat.mul .binary64 u v) := by
  rcases v with _ | _ | _ | ⟨_ | _, n, f, hn⟩ <;> try exact hv.elim
  cases u <;> cases hu <;> try rfl
  exact hasSign_roundWithAccuracy _ _ _

theorem hasSign_div (hu : HasSign s u) (hv : IsRegular v) :
    HasSign (s / .positive) (UnpackedFloat.div .binary64 u v) := by
  rcases v with _ | _ | _ | ⟨_ | _, n, f, hn⟩ <;> try exact hv.elim
  cases u <;> cases hu <;> try rfl
  exact hasSign_roundWithAccuracy _ _ _

/-! ### Packed numbers -/

/-- The greatest exponent is left to infinity. -/
theorem hasSign_packComponents {e : BitVec 11} {m : BitVec 52} (h : e = -1#_ → m = 0#_) :
    HasSign s (UnpackedFloat.unpack .binary64 (packComponents .binary64 s e m)) := by
  simp only [UnpackedFloat.unpack, unpackExponent_packComponents, unpackMantissa_packComponents,
    unpackSign_packComponents, Sign.ofBitVec_toBitVec]
  by_cases he : e = -1#_
  · rw [if_pos he, if_pos (h he)]
    rfl
  · rw [if_neg he]
    split
    · split
      · rfl
      · rfl
    · rfl

theorem hasSign_pack (h : HasSign s u) :
    HasSign s (UnpackedFloat.unpack .binary64 (UnpackedFloat.pack .binary64 u)) := by
  cases u with
  | notANumber => exact h.elim
  | infinity _ =>
    cases h
    exact hasSign_packComponents fun _ => rfl
  | zero _ =>
    cases h
    exact hasSign_packComponents fun _ => rfl
  | finite _ m e _ =>
    cases h
    rw [UnpackedFloat.pack]
    split
    · exact hasSign_packComponents fun _ => rfl
    · rename_i hexponent
      generalize (e + Format.binary64.exponentBias + 52).toNat = biased at hexponent
      have hsmall : biased + 1 < 2 ^ 11 := Nat.lt_of_not_le hexponent
      split
      · refine hasSign_packComponents fun he => absurd he ?_
        intro he
        have hbits : biased % 2 ^ 11 = 2 ^ 11 - 1 := congrArg BitVec.toNat he
        omega
      · exact hasSign_packComponents fun he => absurd he (by decide)

/-! ### Ranks -/

/-- The place of a number in the order: numbers of one sign are compared by exponent first. -/
def rank : UnpackedFloat → ℤ ×ₗ ℤ ×ₗ ℤ
  | .infinity .negative => toLex (-2, toLex (0, 0))
  | .finite .negative m e _ => toLex (-1, toLex (-e, -m))
  | .zero _ | .notANumber => toLex (0, toLex (0, 0))
  | .finite .positive m e _ => toLex (1, toLex (e, m))
  | .infinity .positive => toLex (2, toLex (0, 0))

theorem lexicographic_eq_lt {e f : Int} {m n : Nat} :
    (compare e f).then (compare m n) = .lt ↔ e < f ∨ e = f ∧ m < n := by
  rw [Ordering.then_eq_lt, compare_lt_iff_lt, compare_eq_iff_eq, compare_lt_iff_lt]

theorem lexicographic_eq_gt {e f : Int} {m n : Nat} :
    (compare e f).then (compare m n) = .gt ↔ f < e ∨ e = f ∧ n < m := by
  rw [Ordering.then_eq_gt, compare_gt_iff_gt, compare_eq_iff_eq, compare_gt_iff_gt]

theorem lt_iff_rank_lt (hu : HasSign s u) (hv : HasSign t v) :
    UnpackedFloat.lt u v = true ↔ rank u < rank v := by
  cases u <;> cases v <;> cases hu <;> cases hv <;> cases s <;> cases t <;>
    simp [UnpackedFloat.lt, UnpackedFloat.compare, rank, Prod.Lex.toLex_lt_toLex,
      lexicographic_eq_lt, lexicographic_eq_gt]
  case infinity.infinity => rfl

/-! ### Doubles with a sign -/

variable {x y z : Float}

/-- What a double is made of. -/
def datum (x : Float) : UnpackedFloat := x.toModel.unpack

/-- The double is a number with the sign. -/
def Signed (sign : Sign) (x : Float) : Prop := HasSign sign (datum x)

theorem Signed.add (hx : Signed .positive x) (hy : Signed .positive y) :
    Signed .positive (x + y) :=
  hasSign_pack (hasSign_add hx hy)

theorem Signed.mul (hx : Signed s x) (hy : IsRegular (datum y)) :
    Signed (s * .positive) (x * y) :=
  hasSign_pack (hasSign_mul hx hy)

theorem Signed.div (hx : Signed s x) (hy : IsRegular (datum y)) :
    Signed (s / .positive) (x / y) :=
  hasSign_pack (hasSign_div hx hy)

theorem Signed.neg (hx : Signed s x) : Signed (-s) (-x) :=
  hasSign_pack (hasSign_neg hx)

theorem Signed.lt_iff (hx : Signed s x) (hy : Signed t y) :
    x < y ↔ rank (datum x) < rank (datum y) := by
  rw [← lt_iff_rank_lt hx hy]
  exact decide_eq_true_iff

/-! ### Rounded fractions -/

/-- The sign of a double that is made from its bits. -/
def signOf (negative : Bool) : Sign := if negative then .negative else .positive

/-- The bits of a double are its sign, its exponent and its significand. -/
theorem bits_eq_packComponents (negative : Bool) {bits : Nat} (hbits : bits < 2 ^ 63) :
    BitVec.ofNat 64 (if negative then 2 ^ 63 + bits else bits) =
      packComponents .binary64 (signOf negative) (BitVec.ofNat 11 (bits / 2 ^ 52))
        (BitVec.ofNat 52 bits) := by
  have happend : ∀ sign : BitVec 1,
      (sign ++ BitVec.ofNat 11 (bits / 2 ^ 52) ++ BitVec.ofNat 52 bits).toNat =
        sign.toNat * 2 ^ 63 + bits := by
    intro sign
    rw [BitVec.toNat_append, BitVec.toNat_append, ← Nat.shiftLeft_add_eq_or_of_lt (BitVec.isLt _),
      ← Nat.shiftLeft_add_eq_or_of_lt (BitVec.isLt _), BitVec.toNat_ofNat, BitVec.toNat_ofNat,
      Nat.shiftLeft_eq, Nat.shiftLeft_eq]
    omega
  apply BitVec.eq_of_toNat_eq
  rw [BitVec.toNat_ofNat, Nat.mod_eq_of_lt (by split <;> omega)]
  refine Eq.trans ?_ (happend _).symm
  cases negative <;> simp [signOf, Sign.toBitVec]

/-- Up to those of infinity, bits are those of a number. -/
theorem signed_ofMagnitudeBits (negative : Bool) {bits : Nat} (hbits : bits ≤ 2047 * 2 ^ 52) :
    Signed (signOf negative) (Double.ofMagnitudeBits negative bits) := by
  apply hasSign_pack
  have hword : (UInt64.ofNat (if negative then Nat.pow 2 63 + bits else bits)).toBitVec =
      packComponents .binary64 (signOf negative) (BitVec.ofNat 11 (bits / 2 ^ 52))
        (BitVec.ofNat 52 bits) :=
    bits_eq_packComponents negative (by omega)
  rw [hword]
  apply hasSign_packComponents
  intro he
  have hexponent : bits / 2 ^ 52 % 2 ^ 11 = 2 ^ 11 - 1 := congrArg BitVec.toNat he
  apply BitVec.eq_of_toNat_eq
  rw [BitVec.toNat_ofNat, BitVec.toNat_zero]
  omega

theorem signed_nearest (negative : Bool) (n d : Nat) :
    Signed (signOf negative) (Double.nearest negative n d) := by
  rw [Double.nearest]
  split
  · exact signed_ofMagnitudeBits negative (Nat.zero_le _)
  · exact signed_ofMagnitudeBits negative (Nat.min_le_right _ _)

/-! ### Parts -/

theorem toNat_unpackExponent (b : BitVec 64) :
    (@unpackExponent .binary64 b).toNat = b.toNat / 2 ^ 52 % 2 ^ 11 := by
  simp [unpackExponent, Nat.shiftRight_eq_div_pow]

theorem toNat_unpackMantissa (b : BitVec 64) :
    (@unpackMantissa .binary64 b).toNat = b.toNat % 2 ^ 52 := by
  simp [unpackMantissa]

/-- A number has parts. -/
theorem parts_ne_nan (hx : Signed s x) : Double.parts x ≠ .nan := by
  intro hparts
  have hbits : x.toBits.toNat / 2 ^ 52 % 2 ^ 11 = 2047 ∧ x.toBits.toNat % 2 ^ 52 ≠ 0 := by
    rw [Double.parts] at hparts
    split at hparts
    · rename_i hexponent
      split at hparts
      · cases hparts
      · rename_i hfraction
        exact ⟨hexponent, hfraction⟩
    · split at hparts <;> cases hparts
  have hexponent : @unpackExponent .binary64 x.toModel.toBits.toBitVec = -1#_ := by
    apply BitVec.eq_of_toNat_eq
    rw [toNat_unpackExponent]
    exact hbits.1
  have hfraction : @unpackMantissa .binary64 x.toModel.toBits.toBitVec ≠ 0#_ := by
    intro hzero
    apply hbits.2
    have hnat := congrArg BitVec.toNat hzero
    rwa [toNat_unpackMantissa] at hnat
  have hnan : datum x = .notANumber := by
    rw [datum, Float.Model.unpack, UnpackedFloat.unpack, if_pos hexponent, if_neg hfraction]
  rw [Signed, hnan] at hx
  exact hx

theorem signed_roundToInteger (hx : Signed s x) :
    ∃ t, Signed t (Double.roundToInteger x) := by
  rw [Double.roundToInteger]
  split
  · rename_i hparts
    exact absurd hparts (parts_ne_nan hx)
  · exact ⟨_, signed_ofMagnitudeBits _ (Nat.le_refl _)⟩
  · exact ⟨_, signed_nearest _ _ _⟩

end MarkovFit.Proofs
