/-!
# Decimal numbers

A decimal is a sign, a mantissa of 96 bits and a scale of at most 28 digits after the point. The
scale is part of the number: `1.5` and `1.50` are different decimals of one value. `toRat` is the
value as an exact rational; `compare` orders by value and sees neither scale nor the sign of zero.
-/

namespace MarkovFit

/-- A decimal number `± mantissa / 10 ^ scale`, with a mantissa below `2 ^ 96`. Zero may carry a
sign. -/
structure Decimal where
  negative : Bool
  mantissa : Nat
  scale : Nat
  mantissa_lt : mantissa < 79228162514264337593543950336 := by decide
  scale_le : scale ≤ 28 := by decide
deriving DecidableEq, Repr

namespace Decimal

/-- Mantissas are below this bound, `2 ^ 96`. -/
def mantissaBound : Nat := 79228162514264337593543950336

/-- The greatest number of digits after the point. -/
def maxScale : Nat := 28

def zero : Decimal := ⟨false, 0, 0, by decide, by decide⟩
def one : Decimal := ⟨false, 1, 0, by decide, by decide⟩
def two : Decimal := ⟨false, 2, 0, by decide, by decide⟩
def ten : Decimal := ⟨false, 10, 0, by decide, by decide⟩

/-- `10 ^ -places`, for at most 28 places: one unit of the last of them. -/
def unit (places : Nat) : Decimal :=
  ⟨false, 1, Nat.min places 28, by decide, Nat.min_le_right places 28⟩

instance : Inhabited Decimal := ⟨zero⟩

/-- The decimal with these parts, if they are in range; zero keeps the given sign. -/
def ofParts? (negative : Bool) (mantissa scale : Nat) : Option Decimal :=
  if hm : mantissa < 79228162514264337593543950336 then
    if hs : scale ≤ 28 then some ⟨negative, mantissa, scale, hm, hs⟩ else none
  else none

/-- The decimal with these parts, if they are in range; zero is made positive. -/
def ofUnits? (negative : Bool) (mantissa scale : Nat) : Option Decimal :=
  ofParts? (negative && mantissa != 0) mantissa scale

/-- A natural number as a decimal, if it has at most 96 bits. -/
def ofNat? (n : Nat) : Option Decimal := ofParts? false n 0

/-- An integer as a decimal, if its magnitude has at most 96 bits. -/
def ofInt? (n : Int) : Option Decimal := ofParts? (decide (n < 0)) n.natAbs 0

/-- The mantissa with its sign. -/
def signedMantissa (a : Decimal) : Int := if a.negative then -(a.mantissa : Int) else a.mantissa

/-- The value as an exact rational number. -/
def toRat (a : Decimal) : Rat := mkRat a.signedMantissa (Nat.pow 10 a.scale)

/-- The value in units of `10 ^ -scale`, for a scale not below that of the number. -/
def units (a : Decimal) (scale : Nat) : Int := a.signedMantissa * Nat.pow 10 (scale - a.scale)

def isZero (a : Decimal) : Bool := a.mantissa == 0

/-- Opposite sign, also of zero. -/
def neg (a : Decimal) : Decimal := { a with negative := !a.negative }

/-- Without the sign. -/
def abs (a : Decimal) : Decimal := { a with negative := false }

instance : Neg Decimal := ⟨neg⟩

/-- Comparison of the values. -/
def compare (a b : Decimal) : Ordering :=
  let scale := max a.scale b.scale
  Ord.compare (a.units scale) (b.units scale)

instance : Ord Decimal := ⟨compare⟩
instance : LT Decimal := ⟨fun a b => compare a b = .lt⟩
instance : LE Decimal := ⟨fun a b => compare a b ≠ .gt⟩
instance (a b : Decimal) : Decidable (a < b) := inferInstanceAs (Decidable (compare a b = .lt))
instance (a b : Decimal) : Decidable (a ≤ b) := inferInstanceAs (Decidable (compare a b ≠ .gt))

/-- Equality of the values: neither scale nor the sign of zero counts. -/
def SameValue (a b : Decimal) : Prop := compare a b = .eq

instance (a b : Decimal) : Decidable (a.SameValue b) :=
  inferInstanceAs (Decidable (compare a b = .eq))

/-- The smaller value; the first of two equal ones. -/
def min (a b : Decimal) : Decimal := if b < a then b else a

/-- Drops the trailing zeros of a fraction of `scale` digits. -/
def stripZeros (mantissa : Nat) : Nat → Nat × Nat
  | 0 => (mantissa, 0)
  | scale + 1 =>
    if mantissa % 10 = 0 then stripZeros (mantissa / 10) scale else (mantissa, scale + 1)

theorem stripZeros_fst_le (m s : Nat) : (stripZeros m s).1 ≤ m := by
  induction s generalizing m with
  | zero => simp [stripZeros]
  | succ s ih =>
    simp only [stripZeros]
    split
    · exact Nat.le_trans (ih _) (Nat.div_le_self _ _)
    · exact Nat.le_refl _

theorem stripZeros_snd_le (m s : Nat) : (stripZeros m s).2 ≤ s := by
  induction s generalizing m with
  | zero => simp [stripZeros]
  | succ s ih =>
    simp only [stripZeros]
    split
    · exact Nat.le_succ_of_le (ih _)
    · exact Nat.le_refl _

/-- The same value without trailing zeros in the fraction; zero loses its sign. -/
def normalize (a : Decimal) : Decimal :=
  if a.isZero then zero
  else
    { negative := a.negative
      mantissa := (stripZeros a.mantissa a.scale).1
      scale := (stripZeros a.mantissa a.scale).2
      mantissa_lt := Nat.lt_of_le_of_lt (stripZeros_fst_le _ _) a.mantissa_lt
      scale_le := Nat.le_trans (stripZeros_snd_le _ _) a.scale_le }

/-- The integer part, toward zero. The sign stays, even of a zero. -/
def trunc (a : Decimal) : Decimal :=
  { negative := a.negative
    mantissa := a.mantissa / Nat.pow 10 a.scale
    scale := 0
    mantissa_lt := Nat.lt_of_le_of_lt (Nat.div_le_self _ _) a.mantissa_lt }

/-- Whether the number has no fractional part. -/
def isInteger (a : Decimal) : Bool := a.mantissa % Nat.pow 10 a.scale == 0

/-- The least integer that is not below the number. A number of scale zero is kept as it is, and a
negative fraction above `-1` becomes a negative zero. -/
def ceil (a : Decimal) : Decimal :=
  if h : a.scale = 0 then a
  else if a.negative || a.isInteger then a.trunc
  else
    { negative := false
      mantissa := a.mantissa / Nat.pow 10 a.scale + 1
      scale := 0
      mantissa_lt := by
        have h10 : 10 ≤ Nat.pow 10 a.scale :=
          @Nat.pow_le_pow_right 10 (by decide) 1 a.scale (Nat.pos_of_ne_zero h)
        have hd : a.mantissa / Nat.pow 10 a.scale ≤ a.mantissa / 10 :=
          Nat.div_le_div_left h10 (by decide)
        have := a.mantissa_lt
        omega }

/-- The integer part, if it fits a signed number of 64 bits. -/
def toInt64? (a : Decimal) : Option Int :=
  let n := a.trunc.signedMantissa
  if -9223372036854775808 ≤ n ∧ n < 9223372036854775808 then some n else none

end Decimal
end MarkovFit
