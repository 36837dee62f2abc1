import MarkovFit.Decimal.Rounding

/-!
# The parts of a double

A double is a sign, an integer of at most 53 bits and a power of two, or an infinity, or no number.
`parts` takes a double apart and `nearest` is the double nearest to a fraction of natural numbers,
a tie going to the even one.
-/

namespace MarkovFit.Double

/-- What a double denotes; a finite one is `± significand * 2 ^ exponent`. -/
inductive Parts where
  | nan
  | infinite (negative : Bool)
  | finite (negative : Bool) (significand : Nat) (exponent : Int)
deriving DecidableEq, Repr

/-- The parts of a double. The leading bit of a normal number is part of the significand. -/
def parts (x : Float) : Parts :=
  let bits := x.toBits.toNat
  let negative := decide (Nat.pow 2 63 ≤ bits)
  let biased : Nat := bits / Nat.pow 2 52 % Nat.pow 2 11
  let fraction : Nat := bits % Nat.pow 2 52
  if biased = 2047 then if fraction = 0 then .infinite negative else .nan
  else if biased = 0 then .finite negative fraction (-1074)
  else .finite negative (Nat.pow 2 52 + fraction) ((biased : Int) - 1075)

/-- The double of a sign and of the 63 bits below it. -/
def ofMagnitudeBits (negative : Bool) (bits : Nat) : Float :=
  Float.ofBits (UInt64.ofNat (if negative then Nat.pow 2 63 + bits else bits))

/-- The double infinity. -/
def infinity (negative : Bool) : Float := ofMagnitudeBits negative (2047 * Nat.pow 2 52)

/-- The double that is no number. -/
def noNumber (negative : Bool) : Float :=
  ofMagnitudeBits negative (2047 * Nat.pow 2 52 + Nat.pow 2 51)

/-- The numerator and the denominator of `n / d * 2 ^ e`. -/
def scaleByPowerOfTwo (n d : Nat) (e : Int) : Nat × Nat :=
  if 0 ≤ e then (n * Nat.pow 2 e.toNat, d) else (n, d * Nat.pow 2 (-e).toNat)

/-- The exponent of the leading bit of the fraction `n / d`. -/
def leadingExponent (n d : Nat) : Int :=
  let k := (n.log2 : Int) - d.log2
  let (n, d) := scaleByPowerOfTwo n d (-k)
  if n < d then k - 1 else k

/-- The double nearest to the fraction `n / d`, a tie going to the even significand; beyond the
largest finite double it is infinite. -/
def nearest (negative : Bool) (n d : Nat) : Float :=
  if n = 0 ∨ d = 0 then ofMagnitudeBits negative 0
  else
    let e := max (leadingExponent n d - 52) (-1074)
    let (n, d) := scaleByPowerOfTwo n d (-e)
    let m := roundHalfEven n d
    let bits := if m < Nat.pow 2 52 then m else (e + 1074).toNat * Nat.pow 2 52 + m
    ofMagnitudeBits negative (Nat.min bits (2047 * Nat.pow 2 52))

/-- The double nearest to a natural number. -/
def ofNat (n : Nat) : Float := nearest false n 1

/-- The integer nearest to `n / d`; of two, the greater one. -/
def roundHalfUp (n d : Nat) : Nat := if 2 * (n % d) < d then n / d else n / d + 1

/-- The integer nearest to a double, a half going away from zero. The sign of zero is kept. -/
def roundToInteger (x : Float) : Float :=
  match parts x with
  | .nan => noNumber false
  | .infinite negative => infinity negative
  | .finite negative m e =>
    let (n, d) := scaleByPowerOfTwo m 1 e
    nearest negative (roundHalfUp n d) 1

/-- The natural number below `2 ^ 64` that is left when the fraction of a double is cut; too large
ones give the greatest, negative ones and those that are no number give zero. -/
def toNatSaturating (x : Float) : Nat :=
  match parts x with
  | .nan => 0
  | .infinite negative => if negative then 0 else Nat.pow 2 64 - 1
  | .finite negative m e =>
    if negative then 0
    else
      let (n, d) := scaleByPowerOfTwo m 1 e
      Nat.min (n / d) (Nat.pow 2 64 - 1)

end MarkovFit.Double
