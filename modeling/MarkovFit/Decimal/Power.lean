import MarkovFit.Decimal.Wide

/-!
# Powers, exponentials and logarithms of decimals

Whole powers are computed by repeated squaring, from exponent 1024 on with wide intermediate
results. A fractional power is the exponential of a logarithm; both are summed as series of at most
99 terms.
-/

namespace MarkovFit.Decimal

/-- Repeated squaring: `acc` times the powers `w ^ (2 ^ i)` for the bits `i` of `e`. -/
def squaring {α : Type} (mul : α → α → Option α) (e : Nat) (acc w : α) : Option α :=
  if e = 0 then some acc
  else do
    let acc ← if e % 2 = 1 then mul acc w else some acc
    if e / 2 = 0 then some acc
    else
      let w ← mul w w
      squaring mul (e / 2) acc w
termination_by e

/-- The power with a natural exponent. -/
def powNat? (a : Decimal) (e : Nat) : Option Decimal :=
  if e = 0 then some one
  else if a.isZero then some zero
  else if a.SameValue one then some one
  else if e = 1 then some a
  else if e = 2 then a.mul? a
  else if e < 1024 then (squaring mul? e one a).map normalize
  else
    ((squaring Wide.mul? e Wide.one (Wide.ofDecimal a)).bind Wide.toDecimal?).map normalize

/-- The power with an integer exponent; a negative one divides. -/
def powInt? (a : Decimal) (e : Int) : Option Decimal :=
  if 0 ≤ e then powNat? a e.toNat else (powNat? a (-e).toNat).bind one.div?

/-- Euler's number. -/
def euler : Decimal :=
  ⟨false, 27182818284590452353602874714, 28, by decide, by decide⟩

/-- The inverse of Euler's number. -/
def eulerInverse : Decimal :=
  ⟨false, 3678794411714423215955237702, 28, by decide, by decide⟩

/-- The natural logarithm of ten. -/
def lnTen : Decimal :=
  ⟨false, 2302585092994045684017991454, 27, by decide, by decide⟩

/-- The greatest number of terms that a series is summed for. -/
def maxTerms : Nat := 99

/-- Adds the terms `r ^ i / i!` to `sum`, where `term` is the one before the `i`-th. -/
def expSeries (r : Wide) : Nat → Nat → Wide → Wide → Option Wide
  | 0, _, _, sum => some sum
  | count + 1, i, term, sum => do
    let term ← r.mul? (term.divSmall i)
    let sum ← sum.add? term
    if term.negligible then some sum else expSeries r count (i + 1) term sum

/-- The exponential of a number that is not negative: a power of Euler's number for the whole part
times a series for the fraction. -/
def expPositive? (a : Decimal) : Option Decimal := do
  if a.isZero then some one
  else
    let whole := a.mantissa / Nat.pow 10 a.scale
    let rest ← a.sub? a.trunc
    let factor ←
      if rest.isZero then some Wide.one
      else do
        let r := Wide.ofDecimal rest
        let sum ← Wide.one.add? r
        expSeries r (maxTerms - 1) 2 r sum
    if whole = 0 then factor.toDecimal?
    else if Nat.pow 2 64 ≤ whole then none
    else
      let power ← squaring Wide.mul? whole Wide.one (Wide.ofDecimal euler)
      let product ← power.mul? factor
      (product.toDecimal?).map normalize

/-- The exponential. -/
def exp? (a : Decimal) : Option Decimal :=
  if a.negative && !a.isZero then (expPositive? a.abs).bind one.div? else expPositive? a

/-- Multiplies by ten until the number is at least one; counts down in `k`. -/
def raiseToOne : Nat → Decimal → Int → Option (Decimal × Int)
  | 0, x, k => some (x, k)
  | steps + 1, x, k =>
    if x < one then (x.mul? ten).bind fun y => raiseToOne steps y (k - 1) else some (x, k)

/-- Divides by ten until the number is below ten; counts up in `k`. -/
def lowerToTen : Nat → Decimal → Int → Option (Decimal × Int)
  | 0, x, k => some (x, k)
  | steps + 1, x, k =>
    if ten ≤ x then (x.div? ten).bind fun y => lowerToTen steps y (k + 1) else some (x, k)

/-- Divides by Euler's number until the number is below one; counts up in `c`. -/
def lowerBelowOne : Nat → Decimal → Int → Option (Decimal × Int)
  | 0, x, c => some (x, c)
  | steps + 1, x, c =>
    if one ≤ x then (x.mul? eulerInverse).bind fun y => lowerBelowOne steps y (c + 1)
    else some (x, c)

/-- Multiplies by Euler's number until the number is above its inverse; counts down in `c`. -/
def raiseAboveInverse : Nat → Decimal → Int → Option (Decimal × Int)
  | 0, x, c => some (x, c)
  | steps + 1, x, c =>
    if x ≤ eulerInverse then (x.mul? euler).bind fun y => raiseAboveInverse steps y (c - 1)
    else some (x, c)

/-- Adds the terms `z ^ (2 n + 1) / (2 n + 1)` to `sum`, where `power` is `z ^ (2 n - 1)`. -/
def lnSeries (zSquared : Wide) : Nat → Nat → Wide → Wide → Option Wide
  | 0, _, _, sum => some sum
  | count + 1, n, power, sum => do
    let power ← power.mul? zSquared
    let term := power.divSmall (2 * n + 1)
    let sum ← sum.add? term
    if term.negligible then some sum else lnSeries zSquared count (n + 1) power sum

/-- The natural logarithm of a positive number. The number is first brought to between Euler's
inverse and one by factors of ten and of Euler's number, then the series of the inverse hyperbolic
tangent is summed. A decimal needs at most 28 factors of ten and three of Euler's number. -/
def ln? (a : Decimal) : Option Decimal := do
  if a.SameValue one then some zero
  else
    let (x, k) ← raiseToOne 29 a 0
    let (x, k) ← lowerToTen 29 x k
    let tens ← if k = 0 then some zero else (ofInt? k).bind fun k => k.mul? lnTen
    if x.SameValue one then some tens.normalize
    else
      let (x, c) ← lowerBelowOne 4 x 0
      let (x, c) ← raiseAboveInverse 4 x c
      let eulers ← ofInt? c
      if x.SameValue one then some eulers
      else
        let minusOne := Wide.mk true 1 0
        let below ← ((Wide.ofDecimal x).add? minusOne).bind Wide.toDecimal?
        let above ← ((Wide.ofDecimal x).add? Wide.one).bind Wide.toDecimal?
        let z ← (below.div? above).map Wide.ofDecimal
        let zSquared ← z.mul? z
        let half ← lnSeries zSquared maxTerms 1 z z
        let series ← ((Wide.mk false 2 0).mul? half).bind Wide.toDecimal?
        let whole ← tens.add? eulers
        (whole.add? series).map normalize

/-- The power with a fractional exponent, for a base that is not negative. -/
def powFraction? (a e : Decimal) : Option Decimal := do
  if a.isZero then some zero
  else if a.SameValue one then some one
  else
    let l ← ln? a.abs
    let product ← l.mul? e.normalize
    exp? product

end MarkovFit.Decimal
