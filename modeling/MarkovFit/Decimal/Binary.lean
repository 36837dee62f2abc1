import MarkovFit.Decimal.Basic
import MarkovFit.Double.Parts

/-!
# Decimals and doubles

`ofFloat?` gives a decimal for a double: about sixteen digits of it, rounded digit by digit.
`toFloat` gives a double for a decimal: whole part and fraction apart, then rounded at the scale.
-/

namespace MarkovFit.Decimal

/-- Turns `count` halvings into tenfold smaller units: a factor two of an even number is taken out,
else a factor five is put in while there is room, and otherwise a bit is lost. -/
def halvingsToTenths : Nat → Nat → Int → Nat × Int
  | 0, m, e => (m, e)
  | count + 1, m, e =>
    if m % 2 = 0 then halvingsToTenths count (m / 2) (e + 1)
    else if m * 5 < mantissaBound then halvingsToTenths count (m * 5) e
    else halvingsToTenths count (m / 2) (e + 1)

/-- Turns `count` doublings into tenfold units: a factor two is put in while there is room, else a
factor five is taken out. -/
def doublingsToTens : Nat → Nat → Int → Option (Nat × Int)
  | 0, m, e => some (m, e)
  | count + 1, m, e =>
    if m < Nat.pow 2 95 then doublingsToTens count (m * 2) (e - 1)
    else if 2 * e > (count + 1 : Nat) then none
    else doublingsToTens count (m / 5) e

/-- Multiplies out a power of ten. -/
def multiplyTens : Nat → Nat → Option Nat
  | 0, m => some m
  | count + 1, m => if m * 10 < mantissaBound then multiplyTens count (m * 10) else none

/-- Takes off `count` digits, rounding up at each from five on; a zero needs no more steps. -/
def dropDigits : Nat → Nat → Nat → Nat × Nat
  | 0, m, places => (m, places)
  | count + 1, m, places =>
    if m / 10 = 0 then (0, 0)
    else dropDigits count (if 5 ≤ m % 10 then m / 10 + 1 else m / 10) (places - 1)

/-- Takes off digits after the point until 52 bits are left. -/
def dropToDouble : Nat → Nat → Nat × Nat
  | m, 0 => (m, 0)
  | m, places + 1 =>
    if Nat.pow 2 52 ≤ m then dropToDouble (if 5 ≤ m % 10 then m / 10 + 1 else m / 10) places
    else (m, places + 1)

/-- The decimal of a double, if the double is finite and in range. The sign of zero is kept. -/
def ofFloat? (x : Float) : Option Decimal :=
  match Double.parts x with
  | .nan | .infinite _ => none
  | .finite negative m e =>
    if m = 0 then ofParts? negative 0 0
    else do
      let (m, e) ←
        if e ≤ 0 then some (halvingsToTenths (-e).toNat m e) else doublingsToTens e.toNat m e
      let (m, e) ←
        if 0 < e then (multiplyTens e.toNat m).map fun m => (m, (0 : Int)) else some (m, e)
      let places := (-e).toNat
      let (m, places) := dropDigits (places - maxScale) m places
      let (m, places) := dropToDouble m places
      let (m, places) := stripZeros m places
      ofParts? negative m places

/-- A power of ten as a double, by repeated squaring of doubles. -/
def floatPowerOfTen (n : Nat) : Float := go n 1 10
where
  /-- The product of `r` and of the powers of `a` that the bits of `n` select. -/
  go (n : Nat) (r a : Float) : Float :=
    let r := if n % 2 = 1 then r * a else r
    if n / 2 = 0 then r else go (n / 2) r (a * a)
  termination_by n

/-- The double of a decimal: the whole part and the fraction as doubles, their sum rounded at the
scale. -/
def toFloat (a : Decimal) : Float :=
  if a.scale = 0 then
    let x := Double.ofNat a.mantissa
    if a.negative && !a.isZero then -x else x
  else
    let p := Nat.pow 10 a.scale
    let whole := Double.ofNat (a.mantissa / p)
    let fraction := Double.ofNat (a.mantissa % p) / Double.ofNat p
    let x :=
      if a.mantissa % p = 0 then whole
      else
        let t := floatPowerOfTen a.scale
        Double.roundToInteger ((whole + fraction) * t) / t
    if a.negative then -x else x

end MarkovFit.Decimal
