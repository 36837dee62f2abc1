import MarkovFit.Decimal.Rounding

/-!
# Arithmetic on decimals

Each operation gives the exact result where a decimal can hold it, else the nearest decimal of the
most digits that fit, and `none` where the magnitude is too large. Sums take the greater of the
two scales, products the sum of the scales; a quotient is developed until it ends or the mantissa
is full.
-/

namespace MarkovFit.Decimal

/-- The sum. A zero operand leaves the other one as it is, scale and sign included. -/
def add? (a b : Decimal) : Option Decimal :=
  if a.isZero then some b
  else if b.isZero then some a
  else
    let scale := max a.scale b.scale
    let total := a.units scale + b.units scale
    (fit total.natAbs scale).bind fun (m, s) => ofUnits? (decide (total < 0)) m s

/-- The difference. A zero subtrahend leaves the minuend as it is. -/
def sub? (a b : Decimal) : Option Decimal :=
  if b.isZero then some (if a.isZero then b else a) else add? a (-b)

/-- The product. Two short mantissas are multiplied with digits beyond the 28th rounded away; a
product that rounds to zero is then positive, otherwise it keeps its sign. -/
def mul? (a b : Decimal) : Option Decimal :=
  if a.isZero || b.isZero then some zero
  else
    let negative := a.negative != b.negative
    let scale := a.scale + b.scale
    let product := a.mantissa * b.mantissa
    if a.mantissa < Nat.pow 2 32 ∧ b.mantissa < Nat.pow 2 32 then
      if scale > 47 then some zero
      else if scale > maxScale then
        ofUnits? negative (roundHalfEven product (Nat.pow 10 (scale - maxScale))) maxScale
      else ofUnits? negative product scale
    else (fit product scale).bind fun (m, s) => ofParts? negative m s

/-- The greatest `x ≤ limit` for which `q * 10 ^ x` is still a mantissa. -/
def headroom (q : Nat) : Nat → Nat
  | 0 => 0
  | x + 1 => if q * Nat.pow 10 (x + 1) < mantissaBound then x + 1 else headroom q x

theorem headroom_le (q limit : Nat) : headroom q limit ≤ limit := by
  induction limit with
  | zero => simp [headroom]
  | succ x ih =>
    simp only [headroom]
    split
    · exact Nat.le_refl _
    · exact Nat.le_succ_of_le ih

/-- How many digits to develop next, with digits `q`, remainder `r` and scale `s` so far: at most
nine, no more than the mantissa has room for, and for an exact quotient as many as bring the scale
up to zero. -/
def blockSize (q r : Nat) (s : Int) : Nat :=
  if r = 0 then Nat.min 9 (-s).toNat else headroom q (Nat.min 9 (28 - s).toNat)

theorem blockSize_le (q r : Nat) (s : Int) : blockSize q r s ≤ (28 - s).toNat := by
  unfold blockSize
  split
  · exact Nat.le_trans (Nat.min_le_right _ _) (by omega)
  · exact Nat.le_trans (headroom_le _ _) (Nat.min_le_right _ _)

/-- A quotient under development: the digits found, the scale they stand at, and whether a
remainder was met on the way. -/
structure Quotient where
  digits : Nat
  scale : Int
  inexact : Bool

/-- The quotient rounded to even on the remainder `r` of a division by `d`. -/
def roundQuotient (d q r : Nat) (s : Int) : Option Quotient :=
  let q := if 2 * r > d ∨ (2 * r = d ∧ q % 2 = 1) then q + 1 else q
  if q < mantissaBound then some ⟨q, s, true⟩
  else if s ≤ 0 then none
  else some ⟨q / 10 + 1, s - 1, true⟩

/-- One digit less, rounded on that digit and the remainder `r`. -/
def shortenQuotient (q r : Nat) (s : Int) (inexact : Bool) : Option Quotient :=
  if s ≤ 0 then none
  else
    let t := q % 10
    let q := q / 10
    some ⟨if t > 5 ∨ (t = 5 ∧ (r ≠ 0 ∨ q % 2 = 1)) then q + 1 else q, s - 1, inexact⟩

/-- Develops a quotient by the divisor `d` from the digits `q`, the remainder `r` and the scale
`s`, up to nine digits at a time, until nothing remains or there is no room. -/
def developQuotient (d q r : Nat) (s : Int) (inexact : Bool) : Option Quotient :=
  if r = 0 ∧ 0 ≤ s then some ⟨q, s, inexact⟩
  else
    let x := blockSize q r s
    let inexact := inexact || r != 0
    if r ≠ 0 ∧ s ≠ 28 ∧ x < 9 ∧ x + s < 0 then none
    else if x = 0 then roundQuotient d q r s
    else
      let q' := q * Nat.pow 10 x
      let s' := s + x
      if mantissaBound ≤ q' then none
      else
        let q'' := q' + r * Nat.pow 10 x / d
        let r' := r * Nat.pow 10 x % d
        if mantissaBound ≤ q'' then shortenQuotient q'' r' s' inexact
        else developQuotient d q'' r' s' inexact
termination_by (28 - s).toNat
decreasing_by
  have hx : blockSize q r s ≤ (28 - s).toNat := blockSize_le q r s
  have h0 : ¬ blockSize q r s = 0 := by assumption
  omega

/-- Removes `k` zeros from the end of a fraction, if it has them. -/
def dropZeros (k : Nat) : Nat × Nat → Nat × Nat
  | (m, s) => if k ≤ s ∧ m % Nat.pow 10 k = 0 then (m / Nat.pow 10 k, s - k) else (m, s)

/-- Removes eight zeros at a time while the mantissa is also a multiple of `2 ^ 32`. -/
def dropZeroBlocks (m s : Nat) : Nat × Nat :=
  if 8 ≤ s ∧ m % Nat.pow 2 32 = 0 ∧ m % Nat.pow 10 8 = 0 then
    dropZeroBlocks (m / Nat.pow 10 8) (s - 8)
  else (m, s)
termination_by s

/-- The fraction without most of the zeros that rounding left at its end: blocks of eight, then one
of four, two and one. Some zeros may stay, as in `1 / 2 = 0.50`. -/
def trimQuotient (m s : Nat) : Nat × Nat :=
  dropZeros 1 (dropZeros 2 (dropZeros 4 (dropZeroBlocks m s)))

/-- The quotient; `none` also for a zero divisor. -/
def div? (a b : Decimal) : Option Decimal :=
  if b.isZero then none
  else if a.isZero then some zero
  else
    let q := a.mantissa / b.mantissa
    let r := a.mantissa % b.mantissa
    (developQuotient b.mantissa q r ((a.scale : Int) - b.scale) false).bind fun quotient =>
      let parts := (quotient.digits, quotient.scale.toNat)
      let (m, s) := if quotient.inexact then trimQuotient parts.1 parts.2 else parts
      ofUnits? (a.negative != b.negative) m s

end MarkovFit.Decimal
