import MarkovFit.Decimal.Basic

/-!
# Rounding of decimals

The integer nearest to a quotient of natural numbers. `fit` brings a mantissa of any size and a scale of
any size into the range of a decimal, dropping no more digits than it has to.
-/

namespace MarkovFit

/-- The integer nearest to `n / d`; of two, the even one. -/
def roundHalfEven (n d : Nat) : Nat :=
  let q := n / d
  let r := n % d
  if 2 * r > d ∨ (2 * r = d ∧ q % 2 = 1) then q + 1 else q

namespace Decimal

/-- How many digits must go from the right of `m` before it is a mantissa. -/
def excessDigits (m : Nat) : Nat :=
  if m < mantissaBound then 0 else excessDigits (m / 10) + 1
termination_by m
decreasing_by
  have : ¬ m < 79228162514264337593543950336 := by assumption
  omega

/-- Mantissa and scale of the decimal nearest to `m / 10 ^ s`; `none` if it is too large. -/
def fit (m s : Nat) : Option (Nat × Nat) :=
  let surplus := s - maxScale
  let k := surplus + excessDigits (m / Nat.pow 10 surplus)
  if s < k then none
  else
    let q := roundHalfEven m (Nat.pow 10 k)
    let s := s - k
    if q < mantissaBound then some (q, s)
    else if s = 0 then none
    else some (roundHalfEven q 10, s - 1)

end Decimal
end MarkovFit
