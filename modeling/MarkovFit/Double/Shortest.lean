import MarkovFit.Double.Parts

/-!
# The shortest digits of a double

`shortest m e` gives the fewest decimal digits that read back as the double `m * 2 ^ e`, and among
those the digits nearest to it; of two equally near the larger.
-/

namespace MarkovFit.Double

/-- The `k` for which the fraction `n / d` is at least `10 ^ (k - 1)` and below `10 ^ k`. -/
def decimalPoint (n d : Nat) : Int :=
  if d ≤ n then (toString (n / d)).length
  else
    let j := (toString (d / n)).length
    if n * Nat.pow 10 (j - 1) = d then 2 - (j : Int) else 1 - (j : Int)

/-- The numbers that read back as one double, as multiples of a common unit: between `low` and
`high`, and the ends too if the significand is even. -/
structure Neighbourhood where
  low : Nat
  value : Nat
  high : Nat
  closed : Bool

/-- The neighbourhood of `m * 2 ^ e` in units of `2 ^ (e - 2)`. Below a power of two the doubles
are twice as dense. -/
def neighbourhood (m : Nat) (e : Int) : Neighbourhood :=
  let low := if m = Nat.pow 2 52 ∧ -1074 < e then 4 * m - 1 else 4 * m - 2
  ⟨low, 4 * m, 4 * m + 2, m % 2 == 0⟩

/-- Whether the multiple `x` of the unit lies in the neighbourhood whose own unit is `s`. -/
def Neighbourhood.contains (h : Neighbourhood) (s x : Nat) : Bool :=
  if h.closed then h.low * s ≤ x && x ≤ h.high * s else h.low * s < x && x < h.high * s

/-- The best number of `count` digits in a neighbourhood whose value is `value * s / d` in units of
the last digit: one of the two neighbours of the value. -/
def Neighbourhood.bestOnGrid? (h : Neighbourhood) (s d : Nat) : Option Nat :=
  let below := h.value * s / d
  let rest := h.value * s % d
  match h.contains s (below * d), h.contains s ((below + 1) * d) with
  | true, true => some (if 2 * rest < d then below else below + 1)
  | true, false => some below
  | false, true => some (below + 1)
  | false, false => none

/-- Tries grids of more and more digits, starting with `count`, for at most `tries` grids. -/
def searchGrids (h : Neighbourhood) (e point : Int) : Nat → Nat → Nat × Int
  | 0, count => (0, point - count)
  | tries + 1, count =>
    let shift := (count : Int) - point
    let (s, d) := scaleByPowerOfTwo 1 1 (e - 2)
    let (s, d) :=
      if 0 ≤ shift then (s * Nat.pow 10 shift.toNat, d) else (s, d * Nat.pow 10 (-shift).toNat)
    match h.bestOnGrid? s d with
    | some digits =>
      -- The neighbour above may be the next power of ten.
      if digits = Nat.pow 10 count then (Nat.pow 10 (count - 1), point + 1 - count)
      else (digits, point - count)
    | none => searchGrids h e point tries (count + 1)

/-- The shortest digits of the positive double `m * 2 ^ e`, as an integer and a power of ten. -/
def shortest (m : Nat) (e : Int) : Nat × Int :=
  let (n, d) := scaleByPowerOfTwo m 1 e
  searchGrids (neighbourhood m e) e (decimalPoint n d) 17 1

end MarkovFit.Double
