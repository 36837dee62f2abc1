import MarkovFit.Double.Parts

/-!
# How many samples, how many coefficients

The number of samples that bounds the chance of a bad fit, and the number of monomials up to a
degree, both as counts of 64 bits.
-/

namespace MarkovFit.Sampling

/-- Counts are below this bound. -/
def countBound : Nat := Nat.pow 2 64

/-- The least integer not below `(2 / ε) (ln (1 / η) + c)`, for `c` decision variables. -/
def requiredSamples (epsilon eta : Float) (coefficients : Nat) : Nat :=
  Double.toNatSaturating
    ((2.0 / epsilon) * ((1.0 / eta).log + Double.ofNat coefficients)).ceil

/-- Goes on with the product `acc = C(n, i)` for `steps` steps, while it stays below `2 ^ 128`. -/
def binomialFrom (n : Nat) : Nat → Nat → Nat → Option Nat
  | 0, _, acc => some acc
  | steps + 1, i, acc =>
    if acc * (n - i) < Nat.pow 2 128 then binomialFrom n steps (i + 1) (acc * (n - i) / (i + 1))
    else none

/-- The number of monomials in some variables up to a degree, if it is a count. -/
def coefficientCount (unknowns degree : Nat) : Option Nat :=
  match binomialFrom (unknowns + degree) (min degree unknowns) 0 1 with
  | some count => if count < countBound then some count else none
  | none => none

/-- A number that is a count. -/
def asCount (n : Nat) : Option Nat := if n < countBound then some n else none

/-- The number of vertices of a box with `boundaryPoints` further points on each axis of each vertex
at the lower end of that axis, if it is a count. -/
def vertexCount (dimensions boundaryPoints : Nat) : Option Nat := do
  if 64 ≤ dimensions then none
  else
    let vertices := Nat.pow 2 dimensions
    let perAxis ← asCount (boundaryPoints * dimensions)
    let extra ← asCount (perAxis * (vertices / 2))
    asCount (vertices + extra)

end MarkovFit.Sampling
