import MarkovFit.Sampling.Vertex
import MarkovFit.Decimal.Binary
import MarkovFit.Random.Source

/-!
# Uniform samples

Points drawn uniformly from the parameter box, one word of the source for each coordinate.
-/

namespace MarkovFit.Sampling

variable {γ : Type} [RandomSource γ]

/-- The value at the fraction `unit` of an interval, not above its upper end. -/
def valueAt (p : Parameter) (unit : Decimal) : Except Failure Decimal := do
  let span ← p.span
  let offset ← unguarded (span.mul? unit)
  let value ← unguarded (p.lower.add? offset)
  return value.min p.upper

/-- Draws one coordinate. -/
def drawValue (p : Parameter) (source : γ) : Except Failure (Decimal × γ) := do
  let (unit, source) := RandomSource.unit52 source
  let value ← valueAt p ((Decimal.ofFloat? unit).getD Decimal.zero)
  return (value, source)

/-- Draws one coordinate for each parameter. -/
def drawValues : List Parameter → γ → Except Failure (List Decimal × γ)
  | [], source => .ok ([], source)
  | p :: ps, source => do
    let (value, source) ← drawValue p source
    let (values, source) ← drawValues ps source
    return (value :: values, source)

/-- Draws one sample. -/
def drawSample (parameters : List Parameter) (source : γ) : Except Failure (Sample × γ) := do
  let (values, source) ← drawValues parameters source
  let sample ← Sample.ofValues parameters values
  return (sample, source)

/-- Draws samples in front of those drawn before, the last one first. -/
def drawOnto (parameters : List Parameter) :
    Nat → List Sample → γ → Except Failure (List Sample × γ)
  | 0, drawn, source => .ok (drawn, source)
  | count + 1, drawn, source => do
    let (sample, source) ← drawSample parameters source
    drawOnto parameters count (sample :: drawn) source

/-- Draws a number of samples. -/
def drawSamples (parameters : List Parameter) (count : Nat) (source : γ) :
    Except Failure (List Sample × γ) := do
  let (drawn, source) ← drawOnto parameters count [] source
  return (drawn.reverse, source)

end MarkovFit.Sampling
