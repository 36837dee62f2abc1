import MarkovFit.Search.Envelope
import MarkovFit.Sampling.Uniform

/-!
# Candidates

The point of the next query. A candidate is drawn uniformly; when the search exploits what it has
seen, candidates that the envelope rules out are drawn again.
-/

namespace MarkovFit.Search

variable {γ : Type} [RandomSource γ]

/-- A sample and its coordinates as floating-point numbers. -/
structure Candidate where
  sample : Sample
  point : List Float

/-- The candidate of a sample. -/
def Candidate.ofSample (sample : Sample) : Candidate := ⟨sample, sample.point.map Decimal.toFloat⟩

/-- Draws a candidate. -/
def drawCandidate (parameters : List Parameter) (source : γ) : Except Failure (Candidate × γ) := do
  let (sample, source) ← Sampling.drawSample parameters source
  return (.ofSample sample, source)

/-- Draws again while a candidate is rejected, a limited number of times. -/
def redraw (parameters : List Parameter) (rejects : Candidate → Bool) :
    Nat → Candidate → γ → Except Failure (Candidate × γ)
  | 0, candidate, source => .ok (candidate, source)
  | limit + 1, candidate, source =>
    if rejects candidate then do
      let (candidate, source) ← drawCandidate parameters source
      redraw parameters rejects limit candidate source
    else .ok (candidate, source)

/-- Draws the candidate for a query. With probability `exploration` the first one is taken. -/
def propose (parameters : List Parameter) (exploration : Float) (limit : Nat)
    (rejects : Candidate → Bool) (source : γ) : Except Failure (Candidate × γ) := do
  let (candidate, source) ← drawCandidate parameters source
  let (u, source) := RandomSource.unit53 source
  if u > exploration then redraw parameters rejects limit candidate source
  else return (candidate, source)

end MarkovFit.Search
