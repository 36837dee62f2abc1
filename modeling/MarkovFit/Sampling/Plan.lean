import MarkovFit.Sampling.Uniform

/-!
# Sample plans

How many samples of which kind a run draws: vertices of the box first, then random points.
-/

namespace MarkovFit

/-- Whether the vertices of the box are sampled: not at all, in place of random samples, or besides
them. -/
inductive VertexMode where
  | none | replace | additive
deriving DecidableEq, Repr

/-- What decides about the number of samples. -/
structure SampleBudget where
  /-- A number that is asked for, in place of the bound. -/
  samples : Option Nat
  epsilon : Float
  eta : Float
  vertices : VertexMode
  boundaryPoints : Nat

/-- The numbers of samples of each kind. -/
structure SamplePlan where
  requested : Nat
  vertices : Nat
  random : Nat
deriving DecidableEq, Repr

namespace SamplePlan

open Sampling

/-- The number of vertices that a budget asks for. -/
def vertexShare (budget : SampleBudget) (parameters : Nat) : Except Failure Nat :=
  match budget.vertices with
  | .none => .ok 0
  | .replace | .additive =>
    match vertexCount parameters budget.boundaryPoints with
    | some count => .ok count
    | none => .error (.invalidInput (.tooManyVertices parameters))

/-- The plan of a budget, for a number of parameters and of decision variables. -/
def make (budget : SampleBudget) (parameters coefficients : Nat) : Except Failure SamplePlan := do
  let requested :=
    budget.samples.getD (requiredSamples budget.epsilon budget.eta coefficients)
  let vertices ← vertexShare budget parameters
  let random := if budget.vertices = .replace then requested - vertices else requested
  return ⟨requested, vertices, random⟩

/-- The number of all samples. Nobody foresees that the sum is no count. -/
def total (plan : SamplePlan) : Except Failure Nat :=
  match asCount (plan.vertices + plan.random) with
  | some total => .ok total
  | none => .error (.fault .countOverflow)

/-- Draws the samples of a plan. Room for all of them is made first. -/
def generate {γ : Type} [RandomSource γ] (plan : SamplePlan) (parameters : List Parameter)
    (boundaryPoints : Nat) (source : γ) : Except Failure (List Sample) := do
  let _ ← plan.total
  let vertices ←
    if plan.vertices = 0 then pure [] else vertexSamples parameters boundaryPoints
  let (random, _) ← drawSamples parameters plan.random source
  return vertices ++ random

def document (plan : SamplePlan) : Document :=
  .record [("requested", .natural plan.requested), ("vertices", .natural plan.vertices),
    ("random", .natural plan.random)]

end SamplePlan
end MarkovFit
