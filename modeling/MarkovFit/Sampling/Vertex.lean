import MarkovFit.Sample
import MarkovFit.Decimal.Arithmetic
import MarkovFit.Sampling.Bound

/-!
# Vertices of the parameter box

All corners of the box, the lower end first on every axis. Each corner is followed, for every axis
on which it is at the lower end, by points spread evenly inside that edge.
-/

namespace MarkovFit.Sampling

/-- The result of an operation that is not expected to leave the range. -/
def unguarded {α : Type} : Option α → Except Failure α
  | some a => .ok a
  | none => .error (.fault .decimalOverflow)

/-- All corners of a box. -/
def corners : List Parameter → List (List Decimal)
  | [] => [[]]
  | p :: ps =>
    let rest := corners ps
    rest.map (p.lower :: ·) ++ rest.map (p.upper :: ·)

/-- The distance between neighbouring points on an edge with `count` points inside. -/
def boundaryStep (p : Parameter) (count : Nat) : Except Failure Decimal := do
  let span ← p.span
  let pieces ← unguarded (Decimal.ofNat? (count + 1))
  unguarded (span.div? pieces)

/-- The value of the `i`-th point on an edge. -/
def boundaryValue (p : Parameter) (step : Decimal) (i : Nat) : Except Failure Decimal := do
  let factor ← unguarded (Decimal.ofNat? i)
  let offset ← unguarded (step.mul? factor)
  unguarded (p.lower.add? offset)

/-- The points on the edge of a corner along one axis; none if the corner is at its upper end. -/
def edgePoints (parameters : List Parameter) (count : Nat) (corner : List Decimal) (axis : Nat)
    (p : Parameter) : Except Failure (List Sample) := do
  if count = 0 ∨ ¬ (corner.getD axis p.upper).SameValue p.lower then return []
  else
    let step ← boundaryStep p count
    (List.range count).mapM fun i => do
      let value ← boundaryValue p step (i + 1)
      Sample.ofValues parameters (corner.set axis value)

/-- A corner and the points on its edges. -/
def cornerSamples (parameters : List Parameter) (count : Nat) (corner : List Decimal) :
    Except Failure (List Sample) := do
  let sample ← Sample.ofValues parameters corner
  let edges ← parameters.zipIdx.mapM fun (p, axis) => edgePoints parameters count corner axis p
  return sample :: edges.flatten

/-- All corners of the box with the points on their edges. -/
def vertexSamples (parameters : List Parameter) (boundaryPoints : Nat) :
    Except Failure (List Sample) := do
  match vertexCount parameters.length boundaryPoints with
  | none => .error (.invalidInput (.tooManyVertices parameters.length))
  | some _ => do
    let groups ← (corners parameters).mapM (cornerSamples parameters boundaryPoints)
    return groups.flatten

end MarkovFit.Sampling
