import MarkovFit.Double.Parts

/-!
# The Lipschitz envelope

A function with Lipschitz constant `k` that has the value `v` at a point lies below `v + k * d` at
distance `d` from it. Over all points seen so far these bounds make the upper envelope. The constant
is estimated from the slopes between the points.
-/

namespace MarkovFit.Search

/-- A point and the value that was found there, in the sign that makes greater values better. -/
structure Observation where
  point : List Float
  value : Float

/-- The sum of some numbers. -/
def sum (xs : List Float) : Float := xs.foldl (· + ·) 0

/-- The Euclidean norm. -/
def norm (x : List Float) : Float := (sum (x.map fun c => c * c)).sqrt

/-- The Euclidean distance of two points. -/
def distance (x y : List Float) : Float := norm (x.zipWith (· - ·) y)

/-- The envelope at a point: the least of the bounds that the observations give. -/
def envelope (seen : List Observation) (k : Float) (x : List Float) : Float :=
  seen.foldl
    (fun least o =>
      let bound := o.value + k * distance o.point x
      if bound < least then bound else least) (Double.infinity false)

/-- The greatest slope, given the greatest one so far, between an observation and those before. -/
def steepest (seen : List Observation) (new : Observation) (slope : Float) : Float :=
  seen.foldl
    (fun greatest o =>
      let d := distance o.point new.point
      if d > 0 then
        let slope := (o.value - new.value).abs / d
        if greatest < slope then slope else greatest
      else greatest) slope

/-- A slope rounded up to a power of a base. -/
def roundUp (base slope : Float) : Float := base.pow (slope.log / base.log).ceil

/-- The base of the powers that stand for slopes, in a number of dimensions. -/
def slopeBase (dimensions : Nat) : Float := 1 + 0.01 / dimensions.toFloat

end MarkovFit.Search
