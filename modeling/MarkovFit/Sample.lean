import MarkovFit.Parameter

/-!
# Samples

A sample is a point of the parameter space: a value for each parameter, in their order.
-/

namespace MarkovFit

/-- Values of parameters by name, in the order of the parameters. -/
structure Sample where
  values : List (String × Decimal)
deriving DecidableEq, Repr

namespace Sample

/-- The values paired with the names of the parameters, if each lies in its interval. -/
def pairValues : List Parameter → List Decimal → Except Failure (List (String × Decimal))
  | p :: parameters, v :: values =>
    if p.contains v then do
      let pairs ← pairValues parameters values
      return (p.name, v) :: pairs
    else .error (.invalidInput (.outsideInterval v p.lower p.upper p.name))
  | _, _ => .ok []

/-- The sample with these values, one for each parameter and inside its interval. -/
def ofValues (parameters : List Parameter) (values : List Decimal) : Except Failure Sample :=
  if parameters.length ≠ values.length then
    .error (.internal (.sampleSize values.length parameters.length))
  else (pairValues parameters values).map Sample.mk

/-- The value of a parameter. -/
def get? (s : Sample) (name : String) : Option Decimal := s.values.lookup name

/-- The coordinates. -/
def point (s : Sample) : List Decimal := s.values.map (·.2)

/-- The sample as constants of a model checker. -/
def toConstants (s : Sample) : List Constant :=
  s.values.map fun (name, value) => ⟨name, value.shortText⟩

/-- The text `name=value,…`. -/
def text (s : Sample) : String := Constant.listText s.toConstants

end Sample
end MarkovFit
