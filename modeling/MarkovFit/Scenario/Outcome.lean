import MarkovFit.Range
import MarkovFit.Template.Basic

/-!
# Outcomes of a scenario

A scenario ends with a fitted function, at a sample whose value is infinite, or without a solution
of the linear program. None of these is a failure.
-/

namespace MarkovFit

/-- The result of a fit. -/
inductive ScenarioOutcome where
  /-- The greatest deviation at the samples, the function, and the values of its coefficients. -/
  | approximated (lambda : Decimal) (expression : String) (coefficients : Valuation)
  /-- The value at this sample is infinite. -/
  | notComputed (sample : List Constant)
  /-- No solution was found for the function of this property. -/
  | failed (property : String)

namespace ScenarioOutcome

/-- The lines that tell the result. -/
def lines : ScenarioOutcome → List String
  | .approximated lambda expression _ =>
    [s!"Value of λ: {lambda.shortText}", s!"Approximated function: {expression}"]
  | .notComputed _ => ["Value of λ: not computed", "Approximated function: infinity"]
  | .failed property => [s!"Failed to approximate the function for {property}"]

def text (outcome : ScenarioOutcome) : String := "\n".intercalate outcome.lines

def document : ScenarioOutcome → Document
  | .approximated lambda expression coefficients =>
    .record [("kind", .text "approximated"), ("lambda", .text lambda.text),
      ("expression", .text expression),
      ("coefficients", .record (coefficients.toList.map fun (name, d) => (name, .text d.text)))]
  | .notComputed sample =>
    .record [("kind", .text "not_computed"), ("sample", .list (sample.map Constant.document))]
  | .failed property => .record [("kind", .text "failed"), ("property", .text property)]

end ScenarioOutcome

/-- A finished fit: its outcome, the range of all answers and the number of samples. -/
structure ScenarioReport where
  outcome : ScenarioOutcome
  range : Option Range
  samples : Nat

end MarkovFit
