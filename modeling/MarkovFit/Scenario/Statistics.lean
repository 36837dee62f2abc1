import MarkovFit.Decimal.Text
import MarkovFit.Document

/-!
# Statistics of a scenario

What is known before any oracle is asked: the guarantee, the template and the number of samples.
-/

namespace MarkovFit

/-- The figures of a scenario. -/
structure ScenarioStatistics where
  epsilon : Float
  eta : Float
  lambda : Option Decimal
  /-- The degree of the polynomial, unless terms are listed. -/
  degree : Option Nat
  template : Option String
  parameters : Nat
  randomSamples : Nat
  totalSamples : Nat
  coefficients : Nat

namespace ScenarioStatistics

/-- A truth value. -/
def truthText (b : Bool) : String := if b then "true" else "false"

/-- The line about the template. -/
def templateLines (s : ScenarioStatistics) : List String :=
  match s.template, s.degree with
  | some template, _ => [s!"Template function: {template}"]
  | none, some degree => [s!"Degree of the polynomial: {degree}"]
  | none, none => []

/-- The lines that tell the figures. -/
def lines (s : ScenarioStatistics) : List String :=
  [s!"Value of ε: {Double.display s.epsilon}", s!"Value of η: {Double.display s.eta}",
    s!"λ is unbounded: {truthText s.lambda.isNone}"] ++
  s.lambda.toList.map (fun lambda => s!"Value of λ: {lambda.text}") ++
  s.templateLines ++
  [s!"Number of parameters: {s.parameters}", s!"Number of random samples: {s.randomSamples}",
    s!"Number of total samples: {s.totalSamples}",
    s!"Number of template function coefficients: {s.coefficients}"]

def text (s : ScenarioStatistics) : String := "\n".intercalate s.lines

def document (s : ScenarioStatistics) : Document :=
  .record [("epsilon", .float s.epsilon), ("eta", .float s.eta),
    ("lambda", .option (fun d => .text d.text) s.lambda), ("degree", .option .natural s.degree),
    ("template", .option .text s.template), ("parameters", .natural s.parameters),
    ("random_samples", .natural s.randomSamples), ("total_samples", .natural s.totalSamples),
    ("coefficients", .natural s.coefficients)]

end ScenarioStatistics
end MarkovFit
