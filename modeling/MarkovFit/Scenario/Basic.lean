import MarkovFit.Scenario.Statistics
import MarkovFit.Settings.Basic
import MarkovFit.Template.Basic

/-!
# Scenarios

A scenario fits a function of a template to the values at random samples. So many samples are drawn
that the deviation at the samples holds, with high probability, for most of the parameter space. The
deviation is a decision variable besides the coefficients.
-/

namespace MarkovFit

/-- A scenario that is ready to draw its samples. -/
structure Scenario where
  settings : Settings
  parameters : List Parameter
  template : Template
  plan : SamplePlan

namespace ScenarioSettings

/-- What decides about the number of samples. -/
def budget (s : ScenarioSettings) : SampleBudget :=
  ⟨s.samples, s.epsilon, s.eta, s.vertices, s.boundaryPoints⟩

end ScenarioSettings

namespace Scenario

/-- The scenario of some settings. The log tells how many samples it has in all. -/
def make (s : Settings) : Except Failure Scenario := do
  let parameters ← s.parameterSpace
  let registry ← Registry.ofParameters parameters
  let template ← Template.make s.scenario.template s.scenario.degree registry s.constants
  let plan ← SamplePlan.make s.scenario.budget parameters.length (template.coefficients.length + 1)
  let _ ← plan.total
  return ⟨s, parameters, template, plan⟩

def statistics (s : Scenario) : Except Failure ScenarioStatistics := do
  let settings := s.settings.scenario
  let total ← s.plan.total
  return {
    epsilon := settings.epsilon
    eta := settings.eta
    lambda := settings.lambda
    degree := if settings.template.isNone then some settings.degree else none
    template := settings.template
    parameters := s.parameters.length
    randomSamples := s.plan.requested
    totalSamples := total
    coefficients := s.template.coefficients.length }

/-- Draws the samples. -/
def samples {γ : Type} [RandomSource γ] (s : Scenario) (source : γ) :
    Except Failure (List Sample) :=
  s.plan.generate s.parameters s.settings.scenario.boundaryPoints source

/-- What a scenario without a solution is named after: the property, or else the expression of the
oracle. -/
def property (s : Scenario) : String :=
  (s.settings.model.property.or s.settings.oracle.expression).getD ""

end Scenario
end MarkovFit
