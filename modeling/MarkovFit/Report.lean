import MarkovFit.Scenario.Fit
import MarkovFit.Search.Outcome

/-!
# Reports

What a finished run leaves behind: the strategy, and either the figures and the result of a scenario
or the result of a search.
-/

namespace MarkovFit

/-- A finished run. -/
inductive RunReport where
  | scenario (statistics : ScenarioStatistics) (report : ScenarioReport)
  | direct (report : SearchReport)

/-- When a report was made and how many milliseconds the run took. -/
structure Timing where
  madeAt : String
  elapsed : Nat

namespace RunReport

/-- The length of the run in seconds. -/
def seconds (t : Timing) : Document := .float (t.elapsed.toFloat / 1000)

def scenarioDocument (r : ScenarioReport) (t : Timing) : Document :=
  .record [("outcome", r.outcome.document), ("range", .option Range.document r.range),
    ("samples", .natural r.samples), ("runtime_secs", seconds t)]

def searchDocument (r : SearchReport) (t : Timing) : Document :=
  .record [("direction", r.direction.document), ("outcome", r.outcome.document),
    ("runtime_secs", seconds t)]

def document (r : RunReport) (t : Timing) : Document :=
  let head (strategy : Strategy) := [("generated_at", Document.text t.madeAt),
    ("strategy", .text (wordOf Strategy.words strategy))]
  match r with
  | .scenario statistics report =>
    .record (head .scenario ++ [("statistics", statistics.document),
      ("scenario", scenarioDocument report t)])
  | .direct report => .record (head .direct ++ [("direct", searchDocument report t)])

end RunReport
end MarkovFit
