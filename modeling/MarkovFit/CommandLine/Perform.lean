import MarkovFit.CommandLine.Arguments
import MarkovFit.CommandLine.Example
import MarkovFit.CommandLine.Failure
import MarkovFit.Report
import MarkovFit.Search.Direct
import MarkovFit.Settings.Backends
import MarkovFit.Settings.Reader

/-!
# Performing a command

A command reads its settings, runs what they ask for, prints the result and writes a report.
Everything it needs from its surroundings comes from a `Surroundings` value. What was printed before
a failure stays printed.
-/

namespace MarkovFit.CommandLine

/-- What a command needs from its surroundings. Where something can fail, the reason is given. -/
structure Surroundings (m : Type → Type) where
  /-- Prints a line. -/
  print : String → m Unit
  /-- Tells the user about a problem. -/
  complain : String → m Unit
  readText : String → m (Except String String)
  makeDirectories : String → m (Except String Unit)
  writeText : String → String → m (Except String Unit)
  rename : String → String → m (Except String Unit)
  /-- The host, which knows about the files of a list whether they can be read. -/
  host : List String → m (Host m)
  /-- A seed that nobody chose. -/
  fresh : m UInt64
  /-- Milliseconds from some moment on. -/
  clock : m Nat
  /-- The present time as text. -/
  now : m String

variable {m : Type → Type} [Monad m]

/-- An action that may fail. -/
abbrev Action (m : Type → Type) := ExceptT CommandFailure m

/-- A result or the failure of a command. -/
def orFail {α : Type} (r : Except Failure α) : Action m α :=
  ExceptT.mk (pure (r.mapError .failed))

/-- An action of the surroundings. -/
def perform {α : Type} (action : m α) : Action m α := ExceptT.lift action

namespace Surroundings

/-- Prints lines. -/
def printLines (env : Surroundings m) (lines : List String) : Action m Unit :=
  perform (lines.forM env.print)

/-- Does a step that a failure describes if it is not possible. -/
def attempt {α : Type} (context : String) (step : m (Except String α)) : m (Except Failure α) := do
  return (← step).mapError fun reason => .io context reason

end Surroundings

/-- Checks settings. -/
def check (s : Settings) : Action m Unit := ExceptT.mk (pure (s.validate.mapError .invalid))

/-- Reads and checks settings. -/
def load (env : Surroundings m) (path : String) : Action m Settings := do
  match ← perform (env.readText path) with
  | .error reason => throw (.unreadable path reason)
  | .ok text =>
    match Settings.read? text with
    | none => throw (.unparseable path)
    | some settings =>
      check settings
      return settings

/-- Puts overrides in the place of settings. A seed counts for samples and searches. -/
def Overrides.apply (o : Overrides) (s : Settings) : Settings :=
  { s with
    strategy := o.strategy.getD s.strategy
    scenario := { s.scenario with seed := o.seed.or s.scenario.seed }
    search := { s.search with seed := o.seed.or s.search.seed }
    oracle := { s.oracle with threads := o.threads.getD s.oracle.threads }
    output := { s.output with report := o.report.or s.output.report } }

/-- A span of milliseconds in seconds with one place. -/
def secondsText (elapsed : Nat) : String :=
  let tenths := (elapsed + 50) / 100
  s!"{tenths / 10}.{tenths % 10}s"

/-- The result of an action with the milliseconds that it took. -/
def timed {α : Type} (env : Surroundings m) (action : m α) : Action m (α × Nat) := do
  let start ← perform env.clock
  let result ← perform action
  let stop ← perform env.clock
  return (result, stop - start)

/-- The line about the range, if it is asked for. -/
def rangeLines (s : Settings) (report : ScenarioReport) : List String :=
  match s.scenario.showRange, report.range with
  | true, some range => ["Computed range: " ++ range.text]
  | _, _ => []

/-- Fits a function and prints the result. -/
def runScenario (env : Surroundings m) (host : Host m) (s : Settings) :
    Action m (RunReport × Nat) := do
  let pool ← orFail (s.pool host)
  let solver := s.lpSolver host
  let scenario ← orFail (Scenario.make s)
  let statistics ← orFail scenario.statistics
  env.printLines statistics.lines
  let fresh ← perform env.fresh
  let source := Settings.generator fresh s.scenario.seed
  let (report, elapsed) ← timed env (scenario.run pool solver source)
  let report ← orFail report
  env.printLines ["", "=== Scenario Approach Complete ==="]
  env.printLines (rangeLines s report)
  env.printLines report.outcome.lines
  env.printLines [s!"Samples:     {report.samples}", s!"Workers:     {pool.size}",
    s!"LP solver:   {solver.name}", "Runtime:     " ++ secondsText elapsed]
  return (.scenario statistics report, elapsed)

/-- Searches the optimum and prints the result. -/
def runSearch (env : Surroundings m) (host : Host m) (s : Settings) :
    Action m (RunReport × Nat) := do
  let oracle ← orFail (s.interactiveOracle host)
  let fresh ← perform env.fresh
  let source := Settings.generator fresh s.search.seed
  let (report, elapsed) ← timed env (pure ((s.optimizeWith oracle source).run {}).1)
  let report ← orFail report
  env.printLines ["", "=== Direct Optimisation Complete ==="]
  env.printLines report.outcome.lines
  env.printLines ["Runtime:     " ++ secondsText elapsed]
  return (.direct report, elapsed)

/-- Makes the directory of a path. -/
def makeDirectory (env : Surroundings m) (path : String) : m (Except Failure Unit) :=
  match Path.directory? path with
  | some directory =>
    Surroundings.attempt ("creating " ++ directory) (env.makeDirectories directory)
  | none => return .ok ()

/-- Writes a text to a path. The text is written beside it first and then moved, so that the path
never holds a part of it. -/
def writeWhole (env : Surroundings m) (path text : String) : m (Except Failure Unit) := do
  match ← makeDirectory env path with
  | .error e => return .error e
  | .ok () =>
    let draft := Path.withExtension path "tmp.json"
    match ← Surroundings.attempt "creating temp report" (env.writeText draft text) with
    | .error e => return .error e
    | .ok () => Surroundings.attempt "renaming report" (env.rename draft path)

/-- Writes the report of a run, if there is a path for it. -/
def writeReport (env : Surroundings m) (s : Settings) (report : RunReport) (elapsed : Nat) :
    Action m Unit :=
  match s.output.report with
  | none => pure ()
  | some path => do
    let now ← perform env.now
    let written ← perform (writeWhole env path (report.document ⟨now, elapsed⟩).json)
    match written with
    | .error e => throw (.unwritten path e)
    | .ok () => env.printLines ["Report:      " ++ Path.quoted path]

/-- Runs what settings ask for. -/
def runSettings (env : Surroundings m) (s : Settings) : Action m Unit := do
  let host ← perform (env.host s.model.file.toList)
  let (report, elapsed) ← match s.strategy with
    | .scenario => runScenario env host s
    | .direct => runSearch env host s
  writeReport env s report elapsed

/-- Performs a command. -/
def performCommand (env : Surroundings m) (path : String) : Command → Action m Unit
  | .example => env.printLines (exampleLines ++ [""])
  | .validate => do
    let _ ← load env path
  | .stats => do
    let settings ← load env path
    let scenario ← orFail (Scenario.make settings)
    let statistics ← orFail scenario.statistics
    env.printLines statistics.lines
  | .run overrides => do
    let settings ← load env path
    let settings := overrides.apply settings
    check settings
    runSettings env settings

/-- The exit status of a call that is not understood. -/
def misuseStatus : Nat := 2

/-- Performs what a call asks for and gives the exit status. -/
def performCall (env : Surroundings m) (args : List String) : m Nat := do
  match readArguments args with
  | .help page =>
    page.lines.forM env.print
    return 0
  | .version =>
    env.print versionText
    return 0
  | .misuse =>
    HelpPage.program.lines.forM env.complain
    return misuseStatus
  | .perform arguments =>
    match ← (performCommand env arguments.config arguments.command).run with
    | .ok () => return 0
    | .error failure =>
      failure.lines.forM env.complain
      return failure.status

end MarkovFit.CommandLine
