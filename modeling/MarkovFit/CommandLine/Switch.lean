import MarkovFit.Settings.Basic
import MarkovFit.Text.Digits

/-!
# Switches and commands

The vocabulary of the command line: what each switch is called, what it takes and what is said about
it.
-/

namespace MarkovFit.CommandLine

/-- A switch with a word and perhaps a letter. -/
structure Switch where
  letter : Option Char := none
  word : String
  /-- What its value stands for, if it takes one. -/
  value : Option String := none
  /-- Whether a value is admissible. -/
  accepts : String → Bool := fun _ => true
  /-- What it does. -/
  about : String

/-- What the program can be told to do. -/
inductive Verb where
  | run | stats | validate | example
deriving DecidableEq, Repr

namespace Switch

/-- A path is any text but the empty one. -/
def isPath (s : String) : Bool := s != ""

def config : Switch :=
  { letter := some 'c', word := "config", value := some "CONFIG", accepts := isPath
    about := "Path to configuration file [default: pacfit.toml]" }

def verbose : Switch := { letter := some 'v', word := "verbose", about := "Verbose output" }

def help : Switch := { letter := some 'h', word := "help", about := "Print help" }

def version : Switch := { letter := some 'V', word := "version", about := "Print version" }

def strategy : Switch :=
  { letter := some 's', word := "strategy", value := some "STRATEGY"
    accepts := fun s => (Strategy.words.lookup s).isSome
    about := "Override the strategy from the config file [possible values: scenario, direct]" }

def seed : Switch :=
  { word := "seed", value := some "SEED", accepts := fun s => (Text.readNat64? s).isSome
    about := "Random seed for sampling and search" }

def threads : Switch :=
  { letter := some 't', word := "threads", value := some "THREADS"
    accepts := fun s => (Text.readNat64? s).isSome
    about := "Number of parallel oracle workers" }

def report : Switch :=
  { letter := some 'r', word := "report", value := some "REPORT", accepts := isPath
    about := "JSON report path" }

def quiet : Switch := { letter := some 'q', word := "quiet", about := "Hide the progress bar" }

/-- The switches in front of the verb. -/
def general : List Switch := [config, verbose, help, version]

end Switch

namespace Verb

def word : Verb → String
  | .run => "run"
  | .stats => "stats"
  | .validate => "validate"
  | .example => "example"

def about : Verb → String
  | .run => "Run the configured analysis"
  | .stats => "Print ε, η and the sample count without calling the model checker"
  | .validate => "Validate configuration file"
  | .example => "Show example configuration"

/-- The switches behind the verb. -/
def switches : Verb → List Switch
  | .run =>
    [.strategy, .seed, .threads, .report, .config, .quiet, .verbose, .help]
  | .stats | .validate | .example => [.config, .verbose, .help]

def all : List Verb := [.run, .stats, .validate, .example]

/-- The verb that a word names. -/
def ofWord? (s : String) : Option Verb := all.find? fun v => v.word == s

end Verb
end MarkovFit.CommandLine
