import MarkovFit.Answer
import MarkovFit.Failure
import MarkovFit.Program
import Std.Data.TreeMap

/-!
# Oracles

An oracle computes a value for the constants of a sample. A batch oracle answers many requests in
one call: every request gets exactly one answer, or the call fails. An interactive oracle is
started, answers one request after another and is stopped.
-/

namespace MarkovFit

/-- The constants of samples by the number of their request. -/
abbrev Requests := Std.TreeMap Nat (List Constant)

/-- Answers by the number of the request. -/
abbrev Answers := Std.TreeMap Nat Answer

/-- An oracle that answers all requests of a call. -/
structure BatchOracle (m : Type → Type) where
  name : String
  check : Requests → m (Except Failure Answers)

/-- An oracle that answers one request at a time between its start and its stop. -/
structure InteractiveOracle (m : Type → Type) where
  start : m (Except Failure Unit)
  check : List Constant → m (Except Failure Answer)
  stop : m (Except Failure Unit)

/-- The life of an interactive oracle; it only moves forward. -/
inductive Stage where
  | initial | started | stopped
deriving DecidableEq, Repr

/-- The language of a model. -/
inductive ModelType where
  | prism | jani
deriving DecidableEq, Repr

def ModelType.text : ModelType → String
  | .prism => "prism"
  | .jani => "jani"

/-- Everything that a model checker needs besides the samples. -/
structure ModelSpec where
  file : Option String := none
  type : Option ModelType := none
  property : Option String := none
  constants : List Constant := []
  options : List String := []
  /-- The program, in place of the default of a backend. -/
  program : Option String := none
  /-- The limit for each call, in milliseconds. -/
  timeout : Option Nat := none

namespace ModelSpec

/-- A readable model with its language and its property. -/
structure Required where
  file : String
  type : ModelType
  property : String

/-- What has to be there before a program is started. -/
def require (spec : ModelSpec) (readable : String → Bool) : Except Failure Required := do
  let some file := spec.file | throw (.oracleState .noModelFile)
  if !readable file then throw (.oracleState (.unreadableModelFile file))
  let some type := spec.type | throw (.oracleState .noModelType)
  let some property := spec.property | throw (.oracleState .noProperty)
  return ⟨file, type, property⟩

end ModelSpec

/-- The failure of a call that is not done in time. -/
def lateness (timeout : Option Nat) : Failure := .timeout (timeout.getD 0)

end MarkovFit
