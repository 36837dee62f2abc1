import MarkovFit.Failure
import MarkovFit.Settings.Check
import MarkovFit.Text.Path

/-!
# Failures of a command

A command that fails tells what it was doing and, one below the other, what lies behind that.
-/

namespace MarkovFit.CommandLine

/-- Why a command fails. -/
inductive CommandFailure where
  | unreadable (path : String) (reason : String)
  | unparseable (path : String)
  | invalid (cause : SettingsCause)
  | failed (failure : Failure)
  | unwritten (path : String) (failure : Failure)
deriving DecidableEq, Repr

namespace CommandFailure

/-- A failure and the reason behind it. -/
def chain (failure : Failure) : List String := failure.message :: failure.reason?.toList

/-- What was being done. -/
def headline : CommandFailure → String
  | .unreadable path _ | .unparseable path =>
    "Failed to load config from " ++ Path.quoted path
  | .invalid _ => "Invalid configuration"
  | .failed failure => failure.message
  | .unwritten path _ => "Failed to write report to " ++ Path.quoted path

/-- What lies behind it. -/
def causes : CommandFailure → List String
  | .unreadable path reason => [s!"Failed to read config file {path}: {reason}", reason]
  | .unparseable path => [s!"Failed to parse config file {path}"]
  | .invalid cause => [cause.message]
  | .failed failure => failure.reason?.toList
  | .unwritten _ failure => chain failure

/-- A text whose lines after the first are indented. -/
def indented (first rest : String) (s : String) : List String :=
  match Text.pieces '\n' s with
  | [] => [first]
  | line :: lines => (first ++ line) :: lines.map (rest ++ ·)

/-- Numbers stand in a column of five characters. -/
def numbered (cause : String × Nat) : List String :=
  let number := toString cause.2
  let front := String.ofList (List.replicate (5 - number.length) ' ') ++ number ++ ": "
  indented front "       " cause.1

/-- The lines about the causes; they are numbered if there are several. -/
def causeLines : List String → List String
  | [] => []
  | [cause] => "" :: "Caused by:" :: indented "    " "    " cause
  | causes => "" :: "Caused by:" :: causes.zipIdx.flatMap numbered

/-- The lines that tell a failure. -/
def lines (f : CommandFailure) : List String := ("Error: " ++ f.headline) :: causeLines f.causes

/-- The exit status: a fault is not handled and has a status of its own. -/
def status : CommandFailure → Nat
  | .failed (.fault _) => 101
  | _ => 1

end CommandFailure
end MarkovFit.CommandLine
