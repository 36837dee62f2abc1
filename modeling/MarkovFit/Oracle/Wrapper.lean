import MarkovFit.Oracle.Basic
import MarkovFit.Oracle.Line

/-!
# Wrappers

A wrapper is a program that takes all requests as lines of its input and prints a tagged line for
each of them. The exact and the statistical wrapper differ in command line and tag.
-/

namespace MarkovFit.Oracle

/-- Which wrapper is at the other end. -/
inductive WrapperKind where
  | exact | statistical
deriving DecidableEq, Repr

namespace WrapperKind

def name : WrapperKind → String
  | .exact => "wrapper"
  | .statistical => "stormsmcc"

def defaultProgram : WrapperKind → String
  | .exact => "storm-c-wrapper"
  | .statistical => "stormsmc-c-wrapper"

def tag : WrapperKind → String
  | .exact => exactTag
  | .statistical => statisticalTag

/-- The arguments; the statistical wrapper takes models in one language only. -/
def arguments (spec : ModelSpec) (model : ModelSpec.Required) :
    WrapperKind → Except Failure (List String)
  | .exact =>
    .ok (spec.options ++
      [model.type.text, model.file, model.property, Constant.listText spec.constants])
  | .statistical =>
    if model.type = .prism then
      .ok [model.file, model.property, Constant.listText spec.constants,
        ",".intercalate spec.options]
    else .error (.oracleState (.unsupportedModelType model.type.text))

end WrapperKind

/-- All requests, one a line, and the line that ends them. -/
def payload (requests : Requests) : String :=
  String.join (requests.toList.map fun (id, constants) => requestLine id constants ++ "\n") ++
    endLine ++ "\n"

/-- Adds the results on some lines to `answers`. Lines without the tag do not count; every other one
has to be the first result of a request. -/
def collectLines (tag : String) (requests : Requests) :
    Answers → List String → Except Failure Answers
  | answers, [] => .ok answers
  | answers, line :: rest =>
    match readResult? tag line with
    | none => collectLines tag requests answers rest
    | some (.error e) => .error e
    | some (.ok (id, value)) =>
      if !requests.contains id then .error (.oracleProtocol (.unknownRequest id))
      else if answers.contains id then .error (.oracleProtocol (.answeredTwice id))
      else collectLines tag requests (answers.insert id value) rest

/-- The answers in an output; every request needs one. -/
def collectAnswers (tag output : String) (requests : Requests) : Except Failure Answers := do
  let answers ← collectLines tag requests ∅ (Text.lines output)
  if answers.size = requests.size then return answers
  else
    let missing := requests.keys.filter fun id => !answers.contains id
    throw (.oracleProtocol
      (.wrongCount requests.size answers.size missing (Text.trim output)))

/-- The call of a wrapper. -/
def WrapperKind.invocation (kind : WrapperKind) (spec : ModelSpec) (readable : String → Bool)
    (requests : Requests) : Except Failure Invocation := do
  let model ← spec.require readable
  let arguments ← kind.arguments spec model
  return {
    program := spec.program.getD kind.defaultProgram
    arguments := arguments
    input := payload requests
    timeout := spec.timeout }

/-- The answers of a run. The exit status does not count when every request is answered. -/
def WrapperKind.readOutcome (kind : WrapperKind) (spec : ModelSpec) (requests : Requests) :
    Outcome → Except Failure Answers
  | .refused reason => .error (.io "spawning the model checker wrapper" reason)
  | .late => .error (lateness spec.timeout)
  | .finished output => collectAnswers kind.tag output.text requests

/-- The oracle of a wrapper. Without requests nothing is started. -/
def wrapper {m : Type → Type} [Monad m] (kind : WrapperKind) (host : Host m) (spec : ModelSpec) :
    BatchOracle m :=
  { name := kind.name
    check := fun requests => do
      match kind.invocation spec host.readable requests with
      | .error e => return .error e
      | .ok invocation =>
        if requests.isEmpty then return .ok ∅
        else return kind.readOutcome spec requests (← host.run invocation) }

end MarkovFit.Oracle
