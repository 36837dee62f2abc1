import MarkovFit.Oracle.Basic
import MarkovFit.Oracle.Line

/-!
# The client of a server

An interactive client starts a server, writes one request line at a time and reads one line back.
What the server writes comes to the client sooner or later, in this order, and stays in the connection
until it is read. A client with a time limit may stop waiting before the line has come that it waits for.
-/

namespace MarkovFit.Oracle

/-- Both ends of a running server. -/
structure Connection where
  server : Server
  /-- The lines that the server has read. -/
  written : List String := []
  /-- The number of texts that were sent. -/
  sent : Nat := 0
  /-- What the server has written and has not come yet. -/
  coming : List UInt8 := []
  /-- What has come and nobody has read. -/
  unread : List UInt8 := []
  /-- Whether the server has finished, and neither reads nor writes any more. -/
  finished : Bool := false
  /-- Whether its end has come. -/
  ended : Bool := false
  /-- The number of the next request. -/
  sequence : Nat := 0

/-- What reading a line gives. -/
inductive Received where
  | line (text : String)
  /-- The line is no text. -/
  | garbled
  /-- The server has ended and everything is read. -/
  | closed
  /-- The line has not come. -/
  | late
deriving DecidableEq, Repr

namespace Connection

/-- The server after a line of input. -/
def feed (c : Connection) (line : String) : Connection :=
  if c.finished then c
  else
    match c.server.react c.written.length line with
    | .reply output => { c with written := c.written ++ [line], coming := c.coming ++ output }
    | .quit output =>
      { c with written := c.written ++ [line], coming := c.coming ++ output, finished := true }

/-- The next bytes come, or all of them and what comes after them. -/
def come (c : Connection) : Option Nat → Connection
  | some k => { c with unread := c.unread ++ c.coming.take k, coming := c.coming.drop k }
  | none => { c with unread := c.unread ++ c.coming, coming := [], ended := c.finished }

/-- Sends a line; a text with line feeds arrives as several lines. A server whose end has come by then
cannot be written to. -/
def send? (c : Connection) (text : String) : Option Connection :=
  let c := c.come (c.server.pace.before c.sent)
  if c.ended then none
  else some { (Text.pieces '\n' text).foldl feed c with sent := c.sent + 1 }

/-- Waits. Without a time limit all comes that is on its way. -/
def await (c : Connection) (timeout : Option Nat) : Connection :=
  c.come (timeout.bind fun _ => c.server.pace.within c.sent)

/-- Ends the input. A server that has not finished may write more, and may go on for ever. -/
def closeInput (c : Connection) : Connection :=
  if c.finished then c
  else
    match c.server.atEnd with
    | some output => { c with coming := c.coming ++ output, finished := true }
    | none => c

/-- A line of bytes without its line feed and a carriage return before that. -/
def lineText (bytes : List UInt8) : Received :=
  match Text.decode? bytes with
  | some s => .line (String.ofList (Text.dropReturn s.toList))
  | none => .garbled

/-- The last bytes, which no line feed ends. -/
def restText (bytes : List UInt8) : Received :=
  match Text.decode? bytes with
  | some s => .line s
  | none => .garbled

/-- Reads the next line. -/
def receive (c : Connection) : Received × Connection :=
  match c.unread.span (· != 10) with
  | (bytes, _ :: rest) => (lineText bytes, { c with unread := rest })
  | ([], []) => (if c.ended then .closed else .late, c)
  | (bytes, []) => if c.ended then (restText bytes, { c with unread := [] }) else (.late, c)

/-- The value on a line that answers a request. -/
def readReply (sequence : Nat) (line : String) : Except Failure Answer :=
  match readResult? exactTag line with
  | none => .error (.oracleProtocol (.unexpectedResponse line))
  | some (.error e) => .error e
  | some (.ok (answered, value)) =>
    if answered = sequence then .ok value
    else .error (.oracleProtocol (.outOfOrder answered sequence))

/-- The reason that is given when a server that has ended is written to. -/
def brokenPipe : String := "Broken pipe (os error 32)"

/-- The reason that is given for a line that is no text. -/
def notUtf8 : String := "stream did not contain valid UTF-8"

/-- Sends a request and reads its answer. The number of the request is used again unless the answer
is good. -/
def roundTrip (c : Connection) (timeout : Option Nat) (sample : List Constant) :
    Except Failure Answer × Connection :=
  let request := requestLine c.sequence sample
  match c.send? request with
  | none => (.error (.io "writing to the model checker" brokenPipe), c)
  | some c =>
    match (c.await timeout).receive with
    | (.late, c) => (.error (lateness timeout), c)
    | (.garbled, c) => (.error (.io "reading from the model checker" notUtf8), c)
    | (.closed, c) => (.error (.oracleProtocol (.closedOutput request)), c)
    | (.line line, c) =>
      match readReply c.sequence line with
      | .ok value => (.ok value, { c with sequence := c.sequence + 1 })
      | .error e => (.error e, c)

/-- Whether all lines that are left to read are text. -/
def isText (c : Connection) : Bool :=
  let bytes :=
    if c.ended then c.unread else (c.unread.reverse.dropWhile (· != 10)).reverse
  (Text.decode? bytes).isSome

/-- Ends the conversation and reads what is left. -/
def shutdown (c : Connection) (timeout : Option Nat) : Except Failure Unit × Connection :=
  match c.send? endLine with
  | none => (.error (.io "writing EOF to the model checker" brokenPipe), c)
  | some c =>
    let c := c.closeInput.await timeout
    if !c.isText then (.error (.io "draining the model checker output" notUtf8), c)
    else if c.ended then (.ok (), c)
    else (.error (lateness timeout), c)

end Connection

/-- The state of an interactive oracle: its stage, and the connection while it is started. -/
structure Session where
  stage : Stage := .initial
  connection : Option Connection := none
  /-- The call of the server, once it is started, with what was written to it. -/
  call : Option Invocation := none

/-- Actions on a session. -/
abbrev SessionM := StateM Session

namespace Session

/-- Notes what was written on a connection. -/
def note (s : Session) (c : Connection) : Session :=
  let input := String.join (c.written.map (· ++ "\n"))
  { s with call := s.call.map fun call => { call with input := input } }

end Session

namespace Client

def defaultProgram : String := "storm-c-wrapper"

/-- The call that starts a server. -/
def invocation (spec : ModelSpec) (model : ModelSpec.Required) : Invocation :=
  { program := spec.program.getD defaultProgram
    arguments := spec.options ++
      [model.type.text, model.file, model.property, Constant.listText spec.constants]
    timeout := spec.timeout }

/-- Starts the server. -/
def connect {m : Type → Type} (host : Host m) (spec : ModelSpec) :
    Except Failure (Invocation × Connection) := do
  let model ← spec.require host.readable
  let invocation := Client.invocation spec model
  match host.serve invocation with
  | .ok server => return (invocation, { server := server })
  | .error reason => throw (.io "starting the model checker" reason)

variable {m : Type → Type}

/-- Starts the oracle; a start that fails leaves it as it was. -/
def start (host : Host m) (spec : ModelSpec) (s : Session) : Except Failure Unit × Session :=
  if s.stage ≠ .initial then (.error (.oracleState .notInitial), s)
  else
    match connect host spec with
    | .error e => (.error e, s)
    | .ok (invocation, connection) =>
      (.ok (), { stage := .started, connection := some connection, call := some invocation })

/-- Asks for the value of a sample. -/
def check (spec : ModelSpec) (sample : List Constant) (s : Session) :
    Except Failure Answer × Session :=
  match s.stage, s.connection with
  | .started, some connection =>
    let (answer, connection) := connection.roundTrip spec.timeout sample
    (answer, { s.note connection with connection := some connection })
  | _, _ => (.error (.oracleState .notStarted), s)

/-- Stops the oracle, also when the server does not end well. -/
def stop (spec : ModelSpec) (s : Session) : Except Failure Unit × Session :=
  if s.stage ≠ .started then (.error (.oracleState .notStarted), s)
  else
    match s.connection with
    | some connection =>
      let (result, connection) := connection.shutdown spec.timeout
      (result, { s.note connection with stage := .stopped, connection := none })
    | none => (.ok (), { s with stage := .stopped })

/-- The oracle of a server. -/
def oracle (host : Host m) (spec : ModelSpec) : InteractiveOracle SessionM :=
  { start := start host spec, check := check spec, stop := stop spec }

end Client
end MarkovFit.Oracle
