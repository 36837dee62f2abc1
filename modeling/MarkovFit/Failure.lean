import MarkovFit.Expr.Token

/-!
# Failures

Everything that can go wrong, by cause. `Failure.message` is the one place where causes get their
wording. Infinite answers of an oracle and linear programs without a solution are outcomes and not
failures.
-/

namespace MarkovFit

open MarkovFit.Expr (Token)

/-- What a reader of an expression waited for. -/
inductive Wanted where
  | token (token : Token)
  | operand
  | endOfInput
deriving DecidableEq, Repr

/-- Why a text is no expression. -/
inductive SyntaxCause where
  | unexpected (text : String) (offset : Nat)
  | expected (wanted : Wanted) (found : Option (Token × Nat))
  | unknownFunction (name : String)
deriving DecidableEq, Repr

/-- Why a computation has no value. -/
inductive ArithmeticCause where
  | overflow (left : Decimal) (op : Operator) (right : Decimal)
  | divisionByZero (dividend : Decimal)
  | exponentOutOfRange (exponent : Decimal)
  | zeroToNegative (exponent : Int)
  | negativeBase (base exponent : Decimal)
  | negativeRoot (operand : Decimal)
  | powerOverflow (base : Decimal) (exponent : Nat)
  | monomialOverflow
  | templateOverflow
  | scalingOverflow (value : Decimal)
  | boundScalingOverflow (bound : Decimal)
  | noFloat (value : Decimal)
deriving DecidableEq, Repr

/-- Why an input is refused. -/
inductive InputCause where
  | emptyParameterName
  | emptyInterval (name : String) (lower upper : Decimal)
  | outsideInterval (value lower upper : Decimal) (name : String)
  | duplicateVariable (name : String)
  | tooManyVertices (parameters : Nat)
  | scalingTooLarge (scaling : Nat)
  | duplicateUnknown (name : String)
  | noSuchUnknown (name : String)
  | noWorkers
  | noParameters
  | notInteractive (backend : String)
deriving DecidableEq, Repr

/-- Why an oracle may not be asked now. -/
inductive StateCause where
  | noModelFile
  | unreadableModelFile (path : String)
  | noModelType
  | noProperty
  | unsupportedModelType (type : String)
  | noExpression
  | notInitial
  | notStarted
deriving DecidableEq, Repr

/-- How an oracle broke its protocol. -/
inductive ProtocolCause where
  | notANumber (text : String)
  | malformedLine (line : String)
  | unknownRequest (id : Nat)
  | answeredTwice (id : Nat)
  | wrongCount (expected got : Nat) (missing : List Nat) (output : String)
  | failedRun (id : Nat) (status : Int) (stdout stderr : String)
  | unparseableResult (line : String)
  | closedOutput (request : String)
  | unexpectedResponse (line : String)
  | outOfOrder (answered awaited : Nat)
  | reported (text : String)
deriving DecidableEq, Repr

/-- Why a backend for linear programs gives no answer. -/
inductive LpCause where
  | wrongLength (solver : String) (values unknowns : Nat)
  | pivotBudget (pivots : Nat)
  | violatedConstraint (index : Nat) (violation : String)
  | dualityGap (gap primal dual : String)
  | notADecimal (value : String)
  | noFloat (value : Decimal)
  | noValueLine
  | unparseableValue (text : String)
  | wrongValueCount (values unknowns : Nat)
deriving DecidableEq, Repr

/-- What the program itself got wrong. -/
inductive InternalCause where
  | sampleSize (values parameters : Nat)
  | noCoefficient (name : String)
  | workerCrashed
  | lostAnswers (answers samples : Nat)
deriving DecidableEq, Repr

/-- What nobody handles: the computation stops at once, as it does for a decimal operation or a count
that leaves its range where no overflow is foreseen. -/
inductive Fault where
  | decimalOverflow
  | countOverflow
  | unsettledRoot
  | crash
deriving DecidableEq, Repr

/-- A failure, by kind and cause. -/
inductive Failure where
  | invalidInput (cause : InputCause)
  | template (cause : SyntaxCause)
  | undefinedIdentifier (name : String)
  | arithmetic (cause : ArithmeticCause)
  | oracleState (cause : StateCause)
  | oracleProtocol (cause : ProtocolCause)
  | timeout (milliseconds : Nat)
  | lp (cause : LpCause)
  | io (context : String) (reason : String)
  | internal (cause : InternalCause)
  | fault (cause : Fault)
deriving DecidableEq, Repr

namespace Failure

def wantedText : Wanted → String
  | .token token => token.name
  | .operand => "a number, identifier or '('"
  | .endOfInput => "end of input"

def syntaxText : SyntaxCause → String
  | .unexpected text offset => s!"unexpected '{text}' at offset {offset}"
  | .expected wanted (some (token, index)) =>
    s!"expected {wantedText wanted}, found {token.name} at token {index}"
  | .expected wanted none => s!"expected {wantedText wanted}, found end of input"
  | .unknownFunction name => s!"unknown function '{name}'"

def arithmeticText : ArithmeticCause → String
  | .overflow left op right => s!"overflow in {left} {op.name} {right}"
  | .divisionByZero dividend => s!"division of {dividend} by zero"
  | .exponentOutOfRange exponent => s!"exponent {exponent} out of range"
  | .zeroToNegative exponent => s!"0 raised to {exponent}"
  | .negativeBase base exponent => s!"negative base {base} with fractional exponent {exponent}"
  | .negativeRoot operand => s!"square root of negative value {operand}"
  | .powerOverflow base exponent => s!"overflow computing {base}^{exponent}"
  | .monomialOverflow => "overflow evaluating monomial"
  | .templateOverflow => "overflow evaluating template"
  | .scalingOverflow value => s!"scaling {value} overflows"
  | .boundScalingOverflow bound => s!"scaling bound {bound} overflows"
  | .noFloat value => s!"{value} is not representable as a float"

def inputText : InputCause → String
  | .emptyParameterName => "parameter name must not be empty"
  | .emptyInterval name lower upper =>
    s!"parameter '{name}': lower bound {lower} must be below upper bound {upper}"
  | .outsideInterval value lower upper name =>
    s!"value {value} outside [{lower}, {upper}] for '{name}'"
  | .duplicateVariable name => s!"variable '{name}' registered twice"
  | .tooManyVertices parameters => s!"too many vertices for {parameters} parameters"
  | .scalingTooLarge scaling => s!"scaling 10^{scaling} is too large"
  | .duplicateUnknown name => s!"LP variable '{name}' registered twice"
  | .noSuchUnknown name => s!"unknown LP variable '{name}'"
  | .noWorkers => "the oracle pool needs at least one worker"
  | .noParameters => "direct search needs at least one parameter"
  | .notInteractive backend =>
    s!"the {backend} backend has no interactive mode; use backend = \"wrapper\""

def stateText : StateCause → String
  | .noModelFile => "model file not specified"
  | .unreadableModelFile path => s!"the model file {path} cannot be read"
  | .noModelType => "model type not specified"
  | .noProperty => "property formula not specified"
  | .unsupportedModelType type => s!"model type {type} not supported; only prism is supported"
  | .noExpression => "the synthetic oracle needs an expression"
  | .notInitial => "the model checker is not in the initialize stage"
  | .notStarted => "the model checker is not started"

/-- Numbers separated by commas. -/
def numberList (ids : List Nat) : String := ",".intercalate (ids.map toString)

def protocolText : ProtocolCause → String
  | .notANumber text => s!"not a number: '{text}'"
  | .malformedLine line => s!"malformed result line '{line}'"
  | .unknownRequest id => s!"result for unknown request id {id}"
  | .answeredTwice id => s!"request id {id} answered twice"
  | .wrongCount expected got missing output =>
    s!"incorrect number of results: expected {expected}, got {got} " ++
      s!"(missing ids: {numberList missing}); raw output:\n{output}"
  | .failedRun id status stdout stderr =>
    s!"failed execution for request {id} (exit status exit status: {status}); raw output:\n" ++
      s!"{stdout}\n{stderr}"
  | .unparseableResult line => s!"unparseable result in '{line}'"
  | .closedOutput request => s!"the model checker closed its output while checking {request}"
  | .unexpectedResponse line => s!"unexpected oracle response '{line}'"
  | .outOfOrder answered awaited => s!"response for request {answered} while waiting for {awaited}"
  | .reported text => text

def lpText : LpCause → String
  | .wrongLength solver values unknowns =>
    s!"{solver} returned {values} values for {unknowns} variables"
  | .pivotBudget pivots => s!"simplex exceeded {pivots} pivots"
  | .violatedConstraint index violation =>
    s!"simplex solution violates constraint {index} by {violation}"
  | .dualityGap gap primal dual => s!"simplex duality gap {gap} between {primal} and {dual}"
  | .notADecimal value => s!"solution value {value} is not a decimal"
  | .noFloat value => s!"{value} is not representable as a float"
  | .noValueLine => "Octave output has no opt_var line"
  | .unparseableValue text => s!"unparseable LP value '{text}'"
  | .wrongValueCount values unknowns =>
    s!"Octave returned {values} values for {unknowns} variables"

def internalText : InternalCause → String
  | .sampleSize values parameters => s!"sample has {values} values for {parameters} parameters"
  | .noCoefficient name => s!"no value for coefficient '{name}'"
  | .workerCrashed => "oracle worker panicked"
  | .lostAnswers answers samples => s!"pool collected {answers} answers for {samples} samples"

def faultText : Fault → String
  | .decimalOverflow => "a decimal operation left the range of decimals"
  | .countOverflow => "a count left the range of 64 bits"
  | .unsettledRoot => "the iteration for a square root did not come to rest"
  | .crash => "an operation was not possible"

/-- A span of time in the unit that suits it. -/
def durationText (milliseconds : Nat) : String :=
  if milliseconds = 0 then "0ns"
  else if milliseconds < 1000 then s!"{milliseconds}ms"
  else
    let (fraction, places) := Decimal.stripZeros (milliseconds % 1000) 3
    let digits := String.ofList (Decimal.paddedDigits places fraction)
    if places = 0 then s!"{milliseconds / 1000}s" else s!"{milliseconds / 1000}.{digits}s"

/-- The wording of a failure. -/
def message : Failure → String
  | .invalidInput cause => s!"Invalid input: {inputText cause}"
  | .template cause => s!"Invalid template: {syntaxText cause}"
  | .undefinedIdentifier name => s!"Identifier '{name}' is neither a parameter nor a constant"
  | .arithmetic cause => s!"Arithmetic error: {arithmeticText cause}"
  | .oracleState cause => s!"Oracle state error: {stateText cause}"
  | .oracleProtocol cause => s!"Oracle protocol error: {protocolText cause}"
  | .timeout milliseconds => s!"Oracle timed out after {durationText milliseconds}"
  | .lp cause => s!"LP backend error: {lpText cause}"
  | .io context _ => s!"IO error: {context}"
  | .internal cause => s!"Internal error: {internalText cause}"
  | .fault cause => faultText cause

/-- What lies behind a failure, if it has a reason of its own. -/
def reason? : Failure → Option String
  | .io _ reason => some reason
  | _ => none

end Failure
end MarkovFit
