import MarkovFit.Oracle.Client
import MarkovFit.Template.Basic

/-!
# The synthetic oracle

An oracle that evaluates an expression at the sample. It stands in for a model checker and keeps
both contracts.
-/

namespace MarkovFit.Oracle

/-- An expression over parameters and numeric constants. -/
structure Synthetic where
  expression : Expr
  constants : Valuation

namespace Synthetic

/-- The first name in an expression that is neither a parameter nor a constant. -/
def unresolved? (parameters : List String) (constants : Valuation) (e : Expr) : Option String :=
  e.identifiers.find? fun name => !parameters.contains name && !constants.contains name

/-- Reads the expression; each name in it is a parameter or a numeric constant. -/
def make (source : String) (parameters : List String) (constants : List Constant) :
    Except Failure Synthetic := do
  let expression ← Expr.parse source
  let constants := TermList.numericConstants constants
  match unresolved? parameters constants expression with
  | some name => throw (.undefinedIdentifier name)
  | none => return ⟨expression, constants⟩

/-- The constants with the values of a sample put in; the last one of a name counts. -/
def assign (values : Valuation) : List Constant → Except Failure Valuation
  | [] => .ok values
  | c :: cs => do
    let value ← readDecimal c.value
    assign (values.insert c.name value) cs

/-- The value at a sample. -/
def evaluate (o : Synthetic) (sample : List Constant) : Except Failure Answer := do
  let values ← assign o.constants sample
  let value ← o.expression.evaluate fun name => values[name]?
  return .finite value

/-- The answers to some requests, in their order. -/
def answers (o : Synthetic) (requests : Requests) : Except Failure Answers := do
  let pairs ← requests.toList.mapM fun (id, sample) => do return (id, ← o.evaluate sample)
  return Std.TreeMap.ofList pairs

/-- The batch contract. -/
def batch {m : Type → Type} [Monad m] (o : Synthetic) : BatchOracle m :=
  { name := "synthetic", check := fun requests => return o.answers requests }

def start (s : Session) : Except Failure Unit × Session :=
  if s.stage ≠ .initial then (.error (.oracleState .notInitial), s)
  else (.ok (), { s with stage := .started })

def check (o : Synthetic) (sample : List Constant) (s : Session) :
    Except Failure Answer × Session :=
  if s.stage ≠ .started then (.error (.oracleState .notStarted), s)
  else (o.evaluate sample, s)

def stop (s : Session) : Except Failure Unit × Session :=
  if s.stage ≠ .started then (.error (.oracleState .notStarted), s)
  else (.ok (), { s with stage := .stopped })

/-- The interactive contract. -/
def interactive (o : Synthetic) : InteractiveOracle SessionM :=
  { start := start, check := o.check, stop := stop }

end Synthetic
end MarkovFit.Oracle
