import MarkovFit.Failure
import MarkovFit.Document

/-!
# Parameters and constants

A parameter is a name with an interval of decimals. A constant is a name with the text of a value,
which is handed to a model checker as it stands.
-/

namespace MarkovFit

/-- A named interval. -/
structure Parameter where
  name : String
  lower : Decimal
  upper : Decimal
  named : Text.trim name ≠ ""
  lower_lt_upper : lower < upper

namespace Parameter

/-- The parameter with this name and interval, unless the name is blank or the interval empty. -/
def make (name : String) (lower upper : Decimal) : Except Failure Parameter :=
  if named : Text.trim name ≠ "" then
    if h : lower < upper then .ok ⟨name, lower, upper, named, h⟩
    else .error (.invalidInput (.emptyInterval name lower upper))
  else .error (.invalidInput .emptyParameterName)

/-- The width of the interval. -/
def span (p : Parameter) : Except Failure Decimal :=
  match p.upper.sub? p.lower with
  | some width => .ok width
  | none => .error (.fault .decimalOverflow)

/-- Whether a value lies in the interval, ends included. -/
def contains (p : Parameter) (value : Decimal) : Bool := p.lower ≤ value && value ≤ p.upper

def document (p : Parameter) : Document :=
  .record [("name", .text p.name), ("lower", .text p.lower.text), ("upper", .text p.upper.text)]

end Parameter

/-- A name and the text of its value. -/
structure Constant where
  name : String
  value : String
deriving DecidableEq, Repr

namespace Constant

/-- The text `name=value`. -/
def text (c : Constant) : String := c.name ++ "=" ++ c.value

/-- The texts of some constants, separated by commas. -/
def listText (cs : List Constant) : String := ",".intercalate (cs.map text)

def document (c : Constant) : Document :=
  .record [("name", .text c.name), ("value", .text c.value)]

/-- Lexicographic order by names and values. -/
def listLt : List Constant → List Constant → Bool
  | _, [] => false
  | [], _ :: _ => true
  | a :: as, b :: bs =>
    if a.name < b.name then true
    else if b.name < a.name then false
    else if a.value < b.value then true
    else if b.value < a.value then false
    else listLt as bs

end Constant

/-- A number as tools print it, or the failure that quotes it. -/
def readDecimal (s : String) : Except Failure Decimal :=
  (Decimal.read s).mapError fun text => .oracleProtocol (.notANumber text)

end MarkovFit
