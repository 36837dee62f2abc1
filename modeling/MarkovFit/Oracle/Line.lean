import MarkovFit.Answer
import MarkovFit.Text.Pieces
import MarkovFit.Text.Blank

/-!
# Lines of the oracle protocols

A request is a line `id:name=value,…`, a result is a line `tag:id:value`. Other model checkers print
a marker in front of the value.
-/

namespace MarkovFit.Oracle

open Text

/-- The tag of results of the exact engine. -/
def exactTag : String := "StormCWrapper_RESULT"

/-- The tag of results of the statistical engine. -/
def statisticalTag : String := "StormsmcCWrapper_RESULT"

/-- The line that ends the requests. -/
def endLine : String := "EOF"

/-- What Storm prints in front of a value. -/
def stormMarker : String := "Result (for initial states):"

/-- What PRISM prints in front of a value. -/
def prismMarker : String := "Result:"

/-- The line of a request. -/
def requestLine (id : Nat) (constants : List Constant) : String :=
  toString id ++ ":" ++ Constant.listText constants

/-- The number of a request; blanks around it do not count. -/
def readId? (s : String) : Option Nat := readNat64? (trim s)

/-- The number and the value behind a tag. -/
def readFields? (rest : String) : Option (Nat × Answer) := do
  let (id, value) ← splitOnce? ':' rest
  let id ← readId? id
  let value ← (Answer.read value).toOption
  return (id, value)

/-- Reads a result line; a line without the tag is none. -/
def readResult? (tag line : String) : Option (Except Failure (Nat × Answer)) :=
  (stripFront? (tag ++ ":") (trimEnd line)).map fun rest =>
    match readFields? rest with
    | some result => .ok result
    | none => .error (.oracleProtocol (.malformedLine line))

/-- Reads the first word behind a marker at the start of a line, apart from blanks. Lines without
the marker do not count; the first one with it decides. -/
def readOutput? (marker output : String) : Option (Except Failure Answer) :=
  (lines output).findSome? fun line =>
    (stripFront? marker (trim line)).map fun rest =>
      match Answer.read ((firstWord? rest).getD "") with
      | .ok value => .ok value
      | .error _ => .error (.oracleProtocol (.unparseableResult (trim line)))

end MarkovFit.Oracle
