/-!
# Digits

Reading natural numbers of bounded size in decimal digits.
-/

namespace MarkovFit.Text

/-- The ten ASCII digits. -/
def isDigit (c : Char) : Bool := 48 ≤ c.val && c.val ≤ 57

/-- The value of a digit. -/
def digitValue (c : Char) : Nat := c.val.toNat - 48

/-- The value of a list of digits after the digits of `start`. -/
def digitsValue (start : Nat) (cs : List Char) : Nat :=
  cs.foldl (fun n c => 10 * n + digitValue c) start

/-- A natural number below `bound`: one plus sign at most, then digits only. -/
def readNat? (bound : Nat) (cs : List Char) : Option Nat :=
  let digits := match cs with
    | '+' :: rest => rest
    | _ => cs
  if digits.isEmpty || !digits.all isDigit then none
  else
    let n := digitsValue 0 digits
    if n < bound then some n else none

/-- A natural number of 64 bits. -/
def readNat64? (s : String) : Option Nat := readNat? (Nat.pow 2 64) s.toList

end MarkovFit.Text
