import MarkovFit.Double.Shortest
import MarkovFit.Text.Digits
import MarkovFit.Text.Pieces

/-!
# The text of a double

Doubles are written with their shortest digits: `display` always positional, `scientific` with one
digit before the point and a power of ten. `read?` reads the usual notations.
-/

namespace MarkovFit.Double

open Text

/-- Digits times a power of ten in positional notation. -/
def positional (digits : List Char) (exponent : Int) : List Char :=
  if 0 ≤ exponent then digits ++ List.replicate exponent.toNat '0'
  else
    let places := (-exponent).toNat
    if places < digits.length then
      digits.take (digits.length - places) ++ '.' :: digits.drop (digits.length - places)
    else '0' :: '.' :: List.replicate (places - digits.length) '0' ++ digits

/-- A sign in front of a text. -/
def signed (negative : Bool) (cs : List Char) : String :=
  String.ofList (if negative then '-' :: cs else cs)

/-- Positional notation: no exponent, no point without a fraction. -/
def display (x : Float) : String :=
  match parts x with
  | .nan => "NaN"
  | .infinite negative => signed negative ['i', 'n', 'f']
  | .finite negative m e =>
    if m = 0 then signed negative ['0']
    else
      let (digits, exponent) := shortest m e
      signed negative (positional (toString digits).toList exponent)

/-- One digit, the others after a point, and the power of ten. -/
def scientific (x : Float) : String :=
  match parts x with
  | .nan => "NaN"
  | .infinite negative => signed negative ['i', 'n', 'f']
  | .finite negative m e =>
    if m = 0 then signed negative ['0', 'e', '0']
    else
      let (digits, exponent) := shortest m e
      let cs := (toString digits).toList
      let mantissa := if cs.length ≤ 1 then cs else cs.take 1 ++ '.' :: cs.drop 1
      let power := exponent + (cs.length - 1 : Nat)
      signed negative (mantissa ++ 'e' :: (toString power).toList)

/-- The double nearest to `digits * 10 ^ exponent`. An exponent far outside the range of doubles is
not multiplied out. -/
def ofDigits (negative : Bool) (digits : Nat) (exponent : Int) : Float :=
  let size := (toString digits).length
  if digits = 0 ∨ exponent + size < -400 then ofMagnitudeBits negative 0
  else if 400 < exponent + size then infinity negative
  else if 0 ≤ exponent then nearest negative (digits * Nat.pow 10 exponent.toNat) 1
  else nearest negative digits (Nat.pow 10 (-exponent).toNat)

/-- A power of ten: one sign at most, then digits. -/
def readExponent? : List Char → Option Int
  | '-' :: cs => readDigits? cs |>.map fun n => -(n : Int)
  | '+' :: cs => readDigits? cs |>.map fun n => (n : Int)
  | cs => readDigits? cs |>.map fun n => (n : Int)
where
  /-- Digits and nothing else. -/
  readDigits? (cs : List Char) : Option Nat :=
    if cs.isEmpty || !cs.all isDigit then none else some (digitsValue 0 cs)

/-- Digits with at most one point and at least one digit, then at most one exponent. -/
def readMagnitude? (negative : Bool) (cs : List Char) : Option Float := do
  let whole := cs.takeWhile isDigit
  let rest := cs.dropWhile isDigit
  let (fraction, rest) := match rest with
    | '.' :: more => (more.takeWhile isDigit, more.dropWhile isDigit)
    | _ => ([], rest)
  if whole.isEmpty && fraction.isEmpty then none
  else
    let exponent ← match rest with
      | [] => some 0
      | c :: more => if c = 'e' ∨ c = 'E' then readExponent? more else none
    some (ofDigits negative (digitsValue 0 (whole ++ fraction)) (exponent - fraction.length))

/-- The ASCII letters of a text in lower case. -/
def lowerChars (cs : List Char) : List Char :=
  cs.map fun c => if 65 ≤ c.val ∧ c.val ≤ 90 then Char.ofNat (c.val.toNat + 32) else c

/-- Reads a double: a sign, then digits with a point and an exponent, or one of the words `inf`,
`infinity` and `nan` in any case. -/
def read? (s : String) : Option Float :=
  let (negative, cs) := match s.toList with
    | '-' :: rest => (true, rest)
    | '+' :: rest => (false, rest)
    | cs => (false, cs)
  let word := String.ofList (lowerChars cs)
  if word = "inf" ∨ word = "infinity" then some (infinity negative)
  else if word = "nan" then some (noNumber negative)
  else readMagnitude? negative cs

end MarkovFit.Double
