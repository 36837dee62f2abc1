import MarkovFit.Decimal.Arithmetic
import MarkovFit.Text.Blank
import MarkovFit.Text.Digits
import MarkovFit.Text.Pieces

/-!
# The text of a decimal

A decimal is written with all digits of its scale and never with an exponent; a minus stands also
before a negative zero. Plain text is read back exactly as far as 28 places and 96 bits go, and the
first digit beyond them rounds. Scientific text moves the point, and a fraction `p/q` is divided.
-/

namespace MarkovFit.Decimal

open Text

/-- `n` in decimal digits, with zeros in front up to `width` digits. -/
def paddedDigits (width n : Nat) : List Char :=
  let digits := (toString n).toList
  List.replicate (width - digits.length) '0' ++ digits

/-- The characters of the number without its sign. -/
def magnitudeChars (a : Decimal) : List Char :=
  let whole := (toString (a.mantissa / Nat.pow 10 a.scale)).toList
  if a.scale = 0 then whole
  else whole ++ '.' :: paddedDigits a.scale (a.mantissa % Nat.pow 10 a.scale)

/-- The text of a decimal: sign, whole part, and a point with all digits of the scale. -/
def text (a : Decimal) : String :=
  String.ofList (if a.negative then '-' :: a.magnitudeChars else a.magnitudeChars)

instance : ToString Decimal := ⟨text⟩

/-- The text without trailing zeros in the fraction. -/
def shortText (a : Decimal) : String := a.normalize.text

/-- What a reader of plain text has met so far. -/
structure Reading where
  mantissa : Nat := 0
  scale : Nat := 0
  seenDigit : Bool := false
  seenPoint : Bool := false

/-- The number with the mantissa rounded by the first digit that found no room. -/
def Reading.rounded? (r : Reading) (negative : Bool) (digit : Nat) : Option Decimal :=
  let m := if 5 ≤ digit then r.mantissa + 1 else r.mantissa
  if m < mantissaBound then ofUnits? negative m r.scale
  else if r.scale = 0 then none
  else ofUnits? negative ((m + 4) / 10) (r.scale - 1)

/-- Reads the digits, the point and the separators after the sign. -/
def readPlain (negative : Bool) : Reading → List Char → Option Decimal
  | r, [] => if r.seenDigit then ofUnits? negative r.mantissa r.scale else none
  | r, c :: rest =>
    if isDigit c then
      let m := r.mantissa * 10 + digitValue c
      if (r.seenPoint && r.scale == maxScale) || mantissaBound ≤ m then
        if !r.seenPoint then none
        else if rest.all (fun c => isDigit c || c == '_') then r.rounded? negative (digitValue c)
        else none
      else
        readPlain negative
          { r with
            mantissa := m
            scale := if r.seenPoint then r.scale + 1 else r.scale
            seenDigit := true } rest
    else if c = '.' then
      if r.seenPoint then none else readPlain negative { r with seenPoint := true } rest
    else if c = '_' then
      if r.seenDigit then readPlain negative r rest else none
    else none

/-- Plain text: one sign at most, digits with one point at most, and underscores after the first
digit. -/
def ofPlain? (cs : List Char) : Option Decimal :=
  match cs with
  | '-' :: rest => readPlain true {} rest
  | '+' :: rest => readPlain false {} rest
  | _ => readPlain false {} cs

/-- Moves the point to the right by `e` digits, through products with powers of ten of at most 19
digits. -/
def shiftLeft? (a : Decimal) (e : Nat) : Option Decimal :=
  if 19 ≤ e then do
    let power ← ofNat? (Nat.pow 10 19)
    let b ← a.mul? power
    shiftLeft? b (e - 19)
  else if e = 0 then some a
  else (ofNat? (Nat.pow 10 e)).bind a.mul?
termination_by e

/-- Scientific text: plain text, `e` or `E`, and an exponent of at most 28 in magnitude unless the
point only has to move left within the scale. -/
def ofScientific? (cs : List Char) : Option Decimal := do
  let (base, exponent) ← cutAt? (fun c => c == 'e' || c == 'E') cs
  let a ← ofPlain? base
  match exponent with
  | '-' :: digits =>
    let e ← readNat? (Nat.pow 2 32) digits
    if e ≤ maxScale then ofParts? a.negative a.mantissa (a.scale + e) else none
  | digits =>
    let e ← readNat? (Nat.pow 2 32) digits
    if e ≤ a.scale then ofParts? a.negative a.mantissa (a.scale - e)
    else if e ≤ maxScale then (shiftLeft? a e).map normalize
    else none

/-- Plain text as a decimal. -/
def parse? (s : String) : Option Decimal := ofPlain? s.toList

/-- Scientific text as a decimal. -/
def parseScientific? (s : String) : Option Decimal := ofScientific? s.toList

/-- Reads a number without blanks around it: a fraction is cut at its first slash. -/
def readTrimmed (cs : List Char) : Except (List Char) Decimal :=
  match _h : cutAt? (· == '/') cs with
  | some (above, below) => do
    let a ← readTrimmed (trimChars above)
    let b ← readTrimmed (trimChars below)
    (a.div? b).elim (.error cs) .ok
  | none =>
    let scientific := cs.any fun c => c == 'e' || c == 'E'
    (if scientific then ofScientific? cs else ofPlain? cs).elim (.error cs) .ok
termination_by cs.length
decreasing_by
  · have := length_of_cutAt? _h
    have := length_trimChars_le above
    omega
  · have := length_of_cutAt? _h
    have := length_trimChars_le below
    omega

/-- A number as tools print it: plain, scientific, or a fraction of two such numbers, with blanks
around each. On failure the error is the text that is no number. -/
def read (s : String) : Except String Decimal :=
  (readTrimmed (trimChars s.toList)).mapError String.ofList

end MarkovFit.Decimal
