import MarkovFit.Toml.Value
import MarkovFit.Text.Digits

/-!
# TOML texts, numbers and dates

Readers of the parts of a line. A reader takes characters and gives what it has read and what is
left, or nothing.
-/

namespace MarkovFit.Toml.Lexeme

open MarkovFit.Text (isDigit digitsValue)

/-- Without the blanks at the front. -/
def skipBlanks (cs : List Char) : List Char := cs.dropWhile fun c => c = ' ' ∨ c = '\t'

/-- What follows a line end. -/
def newline? : List Char → Option (List Char)
  | '\n' :: cs => some cs
  | '\r' :: '\n' :: cs => some cs
  | _ => none

/-- Characters of comments and of literal texts, quotes aside. -/
def isPrintable (c : Char) : Bool := c = '\t' || (0x20 ≤ c.val && c.val ≤ 0x7E) || 0x80 ≤ c.val

/-- Without a comment at the front. -/
def skipComment : List Char → List Char
  | '#' :: cs => cs.dropWhile isPrintable
  | cs => cs

/-- What follows the rest of a line that holds blanks and a comment at most. -/
def lineEnd? (cs : List Char) : Option (List Char) :=
  match skipComment (skipBlanks cs) with
  | [] => some []
  | cs => newline? cs

/-- Without blanks and line ends at the front. -/
def skipLines : List Char → List Char
  | ' ' :: cs => skipLines cs
  | '\t' :: cs => skipLines cs
  | '\n' :: cs => skipLines cs
  | '\r' :: '\n' :: cs => skipLines cs
  | cs => cs

theorem skipLines_length_le (cs : List Char) : (skipLines cs).length ≤ cs.length := by
  fun_induction skipLines cs with
  | case1 cs ih => exact Nat.le_succ_of_le ih
  | case2 cs ih => exact Nat.le_succ_of_le ih
  | case3 cs ih => exact Nat.le_succ_of_le ih
  | case4 cs ih => exact Nat.le_succ_of_le (Nat.le_succ_of_le ih)
  | case5 cs => exact Nat.le_refl _

theorem skipBlanks_length_le (cs : List Char) : (skipBlanks cs).length ≤ cs.length :=
  (List.dropWhile_sublist _).length_le

theorem newline?_length_lt {cs rest : List Char} (h : newline? cs = some rest) :
    rest.length < cs.length := by
  unfold newline? at h
  split at h
  · cases h
    exact Nat.lt_succ_self _
  · cases h
    exact Nat.lt_succ_of_le (Nat.le_succ _)
  · cases h

/-- A digit of a base up to sixteen. -/
def digitOf? (base : Nat) (c : Char) : Option Nat :=
  let n :=
    if isDigit c then c.val.toNat - 48
    else if 'a' ≤ c ∧ c ≤ 'f' then c.val.toNat - 87
    else if 'A' ≤ c ∧ c ≤ 'F' then c.val.toNat - 55
    else 16
  if n < base then some n else none

/-- The character with a number in hexadecimal digits. -/
def scalar? (digits : List Char) : Option Char := do
  let ds ← digits.mapM (digitOf? 16)
  let n := ds.foldl (fun n d => 16 * n + d) 0
  if n < 0xD800 ∨ (0xDFFF < n ∧ n < 0x110000) then some (Char.ofNat n) else none

/-- The character of an escape, after the backslash. -/
def escape? : List Char → Option (Char × List Char)
  | 'b' :: cs => some ('\x08', cs)
  | 'f' :: cs => some ('\x0c', cs)
  | 'n' :: cs => some ('\n', cs)
  | 'r' :: cs => some ('\r', cs)
  | 't' :: cs => some ('\t', cs)
  | '"' :: cs => some ('"', cs)
  | '\\' :: cs => some ('\\', cs)
  | 'u' :: a :: b :: c :: d :: cs => (scalar? [a, b, c, d]).map (·, cs)
  | 'U' :: a :: b :: c :: d :: e :: f :: g :: h :: cs =>
    (scalar? [a, b, c, d, e, f, g, h]).map (·, cs)
  | _ => none

theorem escape?_length_lt {cs rest : List Char} {c : Char} (h : escape? cs = some (c, rest)) :
    rest.length < cs.length := by
  unfold escape? at h
  split at h <;> simp_all <;> grind

/-- A basic text after its opening quote. -/
def basic (acc : List Char) (cs : List Char) : Option (String × List Char) :=
  match cs with
  | [] => none
  | '"' :: cs => some (String.ofList acc.reverse, cs)
  | '\\' :: cs =>
    match h : escape? cs with
    | some (c, rest) =>
      have := escape?_length_lt h
      basic (c :: acc) rest
    | none => none
  | c :: cs => if isPrintable c then basic (c :: acc) cs else none
termination_by cs.length

/-- A literal text after its opening quote. -/
def literal (acc : List Char) : List Char → Option (String × List Char)
  | [] => none
  | c :: cs =>
    if c = '\'' then some (String.ofList acc.reverse, cs)
    else if isPrintable c then literal (c :: acc) cs
    else none

/-- Quotes at the end of a text over lines: of a run of at least three, the last three close it, and
up to two more belong to the text. -/
def closing? (quote : Char) (cs : List Char) : Option (Nat × List Char) :=
  let run := (cs.takeWhile (· = quote)).length
  if run < 3 then none
  else
    let extra := min (run - 3) 2
    some (extra, cs.drop (extra + 3))

/-- A basic text over lines after its opening quotes. A backslash at the end of a line takes away
all blanks and line ends that follow. -/
def basicLines (acc : List Char) (cs : List Char) : Option (String × List Char) :=
  match cs with
  | [] => none
  | '"' :: cs =>
    match closing? '"' ('"' :: cs) with
    | some (extra, rest) => some (String.ofList (List.replicate extra '"' ++ acc).reverse, rest)
    | none => basicLines ('"' :: acc) cs
  | '\\' :: cs =>
    match h : escape? cs with
    | some (c, rest) =>
      have := escape?_length_lt h
      basicLines (c :: acc) rest
    | none =>
      match h : newline? (skipBlanks cs) with
      | some rest =>
        have := newline?_length_lt h
        have := skipBlanks_length_le cs
        have := skipLines_length_le rest
        basicLines acc (skipLines rest)
      | none => none
  | '\n' :: cs => basicLines ('\n' :: acc) cs
  | '\r' :: '\n' :: cs => basicLines ('\n' :: acc) cs
  | c :: cs => if isPrintable c then basicLines (c :: acc) cs else none
termination_by cs.length
decreasing_by all_goals simp_wf <;> omega

/-- A literal text over lines after its opening quotes. -/
def literalLines (acc : List Char) (cs : List Char) : Option (String × List Char) :=
  match cs with
  | [] => none
  | '\'' :: cs =>
    match closing? '\'' ('\'' :: cs) with
    | some (extra, rest) => some (String.ofList (List.replicate extra '\'' ++ acc).reverse, rest)
    | none => literalLines ('\'' :: acc) cs
  | '\n' :: cs => literalLines ('\n' :: acc) cs
  | '\r' :: '\n' :: cs => literalLines ('\n' :: acc) cs
  | c :: cs => if isPrintable c then literalLines (c :: acc) cs else none

/-- What follows a line end, if there is one. -/
def skipNewline (cs : List Char) : List Char := (newline? cs).getD cs

/-- A text in any notation. -/
def text? : List Char → Option (String × List Char)
  | '"' :: '"' :: '"' :: cs => basicLines [] (skipNewline cs)
  | '"' :: cs => basic [] cs
  | '\'' :: '\'' :: '\'' :: cs => literalLines [] (skipNewline cs)
  | '\'' :: cs => literal [] cs
  | _ => none

/-- Characters of names without quotes. -/
def isBare (c : Char) : Bool := c.isAlphanum || c = '_' || c = '-'

/-- A name. -/
def name? : List Char → Option (String × List Char)
  | '"' :: cs => basic [] cs
  | '\'' :: cs => literal [] cs
  | cs =>
    let bare := cs.takeWhile isBare
    if bare.isEmpty then none else some (String.ofList bare, cs.drop bare.length)

/-- Digits of a base, at least one, with single underscores between them; the underscores are left
out. -/
def digits? (base : Nat) : List Char → Option (List Char × List Char)
  | [] => none
  | c :: cs => if (digitOf? base c).isSome then more c cs else none
where
  /-- The digit `c`, which is read already, and the digits after it. -/
  more (c : Char) : List Char → Option (List Char × List Char)
    | [] => some ([c], [])
    | '_' :: [] => none
    | '_' :: d :: cs =>
      if (digitOf? base d).isSome then (more d cs).map fun (ds, rest) => (c :: ds, rest) else none
    | d :: cs =>
      if (digitOf? base d).isSome then (more d cs).map fun (ds, rest) => (c :: ds, rest)
      else some ([c], d :: cs)

/-- A sign, if there is one. -/
def sign : List Char → List Char × List Char
  | '+' :: cs => (['+'], cs)
  | '-' :: cs => (['-'], cs)
  | cs => ([], cs)

/-- A whole number in decimal digits. Only zero begins with a zero. -/
def whole? (cs : List Char) : Option (List Char × List Char) :=
  match sign cs with
  | (s, '0' :: cs) => some (s ++ ['0'], cs)
  | (s, cs) => (digits? 10 cs).map fun (ds, rest) => (s ++ ds, rest)

/-- The value of digits of a base. -/
def valueOf (base : Nat) (cs : List Char) : Nat :=
  cs.foldl (fun n c => base * n + (digitOf? base c).getD 0) 0

/-- An integer of 64 bits. -/
def int64? (n : Int) : Option Value :=
  if -9223372036854775808 ≤ n ∧ n < 9223372036854775808 then some (.integer n) else none

/-- An integer in decimal digits, or without a sign in another base. -/
def integer? : List Char → Option (Value × List Char)
  | '0' :: 'x' :: cs => ofBase 16 cs
  | '0' :: 'o' :: cs => ofBase 8 cs
  | '0' :: 'b' :: cs => ofBase 2 cs
  | cs => do
    let (ds, rest) ← whole? cs
    let n : Int := match sign ds with
      | (['-'], ds) => -(valueOf 10 ds : Int)
      | (_, ds) => valueOf 10 ds
    return (← int64? n, rest)
where
  /-- The digits of a base. -/
  ofBase (base : Nat) (cs : List Char) : Option (Value × List Char) := do
    let (ds, rest) ← digits? base cs
    return (← int64? (valueOf base ds), rest)

/-- A power of ten, after the letter. -/
def exponent? (cs : List Char) : Option (List Char × List Char) := do
  let (s, cs) := sign cs
  let (ds, rest) ← digits? 10 cs
  return ('e' :: s ++ ds, rest)

/-- The exponent, if there is one. -/
def optionalExponent? : List Char → Option (List Char × List Char)
  | 'e' :: cs => exponent? cs
  | 'E' :: cs => exponent? cs
  | cs => some ([], cs)

/-- The fraction and the exponent of a float; one of them at least. -/
def fraction? : List Char → Option (List Char × List Char)
  | '.' :: cs => do
    let (ds, rest) ← digits? 10 cs
    let (es, rest) ← optionalExponent? rest
    return ('.' :: ds ++ es, rest)
  | 'e' :: cs => exponent? cs
  | 'E' :: cs => exponent? cs
  | _ => none

/-- A float in digits. Only negative ones may be too large. -/
def decimalFloat? (cs : List Char) : Option (Value × List Char) := do
  let (ds, rest) ← whole? cs
  let (fs, rest) ← fraction? rest
  let x ← Double.read? (String.ofList (ds ++ fs))
  if Double.parts x = .infinite false then none else some (.float x, rest)

/-- An infinity, or what is no number. -/
def specialFloat? (cs : List Char) : Option (Value × List Char) :=
  let (s, cs) := sign cs
  let negative := s = ['-']
  match cs with
  | 'i' :: 'n' :: 'f' :: rest => some (.float (Double.infinity negative), rest)
  | 'n' :: 'a' :: 'n' :: rest =>
    some (.float (Double.noNumber negative), rest)
  | _ => none

/-- Two digits of a value between `lo` and `hi`. -/
def twoDigits? (lo hi : Nat) : List Char → Option (Nat × List Char)
  | a :: b :: cs =>
    if isDigit a && isDigit b then
      let n := digitsValue 0 [a, b]
      if lo ≤ n ∧ n ≤ hi then some (n, cs) else none
    else none
  | _ => none

/-- The character `c`. -/
def char? (c : Char) : List Char → Option (List Char)
  | d :: cs => if c = d then some cs else none
  | [] => none

/-- The number of days of a month. -/
def daysOf (year month : Nat) : Nat :=
  if month = 2 then
    if year % 4 = 0 ∧ (year % 100 ≠ 0 ∨ year % 400 = 0) then 29 else 28
  else if month = 4 ∨ month = 6 ∨ month = 9 ∨ month = 11 then 30
  else 31

/-- A number in at least `width` digits. -/
def padded (width n : Nat) : String :=
  let cs := (toString n).toList
  String.ofList (List.replicate (width - cs.length) '0' ++ cs)

/-- A date, in normal form. -/
def day? : List Char → Option (String × List Char)
  | a :: b :: c :: d :: '-' :: cs => do
    if !([a, b, c, d].all isDigit) then none
    else
      let year := digitsValue 0 [a, b, c, d]
      let (month, cs) ← twoDigits? 1 12 cs
      let cs ← char? '-' cs
      let (day, cs) ← twoDigits? 1 31 cs
      if daysOf year month < day then none
      else return (padded 4 year ++ "-" ++ padded 2 month ++ "-" ++ padded 2 day, cs)
  | _ => none

/-- The fraction of a second: nine digits at most count, and zeros at the end are left out. -/
def secondFraction? : List Char → Option (String × List Char)
  | '.' :: cs =>
    let ds := cs.takeWhile isDigit
    if ds.isEmpty then none
    else
      let kept := ((ds.take 9).reverse.dropWhile (· = '0')).reverse
      some (if kept.isEmpty then "" else String.ofList ('.' :: kept), cs.drop ds.length)
  | cs => some ("", cs)

/-- A time of day, in normal form. -/
def time? (cs : List Char) : Option (String × List Char) := do
  let (hour, cs) ← twoDigits? 0 23 cs
  let cs ← char? ':' cs
  let (minute, cs) ← twoDigits? 0 59 cs
  let cs ← char? ':' cs
  let (second, cs) ← twoDigits? 0 60 cs
  let (fraction, cs) ← secondFraction? cs
  return (padded 2 hour ++ ":" ++ padded 2 minute ++ ":" ++ padded 2 second ++ fraction, cs)

/-- The distance from universal time, in normal form; nothing if there is none. -/
def offset? : List Char → Option (String × List Char)
  | 'Z' :: cs => some ("Z", cs)
  | 'z' :: cs => some ("Z", cs)
  | '+' :: cs => distance "+" cs
  | '-' :: cs => distance "-" cs
  | cs => some ("", cs)
where
  /-- Hours and minutes. A distance of zero is positive. -/
  distance (s : String) (cs : List Char) : Option (String × List Char) := do
    let (hour, cs) ← twoDigits? 0 23 cs
    let cs ← char? ':' cs
    let (minute, cs) ← twoDigits? 0 59 cs
    let s := if hour = 0 ∧ minute = 0 then "+" else s
    return (s ++ padded 2 hour ++ ":" ++ padded 2 minute, cs)

/-- A time behind a date. -/
def timeOfDay? : List Char → Option (String × List Char)
  | c :: cs =>
    if c = 'T' ∨ c = 't' ∨ c = ' ' then do
      let (time, cs) ← time? cs
      let (offset, cs) ← offset? cs
      return ("T" ++ time ++ offset, cs)
    else none
  | [] => none

/-- A date, a time or both. -/
def date? (cs : List Char) : Option (Value × List Char) :=
  match day? cs with
  | some (day, rest) =>
    match timeOfDay? rest with
    | some (time, rest) => some (.date (day ++ time), rest)
    | none => some (.date day, rest)
  | none => (time? cs).map fun (time, rest) => (.date time, rest)

/-- A number, a date or a word. -/
def plain? : List Char → Option (Value × List Char)
  | 't' :: 'r' :: 'u' :: 'e' :: cs => some (.boolean true, cs)
  | 'f' :: 'a' :: 'l' :: 's' :: 'e' :: cs => some (.boolean false, cs)
  | cs =>
    (date? cs).orElse fun _ => (decimalFloat? cs).orElse fun _ =>
      (specialFloat? cs).orElse fun _ => integer? cs

end MarkovFit.Toml.Lexeme
