import MarkovFit.Toml.Value

/-!
# The text of a TOML value

Values are written on one line where that is possible. A text takes the first notation that shows it
without escapes: basic, literal, basic over lines, literal over lines; else a basic notation with
escapes.
-/

namespace MarkovFit.Toml

/-- What a text contains that notations cannot all show. -/
structure Ingredients where
  /-- The longest runs of quotes. -/
  singles : Nat := 0
  doubles : Nat := 0
  backslash : Bool := false
  newline : Bool := false
  /-- Control characters besides tabs and line feeds. -/
  control : Bool := false

namespace Text

/-- The length of the longest run of a character. -/
def longestRun (c : Char) (cs : List Char) : Nat := go 0 0 cs
where
  /-- The longest of a run so far, the present run and all later ones. -/
  go (best current : Nat) : List Char → Nat
    | [] => max best current
    | d :: ds => if d = c then go best (current + 1) ds else go (max best current) 0 ds

def isControl (c : Char) : Bool := c.val ≤ 0x1f || c.val == 0x7f

def ingredients (cs : List Char) : Ingredients :=
  { singles := longestRun '\'' cs
    doubles := longestRun '"' cs
    backslash := cs.contains '\\'
    newline := cs.contains '\n'
    control := cs.any fun c => isControl c && c != '\t' && c != '\n' }

/-- A notation: the quote, whether it goes over lines, and whether escapes are read. -/
structure Quoting where
  quote : Char
  multiline : Bool
  escapes : Bool

/-- The notation for a text. -/
def choose (i : Ingredients) : Quoting :=
  if !i.control && !i.backslash && i.doubles = 0 && !i.newline then ⟨'"', false, true⟩
  else if !i.control && i.singles = 0 && !i.newline then ⟨'\'', false, false⟩
  else if !i.control && !i.backslash && i.doubles ≤ 2 then ⟨'"', true, true⟩
  else if !i.control && i.singles ≤ 2 then ⟨'\'', true, false⟩
  else ⟨'"', i.newline, true⟩

/-- A character number in four hexadecimal digits of upper case. -/
def hex4 (n : Nat) : List Char :=
  [n / 4096 % 16, n / 256 % 16, n / 16 % 16, n % 16].map fun d =>
    if d < 10 then Char.ofNat (48 + d) else Char.ofNat (55 + d)

/-- Escapes a text. Over lines, line feeds stand for themselves and so do runs of two quotes. -/
def escape (multiline : Bool) : Nat → List Char → List Char
  | _, [] => []
  | run, c :: cs =>
    if c = '"' then
      if (if multiline then 2 else 0) < run + 1 then '\\' :: '"' :: escape multiline 0 cs
      else '"' :: escape multiline (run + 1) cs
    else if c = '\x08' then '\\' :: 'b' :: escape multiline 0 cs
    else if c = '\t' then '\\' :: 't' :: escape multiline 0 cs
    else if c = '\n' then
      if multiline then '\n' :: escape multiline 0 cs else '\\' :: 'n' :: escape multiline 0 cs
    else if c = '\x0c' then '\\' :: 'f' :: escape multiline 0 cs
    else if c = '\r' then '\\' :: 'r' :: escape multiline 0 cs
    else if c = '\\' then '\\' :: '\\' :: escape multiline 0 cs
    else if isControl c then '\\' :: 'u' :: hex4 c.val.toNat ++ escape multiline 0 cs
    else c :: escape multiline 0 cs

/-- A text in a notation. Over lines, a text with line feeds begins on a line of its own. -/
def write (n : Quoting) (newline : Bool) (cs : List Char) : List Char :=
  let delimiter := List.replicate (if n.multiline then 3 else 1) n.quote
  let body := if n.escapes then escape n.multiline 0 cs else cs
  delimiter ++ (if n.multiline && newline then ['\n'] else []) ++ body ++ delimiter

/-- A text in quotes. -/
def quoted (s : String) : String :=
  let i := ingredients s.toList
  String.ofList (write (choose i) i.newline s.toList)

/-- Characters of names that need no quotes. -/
def isBare (c : Char) : Bool := c.isAlphanum || c == '_' || c == '-'

/-- A name, in quotes unless it is bare. -/
def key (s : String) : String :=
  if !s.isEmpty && s.toList.all isBare then s
  else String.ofList (write ⟨'"', false, true⟩ false s.toList)

/-- A double; an integral one has a zero after the point. -/
def float (x : Float) : String :=
  match Double.parts x with
  | .nan => "nan"
  | .infinite negative => if negative then "-inf" else "inf"
  | .finite .. =>
    let s := Double.display x
    if s.toList.contains '.' then s else s ++ ".0"

end Text

namespace Value

mutual

/-- The text of a value, on one line if its texts are. -/
def render : Value → String
  | .text value => Text.quoted value
  | .integer value => toString value
  | .float value => Text.float value
  | .boolean value => if value then "true" else "false"
  | .list items => "[" ++ ", ".intercalate (renderItems items) ++ "]"
  | .table [] => "\x7b\x7d"
  | .table (entry :: entries) =>
    let entries := Value.sortEntries (renderEntries (entry :: entries))
    "\x7b " ++ ", ".intercalate (entries.map (·.2)) ++ " \x7d"

/-- The texts of the values of a list. -/
def renderItems : List Value → List String
  | [] => []
  | item :: items => render item :: renderItems items

/-- The texts of the entries of a table with their names. -/
def renderEntries : List (String × Value) → List (String × String)
  | [] => []
  | (name, value) :: entries =>
    (name, Text.key name ++ " = " ++ render value) :: renderEntries entries

end

end Value
end MarkovFit.Toml
