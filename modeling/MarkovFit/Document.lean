import MarkovFit.Double.Text

/-!
# Documents

Structured values as reports and dumps show them, and their text as indented JSON.
-/

namespace MarkovFit

/-- A structured value. The fields of a record stand in the order of its text. -/
inductive Document where
  | null
  | bool (value : Bool)
  | integer (value : Int)
  | float (value : Float)
  | text (value : String)
  | list (items : List Document)
  | record (fields : List (String × Document))

namespace Document

/-- An optional value. -/
def option {α : Type} (f : α → Document) : Option α → Document
  | none => .null
  | some a => f a

/-- A natural number. -/
def natural (n : Nat) : Document := .integer n

/-- A hexadecimal digit in lower case. -/
def hexDigit (n : Nat) : Char := if n < 10 then Char.ofNat (48 + n) else Char.ofNat (87 + n)

/-- A character inside a quoted text. -/
def escapeChar (c : Char) : List Char :=
  if c = '"' then ['\\', '"']
  else if c = '\\' then ['\\', '\\']
  else if c = '\n' then ['\\', 'n']
  else if c = '\r' then ['\\', 'r']
  else if c = '\t' then ['\\', 't']
  else if c = '\x08' then ['\\', 'b']
  else if c = '\x0c' then ['\\', 'f']
  else if c.val < 0x20 then
    ['\\', 'u', '0', '0', hexDigit (c.val.toNat / 16), hexDigit (c.val.toNat % 16)]
  else [c]

/-- A text in quotes. -/
def quoted (s : String) : String := String.ofList ('"' :: s.toList.flatMap escapeChar ++ ['"'])

/-- A finite double as a JSON number: with a fraction or an exponent always, positional between
`1e-5` and `1e16`. What is no number or not finite is null. -/
def floatText (x : Float) : String :=
  match Double.parts x with
  | .nan | .infinite _ => "null"
  | .finite negative m e =>
    if m = 0 then Double.signed negative ['0', '.', '0']
    else
      let (digits, exponent) := Double.shortest m e
      let cs := (toString digits).toList
      let point := exponent + cs.length
      if -5 < point ∧ point ≤ 16 then
        let body := Double.positional cs exponent
        Double.signed negative (if 0 ≤ exponent then body ++ ['.', '0'] else body)
      else Double.scientific x

/-- A line break and the blanks of a depth. -/
def lineBreak (depth : Nat) : String := "\n" ++ String.ofList (List.replicate (2 * depth) ' ')

mutual

/-- The indented JSON text at a depth. -/
def render (depth : Nat) : Document → String
  | .null => "null"
  | .bool value => if value then "true" else "false"
  | .integer value => toString value
  | .float value => floatText value
  | .text value => quoted value
  | .list [] => "[]"
  | .list (item :: items) =>
    "[" ++ lineBreak (depth + 1) ++ render (depth + 1) item ++ renderItems (depth + 1) items ++
      lineBreak depth ++ "]"
  | .record [] => "\x7b\x7d"
  | .record ((name, value) :: fields) =>
    "\x7b" ++ lineBreak (depth + 1) ++ quoted name ++ ": " ++ render (depth + 1) value ++
      renderFields (depth + 1) fields ++ lineBreak depth ++ "\x7d"

/-- The items after the first one. -/
def renderItems (depth : Nat) : List Document → String
  | [] => ""
  | item :: items => "," ++ lineBreak depth ++ render depth item ++ renderItems depth items

/-- The fields after the first one. -/
def renderFields (depth : Nat) : List (String × Document) → String
  | [] => ""
  | (name, value) :: fields =>
    "," ++ lineBreak depth ++ quoted name ++ ": " ++ render depth value ++ renderFields depth fields

end

/-- The indented JSON text. -/
def json (d : Document) : String := d.render 0

end Document
end MarkovFit
