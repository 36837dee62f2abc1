import MarkovFit.Toml.Definition
import MarkovFit.Toml.Lexeme

/-!
# Reading TOML

A text is a list of lines: blank lines, headers, and names with values. Lists may go over lines,
tables in braces may not. Values nest at most 79 deep.
-/

namespace MarkovFit.Toml

open Lexeme

/-- Names of more parts, and values of more depth, are refused. -/
def nestingLimit : Nat := 80

/-- Blanks, comments and line ends between the values of a list. -/
def skipFiller (cs : List Char) : List Char := go cs.length cs
where
  /-- Skips `count` lines at most. -/
  go : Nat → List Char → List Char
    | 0, cs => skipBlanks cs
    | count + 1, cs =>
      match newline? (skipComment (skipBlanks cs)) with
      | some rest => go count rest
      | none => skipBlanks cs

/-- A name of parts with points between them. -/
def path? (cs : List Char) : Option (List String × List Char) := do
  let (names, rest) ← go cs.length cs
  if names.length < nestingLimit then return (names, rest) else none
where
  /-- Reads `count + 1` parts at most. -/
  go (count : Nat) (cs : List Char) : Option (List String × List Char) := do
    let (name, rest) ← name? (skipBlanks cs)
    match count, skipBlanks rest with
    | count + 1, '.' :: rest =>
      let (names, rest) ← go count rest
      return (name :: names, rest)
    | _, rest => return ([name], rest)

mutual

/-- A value inside `depth` others. The first argument bounds the steps of reading. -/
def value? : Nat → Nat → List Char → Option (Value × List Char)
  | 0, _, _ => none
  | fuel + 1, depth, cs =>
    match cs with
    | '[' :: cs =>
      if nestingLimit ≤ depth + 1 then none
      else
        match skipFiller cs with
        | ']' :: rest => some (.list [], rest)
        | cs => (items? fuel (depth + 1) cs).map fun (items, rest) => (.list items, rest)
    | '\x7b' :: cs =>
      if nestingLimit ≤ depth + 1 then none
      else
        match skipBlanks cs with
        | '\x7d' :: rest => some (.table [], rest)
        | cs =>
          (entries? fuel (depth + 1) [] cs).map fun (entries, rest) =>
            (.table (closeEntries entries), rest)
    | '"' :: _ | '\'' :: _ => (text? cs).map fun (s, rest) => (.text s, rest)
    | _ => plain? cs

/-- The values of a list, from the first one to the bracket; a comma may stand before that. -/
def items? : Nat → Nat → List Char → Option (List Value × List Char)
  | 0, _, _ => none
  | fuel + 1, depth, cs => do
    let (item, rest) ← value? fuel depth cs
    match skipFiller rest with
    | ']' :: rest => return ([item], rest)
    | ',' :: rest =>
      match skipFiller rest with
      | ']' :: rest => return ([item], rest)
      | rest =>
        let (items, rest) ← items? fuel depth rest
        return (item :: items, rest)
    | _ => none

/-- The entries of a table in braces, from one of them to the brace. -/
def entries? : Nat → Nat → Entries → List Char → Option (Entries × List Char)
  | 0, _, _, _ => none
  | fuel + 1, depth, entries, cs => do
    let (path, rest) ← path? cs
    let name ← path.getLast?
    match rest with
    | '=' :: rest =>
      let (value, rest) ← value? fuel depth (skipBlanks rest)
      let entries ← entries.assign path.dropLast name value
      match skipBlanks rest with
      | '\x7d' :: rest => return (entries, rest)
      | ',' :: rest => entries? fuel depth entries rest
      | _ => none
    | _ => none

end

/-- A value that begins at the front. -/
def topValue? (cs : List Char) : Option (Value × List Char) := value? (2 * cs.length + 2) 0 cs

/-- What a line says. -/
inductive Line where
  | blank
  | table (path : List String)
  | item (path : List String)
  | entry (path : List String) (name : String) (value : Value)

/-- The next line. -/
def line? (cs : List Char) : Option (Line × List Char) :=
  match skipBlanks cs with
  | '[' :: '[' :: cs => do
    let (path, rest) ← path? cs
    match rest with
    | ']' :: ']' :: rest => return (.item path, ← lineEnd? rest)
    | _ => none
  | '[' :: cs => do
    let (path, rest) ← path? cs
    match rest with
    | ']' :: rest => return (.table path, ← lineEnd? rest)
    | _ => none
  | cs =>
    match lineEnd? cs with
    | some rest => some (.blank, rest)
    | none => do
      let (path, rest) ← path? cs
      let name ← path.getLast?
      match rest with
      | '=' :: rest =>
        let (value, rest) ← topValue? (skipBlanks rest)
        return (.entry path.dropLast name value, ← lineEnd? rest)
      | _ => none

/-- The draft after a line. -/
def Draft.add (d : Draft) : Line → Option Draft
  | .blank => some d
  | .table path => d.beginTable path
  | .item path => d.beginItem path
  | .entry path name value => d.assign path name value

/-- Reads `count` lines at most. -/
def readLines : Nat → Draft → List Char → Option Draft
  | _, d, [] => some d
  | 0, _, _ :: _ => none
  | count + 1, d, cs => do
    let (line, rest) ← line? cs
    let d ← d.add line
    readLines count d rest

/-- Reads a text: a table with all that it defines. A byte order mark in front does not count. -/
def read? (s : String) : Option Value := do
  let cs := match s.toList with
    | '\uFEFF' :: cs => cs
    | cs => cs
  let d ← readLines (cs.length + 1) {} cs
  d.finish

end MarkovFit.Toml
