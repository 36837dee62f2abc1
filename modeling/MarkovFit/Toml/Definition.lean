import MarkovFit.Toml.Value

/-!
# Definitions of tables

A TOML text defines tables by headers, by dotted names and by headers of deeper tables, and each way
allows other additions later. A draft keeps the tables of a text with the way in which each was
defined, and refuses a second definition.
-/

namespace MarkovFit.Toml

/-- How a table was defined: by a header of its own, by the header of a table inside it, or by a
dotted name. -/
inductive Origin where
  | header | implied | dotted
deriving DecidableEq, Repr

/-- What a name stands for while a text is read. A value is closed; the last one of several tables
of one name takes additions. -/
inductive Node where
  | value (value : Value)
  | table (origin : Origin) (entries : List (String × Node))
  | tables (items : List (List (String × Node)))

/-- Names with what they stand for. -/
abbrev Entries := List (String × Node)

namespace Entries

/-- The entries with another node under a name that is there. -/
def replace (entries : Entries) (name : String) (node : Node) : Entries :=
  entries.map fun entry => if entry.1 = name then (name, node) else entry

def remove (entries : Entries) (name : String) : Entries :=
  entries.filter fun entry => entry.1 ≠ name

/-- Changes the table at a path. Tables that are missing on the way are made. A dotted path does not
go through tables with headers of their own. -/
def change {β : Type} (dotted : Bool) (f : Origin → Entries → Option (Entries × β)) :
    List String → Origin → Entries → Option (Entries × β)
  | [], origin, entries => f origin entries
  | name :: path, _, entries =>
    match entries.lookup name with
    | none => do
      let origin := if dotted then Origin.dotted else .implied
      let (inner, b) ← change dotted f path origin []
      return (entries ++ [(name, .table origin inner)], b)
    | some (.value _) => none
    | some (.tables items) => do
      let last ← items.getLast?
      let (inner, b) ← change dotted f path .header last
      return (entries.replace name (.tables (items.dropLast ++ [inner])), b)
    | some (.table origin inner) =>
      if dotted && origin = .header then none
      else do
        let (inner, b) ← change dotted f path origin inner
        return (entries.replace name (.table origin inner), b)

/-- Gives a value to a new name at a dotted path. A dotted name adds to tables of dotted names only,
and a plain name adds to no such table. -/
def assign (entries : Entries) (path : List String) (name : String) (value : Value) :
    Option Entries :=
  (change true
    (fun origin entries =>
      if (origin == .dotted) == path.isEmpty then none
      else if (entries.lookup name).isSome then none
      else some (entries ++ [(name, Node.value value)], ()))
    path .header entries).map (·.1)

end Entries

mutual

/-- The value of a node. -/
def Node.close : Node → Value
  | .value value => value
  | .table _ entries => .table (closeEntries entries)
  | .tables items => .list (closeTables items)

/-- The values of some entries. -/
def closeEntries : List (String × Node) → List (String × Value)
  | [] => []
  | (name, node) :: entries => (name, node.close) :: closeEntries entries

/-- The values of some tables. -/
def closeTables : List (List (String × Node)) → List Value
  | [] => []
  | entries :: items => .table (closeEntries entries) :: closeTables items

end

/-- A text that is read in part: all tables but the last one, and the last one with its header. -/
structure Draft where
  root : Entries := []
  current : Entries := []
  path : List String := []
  /-- Whether the header of the last table is that of one among several. -/
  several : Bool := false

namespace Draft

/-- Puts the last table in its place. -/
def settle (d : Draft) : Option Entries :=
  match d.path.getLast? with
  | none => some d.current
  | some name =>
    (Entries.change false
      (fun _ entries =>
        match entries.lookup name, d.several with
        | none, true => some (entries ++ [(name, .tables [d.current])], ())
        | some (.tables items), true =>
          some (entries.replace name (.tables (items ++ [d.current])), ())
        | none, false => some (entries ++ [(name, .table .header d.current)], ())
        | _, _ => none)
      d.path.dropLast .header d.root).map (·.1)

/-- Begins a table. A table that so far is only implied by deeper ones keeps these. -/
def beginTable (d : Draft) (path : List String) : Option Draft := do
  let root ← d.settle
  let name ← path.getLast?
  let (root, current) ← Entries.change false
    (fun _ entries =>
      match entries.lookup name with
      | none => some (entries, [])
      | some (.table .implied inner) => some (entries.remove name, inner)
      | some _ => none)
    path.dropLast .header root
  return { root := root, current := current, path := path }

/-- Begins one table among several of a name. -/
def beginItem (d : Draft) (path : List String) : Option Draft := do
  let root ← d.settle
  let name ← path.getLast?
  let (root, _) ← Entries.change false
    (fun _ entries =>
      match entries.lookup name with
      | none | some (.tables _) => some (entries, ())
      | some _ => none)
    path.dropLast .header root
  return { root := root, path := path, several := true }

/-- Gives a value to a name in the last table. -/
def assign (d : Draft) (path : List String) (name : String) (value : Value) : Option Draft := do
  let current ← d.current.assign path name value
  return { d with current := current }

/-- All tables. -/
def finish (d : Draft) : Option Value := d.settle.map fun entries => .table (closeEntries entries)

end Draft
end MarkovFit.Toml
