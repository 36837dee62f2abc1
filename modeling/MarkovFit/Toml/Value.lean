import MarkovFit.Document

/-!
# TOML values

The values of a configuration text. A date or a time is a table with one entry of a reserved name,
in which its text stands in normal form.
-/

namespace MarkovFit.Toml

/-- A value. -/
inductive Value where
  | text (value : String)
  | integer (value : Int)
  | float (value : Float)
  | boolean (value : Bool)
  | list (items : List Value)
  | table (entries : List (String × Value))

namespace Value

/-- The name of the entry that holds a date or a time. -/
def dateKey : String := "$__toml_private_datetime"

/-- A date or a time. -/
def date (text : String) : Value := .table [(dateKey, .text text)]

/-- Entries in the order of their names. -/
def sortEntries {α : Type} (entries : List (String × α)) : List (String × α) :=
  entries.mergeSort fun a b => decide (a.1 ≤ b.1)

mutual

/-- The value as a document. -/
def document : Value → Document
  | .text value => .text value
  | .integer value => .integer value
  | .float value => .float value
  | .boolean value => .bool value
  | .list items => .list (documents items)
  | .table entries => .record (entryDocuments entries)

/-- The values of a list as documents. -/
def documents : List Value → List Document
  | [] => []
  | item :: items => document item :: documents items

/-- The entries of a table as documents. -/
def entryDocuments : List (String × Value) → List (String × Document)
  | [] => []
  | (name, value) :: entries => (name, document value) :: entryDocuments entries

end

end Value
end MarkovFit.Toml
