import MarkovFit.Parameter

/-!
# Registries of variables

The variables of a template, in the order of the parameters and each once.
-/

namespace MarkovFit

/-- A list of distinct names. -/
structure Registry where
  names : List String
  nodup : names.Nodup

namespace Registry

/-- The first name that repeats an earlier one. -/
def firstRepeated? (seen : List String) : List String → Option String
  | [] => none
  | name :: names =>
    if seen.contains name then some name else firstRepeated? (seen ++ [name]) names

/-- The registry of these names, if they are distinct. -/
def ofNames (names : List String) : Except Failure Registry :=
  if h : names.Nodup then .ok ⟨names, h⟩
  else .error (.invalidInput (.duplicateVariable ((firstRepeated? [] names).getD "")))

/-- The registry of the names of some parameters. -/
def ofParameters (parameters : List Parameter) : Except Failure Registry :=
  ofNames (parameters.map (·.name))

/-- The number of variables. -/
def size (r : Registry) : Nat := r.names.length

/-- The place of a name. -/
def indexOf? (r : Registry) (name : String) : Option Nat := r.names.idxOf? name

/-- Whether a name is registered. -/
def contains (r : Registry) (name : String) : Bool := r.names.contains name

end Registry
end MarkovFit
