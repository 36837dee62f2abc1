import MarkovFit.Template.Monomial
import MarkovFit.Expr.Parser
import MarkovFit.Sample
import Std.Data.TreeMap

/-!
# Templates

A template is a family of functions that are linear in their coefficients: all polynomials up to a
degree, or the combinations of terms that a user lists. Each coefficient has a name, the template
gives the value of each term at a sample, and a function of the family is written from the values
of its coefficients.
-/

namespace MarkovFit

/-- Decimals by name; the names are in order. -/
abbrev Valuation := Std.TreeMap String Decimal

/-- The value of a coefficient. -/
def Valuation.coefficient (values : Valuation) (name : String) : Except Failure Decimal :=
  match values[name]? with
  | some value => .ok value
  | none => .error (.internal (.noCoefficient name))

/-- The monomials up to a degree with the names of their coefficients, by degree. -/
def Polynomial.namedMonomials (registry : Registry) (maxDegree : Nat) : List (String × Monomial) :=
  (Monomial.basis registry.size maxDegree).flatten.map fun m =>
    (m.coefficientName registry.names, m)

/-- The polynomials up to a degree, with their monomials listed once and for all. -/
structure Polynomial where
  registry : Registry
  maxDegree : Nat
  terms : List (String × Monomial) := Polynomial.namedMonomials registry maxDegree
  terms_eq : terms = Polynomial.namedMonomials registry maxDegree := by rfl

namespace Polynomial

/-- The names of the coefficients, in the order of the monomials. -/
def coefficients (p : Polynomial) : List String := p.terms.map (·.1)

/-- The coordinates of a sample in the order of the variables. -/
def point (p : Polynomial) (s : Sample) : Except Failure (List Decimal) :=
  p.registry.names.mapM fun name =>
    match s.get? name with
    | some value => .ok value
    | none => .error (.undefinedIdentifier name)

/-- The value of each monomial by the name of its coefficient. -/
def evaluate (p : Polynomial) (s : Sample) : Except Failure Valuation := do
  let point ← p.point s
  let pairs ← p.terms.mapM fun (name, m) => do return (name, ← m.evaluate point)
  return Std.TreeMap.ofList pairs

end Polynomial

/-- The linear combinations of a list of terms. -/
structure TermList where
  registry : Registry
  constants : Valuation
  terms : List Expr

namespace TermList

/-- The constants whose text is a number; the last one of a name counts. -/
def numericConstants (constants : List Constant) : Valuation :=
  constants.foldl
    (fun values c =>
      match Decimal.read c.value with
      | .ok value => values.insert c.name value
      | .error _ => values) ∅

/-- The first name in the terms that is neither a variable nor a numeric constant. -/
def unresolved? (registry : Registry) (constants : Valuation) (terms : List Expr) :
    Option String :=
  (terms.flatMap Expr.identifiers).find? fun name =>
    !registry.contains name && !constants.contains name

/-- Reads terms separated by commas; each name in them is a variable or a numeric constant. -/
def make (source : String) (registry : Registry) (constants : List Constant) :
    Except Failure TermList := do
  let terms ← Expr.parseTerms source
  let constants := numericConstants constants
  match unresolved? registry constants terms with
  | some name => .error (.undefinedIdentifier name)
  | none => .ok ⟨registry, constants, terms⟩

/-- The name of the coefficient of the term at an index. -/
def coefficientName (index : Nat) : String := "term_" ++ toString index

def coefficients (t : TermList) : List String := (List.range t.terms.length).map coefficientName

/-- The value of a name at a sample. -/
def lookup (t : TermList) (s : Sample) (name : String) : Option Decimal :=
  if t.registry.contains name then s.get? name else t.constants[name]?

/-- The value of each term by the name of its coefficient. -/
def evaluate (t : TermList) (s : Sample) : Except Failure Valuation := do
  let pairs ← (t.coefficients.zip t.terms).mapM fun (name, term) => do
    return (name, ← term.evaluate (t.lookup s))
  return Std.TreeMap.ofList pairs

end TermList

/-- A family of functions that are linear in their coefficients. -/
inductive Template where
  | polynomial (family : Polynomial)
  | terms (family : TermList)

namespace Template

/-- The template of a list of terms, if one is given, else the polynomials up to a degree. -/
def make (source : Option String) (degree : Nat) (registry : Registry)
    (constants : List Constant) : Except Failure Template :=
  match source with
  | some source => (TermList.make source registry constants).map .terms
  | none => .ok (.polynomial { registry := registry, maxDegree := degree })

/-- The names of the coefficients, in the order of writing. -/
def coefficients : Template → List String
  | .polynomial p => p.coefficients
  | .terms t => t.coefficients

/-- The value of each term at a sample, by the name of its coefficient. -/
def evaluate : Template → Sample → Except Failure Valuation
  | .polynomial p => p.evaluate
  | .terms t => t.evaluate

/-- Adds the products of terms and coefficients to `total`. -/
def combine (values : Valuation) (total : Decimal) :
    List (String × Decimal) → Except Failure Decimal
  | [] => .ok total
  | (name, term) :: rest => do
    let coefficient ← values.coefficient name
    let sum ← orArithmetic .templateOverflow ((coefficient.mul? term).bind total.add?)
    combine values sum rest

/-- The value at a sample of the function with these coefficients. Terms are added in the order of
their names. -/
def valueAt (t : Template) (s : Sample) (values : Valuation) : Except Failure Decimal := do
  let terms ← t.evaluate s
  combine values Decimal.zero terms.toList

end Template
end MarkovFit
