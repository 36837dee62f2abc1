import MarkovFit.Template.Registry
import MarkovFit.Expr.Eval
import MarkovFit.Expr.Render

/-!
# Monomials

A monomial is its list of exponents, one for each variable. `basis n d` lists all monomials in `n`
variables up to degree `d`, by degree and within a degree in decreasing lexicographic order, so
that `x²` comes before `xy` and `xy` before `y²`.
-/

namespace MarkovFit

/-- A product of powers of the registered variables. -/
structure Monomial where
  exponents : List Nat
deriving DecidableEq, Repr

namespace Monomial

/-- The monomial `1`. -/
def one (dimension : Nat) : Monomial := ⟨List.replicate dimension 0⟩

/-- The product with a variable. -/
def times (m : Monomial) (index : Nat) : Monomial := ⟨m.exponents.modify index (· + 1)⟩

/-- The sum of the exponents. -/
def degree (m : Monomial) : Nat := m.exponents.foldr (· + ·) 0

/-- The name of the coefficient of a monomial: every variable with its exponent. -/
def coefficientName (names : List String) (m : Monomial) : String :=
  "coeff" ++
    String.join ((names.zip m.exponents).map fun (name, e) => "_" ++ name ++ "_" ++ toString e)

/-- Multiplies `acc` by the powers of the coordinates. -/
def evaluateFrom (acc : Decimal) : List (Decimal × Nat) → Except Failure Decimal
  | [] => .ok acc
  | (_, 0) :: factors => evaluateFrom acc factors
  | (base, e) :: factors => do
    let power ←
      if e = 1 then pure base else orArithmetic (.powerOverflow base e) (base.powNat? e)
    let product ← orArithmetic .monomialOverflow (acc.mul? power)
    evaluateFrom product factors

/-- The value at a point. -/
def evaluate (m : Monomial) (point : List Decimal) : Except Failure Decimal :=
  evaluateFrom Decimal.one (point.zip m.exponents)

/-- A digit raised above the line. -/
def superscriptDigit (c : Char) : Char :=
  match c with
  | '0' => '⁰'
  | '1' => '¹'
  | '2' => '²'
  | '3' => '³'
  | '4' => '⁴'
  | '5' => '⁵'
  | '6' => '⁶'
  | '7' => '⁷'
  | '8' => '⁸'
  | '9' => '⁹'
  | c => c

/-- A power of a variable. -/
def renderPower (style : Style) (name : String) (e : Nat) : String :=
  if e = 1 then name
  else
    match style with
    | .latex => name ++ "^" ++ braced (toString e)
    | .math => name ++ String.ofList ((toString e).toList.map superscriptDigit)
    | .matlab => "(" ++ name ++ " .^ " ++ toString e ++ ")"

/-- The text of a monomial; variables that do not occur are left out. -/
def render (style : Style) (names : List String) (m : Monomial) : String :=
  let factors := (names.zip m.exponents).filter fun (_, e) => e != 0
  if factors.isEmpty then "1"
  else style.timesSign.intercalate (factors.map fun (name, e) => renderPower style name e)

/-- All lists of `n` exponents with sum `d`, in decreasing lexicographic order. -/
def exponentLists : Nat → Nat → List (List Nat)
  | 0, 0 => [[]]
  | 0, _ + 1 => []
  | n + 1, d => (List.range (d + 1)).reverse.flatMap fun e => (exponentLists n (d - e)).map (e :: ·)

/-- All monomials in some variables up to a degree, grouped by degree. -/
def basis (dimension maxDegree : Nat) : List (List Monomial) :=
  (List.range (maxDegree + 1)).map fun d => (exponentLists dimension d).map Monomial.mk

end Monomial
end MarkovFit
