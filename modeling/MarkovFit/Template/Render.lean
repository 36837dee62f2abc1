import MarkovFit.Template.Basic

/-!
# Writing a fitted function

A function of a template is written as a sum of coefficients times terms. The sign of a coefficient
after the first becomes the sign between the terms.
-/

namespace MarkovFit

/-- A coefficient times a term, with the sign of the coefficient as a separator in front. A zero is
added whatever its sign. -/
def signedTerm (style : Style) (value : Decimal) (term : String) : String :=
  (if value.negative && !value.isZero then " - " else " + ") ++
    value.abs.shortText ++ style.timesSign ++ term

/-- The first coefficient stands alone, since its monomial is `1`. -/
def Polynomial.render (p : Polynomial) (style : Style) (values : Valuation) :
    Except Failure String := do
  let texts ← p.terms.mapM fun (name, m) => do
    return (← values.coefficient name, m.render style p.registry.names)
  match texts with
  | [] => return ""
  | (value, _) :: rest =>
    return value.shortText ++ String.join (rest.map fun (value, m) => signedTerm style value m)

/-- A term in parentheses, if it is a sum. -/
def TermList.renderTerm (style : Style) (term : Expr) : String :=
  if term.isAdditive then style.parenthesize (term.render style) else term.render style

/-- Every coefficient stands with its term. -/
def TermList.render (t : TermList) (style : Style) (values : Valuation) :
    Except Failure String := do
  let texts ← (t.coefficients.zip t.terms).mapM fun (name, term) => do
    return (← values.coefficient name, renderTerm style term)
  match texts with
  | [] => return ""
  | (value, term) :: rest =>
    return value.shortText ++ style.timesSign ++ term ++
      String.join (rest.map fun (value, term) => signedTerm style value term)

/-- The text of the function with these coefficients. -/
def Template.render (t : Template) (style : Style) (values : Valuation) : Except Failure String :=
  match t with
  | .polynomial p => p.render style values
  | .terms t => t.render style values

end MarkovFit
