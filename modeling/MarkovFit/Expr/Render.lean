import MarkovFit.Expr.Basic
import MarkovFit.Decimal.Text

/-!
# Writing expressions

An expression is written with as few parentheses as its reader allows: an operand gets them when it
binds looser than the operation around it, or equally on the side where the operation does not
group.
-/

namespace MarkovFit

/-- The sign of multiplication, with blanks around it. -/
def Style.timesSign : Style → String
  | .math => " * "
  | .latex => " \\cdot "
  | .matlab => " .* "

/-- Parentheses around a text. -/
def Style.parenthesize (style : Style) (text : String) : String :=
  match style with
  | .latex => "\\left(" ++ text ++ "\\right)"
  | _ => "(" ++ text ++ ")"

/-- Braces around a text. -/
def braced (text : String) : String := "\x7b" ++ text ++ "\x7d"

/-- The sign of an operation between its operands; in typeset text a quotient and a power have
none. -/
def Style.operatorSign (style : Style) : Operator → String
  | .add => " + "
  | .sub => " - "
  | .mul => style.timesSign
  | .div => if style = .matlab then " ./ " else " / "
  | .pow => if style = .matlab then " .^ " else "^"

/-- Whether an equally tight operand needs parentheses on the left and on the right. -/
def Operator.strictSides : Operator → Bool × Bool
  | .pow => (true, false)
  | .sub | .div => (false, true)
  | .add | .mul => (false, false)

namespace Expr

/-- Whether an operand needs parentheses in an operation of precedence `parent`. -/
def needsParens (e : Expr) (parent : Nat) (strict : Bool) : Bool :=
  e.precedence < parent || (strict && e.precedence == parent)

/-- The text of an operand in an operation of precedence `parent`. -/
def enclose (style : Style) (e : Expr) (parent : Nat) (strict : Bool) (text : String) : String :=
  if e.needsParens parent strict then style.parenthesize text else text

/-- The text of an expression. -/
def render (style : Style) : Expr → String
  | .number value => value.shortText
  | .ident name => if style = .latex then "\\mathit" ++ braced name else name
  | .neg e => "-" ++ enclose style e negPrecedence true (render style e)
  | .ceil e =>
    match style with
    | .latex => "\\lceil " ++ render style e ++ " \\rceil"
    | .math => "⌈" ++ render style e ++ "⌉"
    | .matlab => "ceil(" ++ render style e ++ ")"
  | .sqrt e =>
    match style with
    | .latex => "\\sqrt" ++ braced (render style e)
    | .math => "sqrt(" ++ render style e ++ ")"
    | .matlab => "(" ++ render style e ++ ").^0.5"
  | .binary op l r =>
    let left := enclose style l op.precedence op.strictSides.1 (render style l)
    let right := enclose style r op.precedence op.strictSides.2 (render style r)
    if style = .latex && op = .div then
      "\\frac" ++ braced (render style l) ++ braced (render style r)
    else if style = .latex && op = .pow then left ++ "^" ++ braced right
    else left ++ style.operatorSign op ++ right

/-- The text of an expression as people write it. -/
def text (e : Expr) : String := e.render .math

end Expr
end MarkovFit
