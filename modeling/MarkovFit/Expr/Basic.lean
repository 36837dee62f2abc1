import MarkovFit.Decimal.Basic

/-!
# Arithmetic expressions

Expressions over decimals and identifiers. They are the terms of user templates and the functions of
the synthetic oracle.
-/

namespace MarkovFit

/-- The binary operations. -/
inductive Operator where
  | add | sub | mul | div | pow
deriving DecidableEq, Repr

/-- How tightly an operation binds: sums loosest, powers tightest. -/
def Operator.precedence : Operator → Nat
  | .add | .sub => 1
  | .mul | .div => 2
  | .pow => 4

/-- The name of an operation in messages. -/
def Operator.name : Operator → String
  | .add => "Add"
  | .sub => "Sub"
  | .mul => "Mul"
  | .div => "Div"
  | .pow => "Pow"

/-- An arithmetic expression. -/
inductive Expr where
  | number (value : Decimal)
  | ident (name : String)
  | neg (operand : Expr)
  | binary (op : Operator) (left right : Expr)
  | ceil (operand : Expr)
  | sqrt (operand : Expr)
deriving DecidableEq, Repr

/-- The ways to write an expression. -/
inductive Style where
  | math | latex | matlab
deriving DecidableEq, Repr

namespace Expr

/-- The precedence of a minus sign in front. -/
def negPrecedence : Nat := 3

/-- The precedence of what needs no parentheses. -/
def atomPrecedence : Nat := 5

/-- How tightly the outermost operation binds. -/
def precedence : Expr → Nat
  | .binary op _ _ => op.precedence
  | .neg _ => negPrecedence
  | _ => atomPrecedence

/-- Whether the outermost operation is a sum or a difference. -/
def isAdditive (e : Expr) : Bool := e.precedence < Operator.mul.precedence

/-- Inserts a name into a sorted list without duplicates. -/
def insertName (name : String) : List String → List String
  | [] => [name]
  | n :: names =>
    if name < n then name :: n :: names
    else if name = n then n :: names
    else n :: insertName name names

/-- The names that an expression refers to, added to a sorted list. -/
def addIdentifiers : Expr → List String → List String
  | .number _, names => names
  | .ident name, names => insertName name names
  | .neg e, names | .ceil e, names | .sqrt e, names => e.addIdentifiers names
  | .binary _ l r, names => r.addIdentifiers (l.addIdentifiers names)

/-- The names that an expression refers to, each once and in order. -/
def identifiers (e : Expr) : List String := e.addIdentifiers []

end Expr
end MarkovFit
