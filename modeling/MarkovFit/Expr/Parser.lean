import MarkovFit.Failure

/-!
# Reading expressions

```text
terms   := sum ("," sum)*
sum     := product (("+" | "-") product)*
product := unary (("*" | "/") unary)*
unary   := "-" unary | "+" unary | power
power   := atom ("^" unary)?
atom    := number | ident | ("ceil" | "sqrt") "(" sum ")" | "(" sum ")"
```

Each reader takes the tokens that are left and returns an expression with the tokens left after it,
which are fewer. A name is a function exactly when a parenthesis follows it.
-/

namespace MarkovFit.Expr

/-- Why a list of tokens is no expression, at the tokens that were left. -/
inductive SyntaxError where
  | expected (wanted : Wanted) (rest : List Token)
  | unknownFunction (name : String)
deriving DecidableEq, Repr

/-- An expression and fewer tokens than before it. -/
abbrev Parsed (ts : List Token) := { p : Expr × List Token // p.2.length < ts.length }

/-- An expression and no more tokens than before it. -/
abbrev Continued (ts : List Token) := { p : Expr × List Token // p.2.length ≤ ts.length }

/-- The functions by name. -/
def function? : String → Option (Expr → Expr)
  | "ceil" => some .ceil
  | "sqrt" => some .sqrt
  | _ => none

/-- The tokens after a closing parenthesis. -/
def closing (ts : List Token) :
    Except SyntaxError { rest : List Token // rest.length < ts.length } :=
  match ts with
  | .rightParen :: rest => .ok ⟨rest, by simp⟩
  | _ => .error (.expected (.token .rightParen) ts)

mutual

def parseSum (ts : List Token) : Except SyntaxError (Parsed ts) := do
  let ⟨(left, rest), h⟩ ← parseProduct ts
  have : rest.length < ts.length := h
  let ⟨result, _⟩ ← continueSum left rest
  return ⟨result, by simp only at *; omega⟩
termination_by (ts.length, 6)

/-- Goes on with a sum whose first part is `left`. -/
def continueSum (left : Expr) (ts : List Token) : Except SyntaxError (Continued ts) :=
  match ts with
  | .plus :: rest => do
    let ⟨(right, rest'), h⟩ ← parseProduct rest
    have : rest'.length < rest.length := h
    let ⟨result, _⟩ ← continueSum (.binary .add left right) rest'
    return ⟨result, by simp only [List.length_cons] at *; omega⟩
  | .minus :: rest => do
    let ⟨(right, rest'), h⟩ ← parseProduct rest
    have : rest'.length < rest.length := h
    let ⟨result, _⟩ ← continueSum (.binary .sub left right) rest'
    return ⟨result, by simp only [List.length_cons] at *; omega⟩
  | rest => return ⟨(left, rest), Nat.le_refl _⟩
termination_by (ts.length, 5)

def parseProduct (ts : List Token) : Except SyntaxError (Parsed ts) := do
  let ⟨(left, rest), h⟩ ← parseUnary ts
  have : rest.length < ts.length := h
  let ⟨result, _⟩ ← continueProduct left rest
  return ⟨result, by simp only at *; omega⟩
termination_by (ts.length, 4)

/-- Goes on with a product whose first part is `left`. -/
def continueProduct (left : Expr) (ts : List Token) : Except SyntaxError (Continued ts) :=
  match ts with
  | .star :: rest => do
    let ⟨(right, rest'), h⟩ ← parseUnary rest
    have : rest'.length < rest.length := h
    let ⟨result, _⟩ ← continueProduct (.binary .mul left right) rest'
    return ⟨result, by simp only [List.length_cons] at *; omega⟩
  | .slash :: rest => do
    let ⟨(right, rest'), h⟩ ← parseUnary rest
    have : rest'.length < rest.length := h
    let ⟨result, _⟩ ← continueProduct (.binary .div left right) rest'
    return ⟨result, by simp only [List.length_cons] at *; omega⟩
  | rest => return ⟨(left, rest), Nat.le_refl _⟩
termination_by (ts.length, 3)

def parseUnary (ts : List Token) : Except SyntaxError (Parsed ts) :=
  match ts with
  | .minus :: rest => do
    let ⟨(operand, rest'), _⟩ ← parseUnary rest
    return ⟨(.neg operand, rest'), by simp only [List.length_cons] at *; omega⟩
  | .plus :: rest => do
    let ⟨result, _⟩ ← parseUnary rest
    return ⟨result, by simp only [List.length_cons] at *; omega⟩
  | rest => parsePower rest
termination_by (ts.length, 2)

def parsePower (ts : List Token) : Except SyntaxError (Parsed ts) := do
  let ⟨(base, rest), h⟩ ← parseAtom ts
  match rest, h with
  | .caret :: rest, h =>
    have : rest.length + 1 < ts.length := h
    let ⟨(exponent, rest'), _⟩ ← parseUnary rest
    return ⟨(.binary .pow base exponent, rest'), by simp only [List.length_cons] at *; omega⟩
  | rest, h => return ⟨(base, rest), h⟩
termination_by (ts.length, 1)

def parseAtom (ts : List Token) : Except SyntaxError (Parsed ts) :=
  match ts with
  | .number value :: rest => return ⟨(.number value, rest), by simp⟩
  | .ident name :: .leftParen :: rest =>
    match function? name with
    | none => .error (.unknownFunction name)
    | some wrap => do
      let ⟨(argument, rest'), _⟩ ← parseSum rest
      let ⟨rest'', _⟩ ← closing rest'
      return ⟨(wrap argument, rest''), by simp only [List.length_cons] at *; omega⟩
  | .ident name :: rest => return ⟨(.ident name, rest), by simp⟩
  | .leftParen :: rest => do
    let ⟨(inner, rest'), _⟩ ← parseSum rest
    let ⟨rest'', _⟩ ← closing rest'
    return ⟨(inner, rest''), by simp only [List.length_cons] at *; omega⟩
  | _ => .error (.expected .operand ts)
termination_by (ts.length, 0)

end

/-- The expressions that follow a first one, each after a comma. -/
def parseMore (ts : List Token) : Except SyntaxError (List Expr × List Token) :=
  match ts with
  | .comma :: rest => do
    let ⟨(term, rest'), _⟩ ← parseSum rest
    let (terms, rest'') ← parseMore rest'
    return (term :: terms, rest'')
  | _ => return ([], ts)
termination_by ts.length
decreasing_by
  simp only [List.length_cons] at *
  omega

/-- Succeeds when no token is left. -/
def finish (rest : List Token) : Except SyntaxError Unit :=
  match rest with
  | [] => .ok ()
  | _ => .error (.expected .endOfInput rest)

/-- The expression that a list of tokens is. -/
def ofTokens (ts : List Token) : Except SyntaxError Expr := do
  let ⟨(e, rest), _⟩ ← parseSum ts
  finish rest
  return e

/-- The expressions that a list of tokens is, separated by commas. -/
def listOfTokens (ts : List Token) : Except SyntaxError (List Expr) := do
  let ⟨(term, rest), _⟩ ← parseSum ts
  let (terms, rest') ← parseMore rest
  finish rest'
  return term :: terms

/-- The failure behind an error in a list of tokens: the token found and its index. -/
def SyntaxError.toFailure (ts : List Token) : SyntaxError → Failure
  | .unknownFunction name => .template (.unknownFunction name)
  | .expected wanted rest =>
    .template (.expected wanted (rest.head?.map fun token => (token, ts.length - rest.length)))

/-- The failure behind a piece of text that is no token. -/
def Unexpected.toFailure (u : Unexpected) : Failure := .template (.unexpected u.text u.offset)

/-- Reads an expression. -/
def parse (source : String) : Except Failure Expr := do
  let ts ← (scan source).mapError Unexpected.toFailure
  (ofTokens ts).mapError (SyntaxError.toFailure ts)

/-- Reads a list of expressions separated by commas. -/
def parseTerms (source : String) : Except Failure (List Expr) := do
  let ts ← (scan source).mapError Unexpected.toFailure
  (listOfTokens ts).mapError (SyntaxError.toFailure ts)

end MarkovFit.Expr
