import MarkovFit.Expr.Basic
import MarkovFit.Decimal.Text

/-!
# Tokens of expressions

`scan` cuts a text into tokens. At each place the longest token is taken, blanks between tokens are
skipped, and the first character that begins no token is an error, as is a number that no decimal
can hold.
-/

namespace MarkovFit.Expr

open Text

/-- The tokens. -/
inductive Token where
  | number (value : Decimal)
  | ident (name : String)
  | plus | minus | star | slash | caret | leftParen | rightParen | comma
deriving DecidableEq, Repr

/-- The name of a token in messages. -/
def Token.name : Token → String
  | .number value => "Number(" ++ value.text ++ ")"
  | .ident name => "Ident(\"" ++ name ++ "\")"
  | .plus => "Plus"
  | .minus => "Minus"
  | .star => "Star"
  | .slash => "Slash"
  | .caret => "Caret"
  | .leftParen => "LParen"
  | .rightParen => "RParen"
  | .comma => "Comma"

/-- A piece of text at a byte offset that is no token. -/
structure Unexpected where
  text : String
  offset : Nat
deriving DecidableEq, Repr

/-- The blanks between tokens. -/
def isGap (c : Char) : Bool := c == ' ' || c == '\t' || c == '\r' || c == '\n' || c == '\x0c'

/-- ASCII letters and the underscore. -/
def isIdentStart (c : Char) : Bool :=
  (65 ≤ c.val && c.val ≤ 90) || (97 ≤ c.val && c.val ≤ 122) || c == '_'

/-- What an identifier goes on with. -/
def isIdentRest (c : Char) : Bool := isIdentStart c || isDigit c

/-- The token of a single character. -/
def symbol? : Char → Option Token
  | '+' => some .plus
  | '-' => some .minus
  | '*' => some .star
  | '/' => some .slash
  | '^' => some .caret
  | '(' => some .leftParen
  | ')' => some .rightParen
  | ',' => some .comma
  | _ => none

/-- Cuts off an exponent, if the text begins with a complete one. -/
def cutExponent (cs : List Char) : List Char × List Char :=
  match cs with
  | e :: rest =>
    if e = 'e' ∨ e = 'E' then
      let sign := rest.takeWhile (fun c => c == '+' || c == '-') |>.take 1
      let digits := (rest.drop sign.length).takeWhile isDigit
      if digits.isEmpty then ([], cs)
      else (e :: sign ++ digits, (rest.drop sign.length).dropWhile isDigit)
    else ([], cs)
  | [] => ([], [])

/-- Cuts off a number: digits, a point with any digits after it, and an exponent; a number without
digits before the point has some after it. -/
def cutNumber? (cs : List Char) : Option (List Char × List Char) :=
  let whole := cs.takeWhile isDigit
  let rest := cs.dropWhile isDigit
  let (mantissa, rest) := match rest with
    | '.' :: more =>
      let fraction := more.takeWhile isDigit
      if whole.isEmpty && fraction.isEmpty then ([], cs)
      else (whole ++ '.' :: fraction, more.dropWhile isDigit)
    | _ => (whole, rest)
  if mantissa.isEmpty then none
  else
    let (exponent, rest) := cutExponent rest
    some (mantissa ++ exponent, rest)

/-- The first token of a text that begins with no blank, and how many characters it takes. -/
def firstToken (c : Char) (cs : List Char) : Except String (Token × Nat) :=
  match symbol? c with
  | some token => .ok (token, 1)
  | none =>
    if isIdentStart c then
      let name := (c :: cs).takeWhile isIdentRest
      .ok (.ident (String.ofList name), Nat.max 1 name.length)
    else
      match cutNumber? (c :: cs) with
      | none => .error (String.ofList [c])
      | some (lexeme, _) =>
        match Decimal.read (String.ofList lexeme) with
        | .ok value => .ok (.number value, Nat.max 1 lexeme.length)
        | .error _ => .error (String.ofList lexeme)

/-- The length of a text in bytes. -/
def byteLength (cs : List Char) : Nat := cs.foldr (fun c n => c.utf8Size + n) 0

theorem firstToken_pos {c : Char} {cs : List Char} {t : Token} {n : Nat}
    (h : firstToken c cs = .ok (t, n)) : 1 ≤ n := by
  unfold firstToken at h
  split at h
  · cases h
    exact Nat.le_refl 1
  · split at h
    · cases h
      exact Nat.le_max_left _ _
    · split at h
      · cases h
      · split at h
        · cases h
          exact Nat.le_max_left _ _
        · cases h

/-- The tokens of a text that stands at a byte offset. -/
def scanFrom (offset : Nat) (cs : List Char) : Except Unexpected (List Token) :=
  match cs with
  | [] => .ok []
  | c :: rest =>
    if isGap c then scanFrom (offset + c.utf8Size) rest
    else
      match _h : firstToken c rest with
      | .error text => .error ⟨text, offset⟩
      | .ok (token, n) => do
        let tokens ← scanFrom (offset + byteLength ((c :: rest).take n)) ((c :: rest).drop n)
        return token :: tokens
termination_by cs.length
decreasing_by
  · simp
  · have := firstToken_pos _h
    simp only [List.length_drop, List.length_cons]
    omega

/-- The tokens of a text. -/
def scan (s : String) : Except Unexpected (List Token) := scanFrom 0 s.toList

end MarkovFit.Expr
