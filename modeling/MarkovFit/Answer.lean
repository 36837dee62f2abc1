import MarkovFit.Parameter

/-!
# Answers of an oracle

An oracle answers with a decimal or with infinity, which is greater than every decimal. Decimals are
compared by value.
-/

namespace MarkovFit

/-- A value computed by a model checker. -/
inductive Answer where
  | finite (value : Decimal)
  | infinite
deriving DecidableEq, Repr

namespace Answer

/-- Comparison by value, with infinity at the top. -/
def compare : Answer → Answer → Ordering
  | .finite a, .finite b => a.compare b
  | .finite _, .infinite => .lt
  | .infinite, .finite _ => .gt
  | .infinite, .infinite => .eq

instance : LT Answer := ⟨fun a b => compare a b = .lt⟩
instance (a b : Answer) : Decidable (a < b) := inferInstanceAs (Decidable (compare a b = .lt))

def isInfinite : Answer → Bool
  | .finite _ => false
  | .infinite => true

/-- The decimal, if the answer is one. -/
def finite? : Answer → Option Decimal
  | .finite value => some value
  | .infinite => none

/-- The opposite value. Infinity stays. -/
def negate : Answer → Answer
  | .finite value => .finite (-value)
  | .infinite => .infinite

/-- The spellings of infinity, in lower case. -/
def infinityWords : List String := ["inf", "+inf", "infinity", "+infinity"]

/-- Reads an answer: a spelling of infinity in any case, or a number. -/
def read (s : String) : Except Failure Answer :=
  let s := Text.trim s
  if infinityWords.contains (String.ofList (Double.lowerChars s.toList)) then .ok .infinite
  else (readDecimal s).map .finite

/-- The text of an answer, without trailing zeros. -/
def text : Answer → String
  | .finite value => value.shortText
  | .infinite => "infinity"

instance : ToString Answer := ⟨text⟩

def document : Answer → Document
  | .finite value => .record [("finite", .text value.text)]
  | .infinite => .text "infinite"

end Answer
end MarkovFit
