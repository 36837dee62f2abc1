import MarkovFit.Decimal.Binary

/-!
# Scalars

The numbers a simplex tableau computes with. Doubles are the scalars of the solver; exact rationals
are the scalars of its theory. A comparison with what is no number is false.
-/

namespace MarkovFit

/-- Numbers with a comparison, and a number for each decimal. -/
class Scalar (α : Type) where
  zero : α
  one : α
  add : α → α → α
  sub : α → α → α
  mul : α → α → α
  div : α → α → α
  neg : α → α
  lt : α → α → Bool
  le : α → α → Bool
  ofDecimal : Decimal → α

namespace Scalar

-- Where a type has operations of its own, these come first.
instance (priority := 100) {α : Type} [Scalar α] : Zero α := ⟨zero⟩
instance (priority := 100) {α : Type} [Scalar α] : One α := ⟨one⟩
instance (priority := 100) {α : Type} [Scalar α] : Add α := ⟨add⟩
instance (priority := 100) {α : Type} [Scalar α] : Sub α := ⟨sub⟩
instance (priority := 100) {α : Type} [Scalar α] : Mul α := ⟨mul⟩
instance (priority := 100) {α : Type} [Scalar α] : Div α := ⟨div⟩
instance (priority := 100) {α : Type} [Scalar α] : Neg α := ⟨neg⟩

instance : Scalar Float where
  zero := 0.0
  one := 1.0
  add := Float.add
  sub := Float.sub
  mul := Float.mul
  div := Float.div
  neg := Float.neg
  lt a b := decide (a < b)
  le a b := decide (a ≤ b)
  ofDecimal := Decimal.toFloat

instance : Scalar Rat where
  zero := 0
  one := 1
  add := Rat.add
  sub := Rat.sub
  mul := Rat.mul
  div := Rat.div
  neg := Rat.neg
  lt a b := decide (a < b)
  le a b := decide (a ≤ b)
  ofDecimal := Decimal.toRat

variable {α : Type} [Scalar α]

def isZero (x : α) : Bool := le x 0 && le 0 x

/-- Without the sign. -/
def magnitude (x : α) : α := if lt x 0 then -x else x

/-- The larger of two numbers; `a` unless `b` is larger. -/
def larger (a b : α) : α := if lt a b then b else a

/-- The least of some numbers. What is no number does not count. -/
def least? (xs : List α) : Option α :=
  xs.foldl
    (fun acc x =>
      match acc with
      | none => if le x x then some x else none
      | some a => if lt x a then some x else some a)
    none

/-- The first index of the least key. -/
def firstLeast? {ι : Type} (key : ι → α) : List ι → Option ι
  | [] => none
  | i :: is => some (is.foldl (fun best j => if lt (key j) (key best) then j else best) i)

/-- The last index of the greatest key. -/
def lastGreatest? {ι : Type} (key : ι → α) : List ι → Option ι
  | [] => none
  | i :: is => some (is.foldl (fun best j => if lt (key j) (key best) then best else j) i)

end Scalar
end MarkovFit
