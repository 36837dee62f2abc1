import MarkovFit.Decimal.Arithmetic

/-!
# Wide decimals

Intermediate results of powers and logarithms have a mantissa of 192 bits. They are counted in words
of 32 bits: a result may keep six words, and a decimal takes three.
-/

namespace MarkovFit.Decimal

/-- An intermediate result `± mantissa / 10 ^ scale`. -/
structure Wide where
  negative : Bool
  mantissa : Nat
  scale : Nat
deriving DecidableEq, Repr

namespace Wide

/-- Mantissas are below this bound. -/
def bound : Nat := Nat.pow 2 192

def zero : Wide := ⟨false, 0, 0⟩
def one : Wide := ⟨false, 1, 0⟩

def isZero (a : Wide) : Bool := a.mantissa == 0

/-- The wide form of a decimal. -/
def ofDecimal (a : Decimal) : Wide := ⟨a.negative, a.mantissa, a.scale⟩

/-- The index of the highest word of 32 bits that is not zero; zero for zero. -/
def topWord (m : Nat) : Nat := m.log2 / 32

/-- Divides by powers of ten until the mantissa ends at the word `top`, at first by the `k` digits
that an estimate asks for. The last remainder decides the rounding. -/
def shrink (top : Nat) (m s k rem : Nat) : Option (Nat × Nat × Nat) :=
  if k = 0 ∧ topWord m ≤ top then some (m, s, rem)
  else
    let x := Nat.min (Nat.max k 1) 9
    if x ≤ s then
      let m' := m / Nat.pow 10 x
      let s' := s - x
      let k' := k - x
      if topWord m' > top ∧ k' = 0 then
        if s' = 0 then none else shrink top m' s' 1 (m % Nat.pow 10 x)
      else shrink top m' s' k' (m % Nat.pow 10 x)
    else none
termination_by s
decreasing_by
  all_goals
    have hx : 1 ≤ Nat.min (Nat.max k 1) 9 :=
      Nat.le_min.2 ⟨Nat.le_max_right _ _, by decide⟩
    have : Nat.min (Nat.max k 1) 9 ≤ s := by assumption
    show s - Nat.min (Nat.max k 1) 9 < s
    omega

/-- The number of digits that a mantissa has too many, by an estimate of ten bits for three digits
and a little more. -/
def surplusDigits (m top : Nat) : Nat :=
  let u := topWord m
  if u ≤ top then 0
  else
    let unused := 31 - m.log2 % 32
    ((u - top) * 32 - unused) * 77 / 256 + 1

/-- Brings a mantissa to the words up to `top` and a scale to `maxScale`. The last step rounds up
unless nothing, or a one after an even digit, was cut off. -/
def rescale (m s top maxScale : Nat) : Option (Nat × Nat) :=
  let u := topWord m
  if u ≤ top ∧ s ≤ 28 then some (m, s)
  else
    let k := surplusDigits m top
    let k := if s > maxScale + k then s - maxScale else k
    if k = 0 ∧ u ≤ top then some (m, s)
    else if k > s then none
    else do
      let (m, s, rem) ← shrink top m s k 0
      if rem > 0 ∧ (m % 2 = 1 ∨ rem > 1) then
        let m := m + 1
        if topWord m > top then
          if s = 0 then none
          else if topWord (m / 10) > top then none
          else some (m / 10, s - 1)
        else some (m, s)
      else some (m, s)

/-- The decimal of a wide result. -/
def toDecimal? (a : Wide) : Option Decimal :=
  if a.mantissa < mantissaBound ∧ a.scale ≤ Decimal.maxScale then
    ofUnits? a.negative a.mantissa a.scale
  else
    (rescale a.mantissa a.scale 2 Decimal.maxScale).bind fun (m, s) => ofUnits? a.negative m s

/-- Rounds away places beyond the 57th, nine at a time. -/
def dropPlaces (m s : Nat) : Nat × Nat :=
  if 57 < s then
    let x := Nat.min (s - 57) 9
    dropPlaces (roundHalfEven m (Nat.pow 10 x)) (s - x)
  else (m, s)
termination_by s
decreasing_by
  have : 1 ≤ Nat.min (s - 57) 9 := Nat.le_min.2 ⟨by omega, by decide⟩
  show s - Nat.min (s - 57) 9 < s
  omega

/-- The product. -/
def mul? (a b : Wide) : Option Wide :=
  if a.isZero || b.isZero then some zero
  else
    let negative := a.negative != b.negative
    let product := a.mantissa * b.mantissa
    let scale := a.scale + b.scale
    if product < bound then
      let (m, s) := dropPlaces product scale
      some ⟨negative, m, s⟩
    else (rescale product scale 5 57).map fun (m, s) => ⟨negative, m, s⟩

/-- The sum. -/
def add? (a b : Wide) : Option Wide :=
  if a.isZero then some b
  else if b.isZero then some a
  else
    let s := Nat.max a.scale b.scale
    let x := a.mantissa * Nat.pow 10 (s - a.scale)
    let y := b.mantissa * Nat.pow 10 (s - b.scale)
    if bound ≤ x ∨ bound ≤ y then none
    else if a.negative = b.negative then
      let sum := x + y
      if sum < bound then some ⟨a.negative, sum, s⟩
      else if s = 0 then none
      else some ⟨a.negative, if 5 ≤ sum % 10 then sum / 10 + 1 else sum / 10, s - 1⟩
    else if x < y then some ⟨b.negative, y - x, s⟩
    else some ⟨a.negative, x - y, s⟩

/-- Develops the quotient by a small number `d` while the mantissa has room. -/
def developSmall (d q r s : Nat) : Nat × Nat × Nat :=
  let bits := if q = 0 then 0 else q.log2 + 1
  let x := Nat.min ((192 - bits) * 77 / 256) 9
  if r = 0 ∨ x = 0 ∨ 57 < s + x then (q, r, s)
  else developSmall d (q * Nat.pow 10 x + r * Nat.pow 10 x / d) (r * Nat.pow 10 x % d) (s + x)
termination_by 57 - s
decreasing_by
  rename_i h
  simp only [not_or] at h
  have h2 : ¬ Nat.min ((192 - if q = 0 then 0 else q.log2 + 1) * 77 / 256) 9 = 0 := h.2.1
  have h3 : ¬ 57 < s + Nat.min ((192 - if q = 0 then 0 else q.log2 + 1) * 77 / 256) 9 := h.2.2
  show 57 - (s + Nat.min ((192 - if q = 0 then 0 else q.log2 + 1) * 77 / 256) 9) < 57 - s
  omega

/-- The quotient by a small natural number, a tie going to the even digit. -/
def divSmall (a : Wide) (d : Nat) : Wide :=
  if a.isZero ∨ d ≤ 1 then a
  else
    let (q, r, s) := developSmall d (a.mantissa / d) (a.mantissa % d) a.scale
    let up := r > d / 2 ∨ (r = d / 2 ∧ 0 < r ∧ q % 2 = 1)
    ⟨a.negative, if up then q + 1 else q, s⟩

/-- Whether a term of a series no longer counts: it is zero, or its scale is beyond what its
mantissa of one, two or three words can make up for. -/
def negligible (a : Wide) : Bool :=
  a.isZero ||
    match topWord a.mantissa with
    | 0 => decide (38 ≤ a.scale)
    | 1 => decide (48 ≤ a.scale)
    | 2 => decide (57 ≤ a.scale)
    | _ => false

end Wide
end MarkovFit.Decimal
