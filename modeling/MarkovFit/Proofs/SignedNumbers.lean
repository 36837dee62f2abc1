import MarkovFit.Proofs.DecimalForms
import MarkovFit.Proofs.DecimalRounding
import MarkovFit.Proofs.DecimalText
import Mathlib.Data.Bool.AllAny

/-!
# Numbers behind a sign

A sign in front of a number is read with the number, and it changes nothing but the sign: the
digits, their rounding and the shift of the point are those of the number behind it.
-/

namespace MarkovFit.Proofs

open Decimal Text

/-- The decimal with the other sign; a zero has none. -/
def mirror (a : Decimal) : Decimal := if a.isZero then a else -a

variable {a b v w : Decimal} {r : Reading} {cs exponent : List Char} {c : Char} {m s e : ℕ}

@[simp] theorem mantissa_mirror (a : Decimal) : (mirror a).mantissa = a.mantissa := by
  unfold mirror
  split <;> rfl

@[simp] theorem scale_mirror (a : Decimal) : (mirror a).scale = a.scale := by
  unfold mirror
  split <;> rfl

@[simp] theorem toRat_mirror (a : Decimal) : (mirror a).toRat = -a.toRat := by
  unfold mirror
  split
  · rename_i hzero
    rw [isZero_iff.1 hzero, neg_zero]
  · exact toRat_neg a

/-! ### Plain numbers -/

theorem ofUnits?_true (m s : ℕ) : ofUnits? true m s = (ofUnits? false m s).map mirror := by
  rw [ofUnits?, ofUnits?, Bool.true_and, Bool.false_and, ofParts?, ofParts?]
  split
  · split
    · by_cases hm : m = 0
      · subst hm
        rfl
      · simp only [Option.map_some, mirror, isZero, beq_iff_eq, if_neg hm, bne_iff_ne.2 hm]
        rfl
    · rfl
  · rfl

theorem rounded?_true (r : Reading) (digit : ℕ) :
    r.rounded? true digit = (r.rounded? false digit).map mirror := by
  unfold Reading.rounded?
  generalize (if 5 ≤ digit then r.mantissa + 1 else r.mantissa) = m
  dsimp only
  split
  · exact ofUnits?_true _ _
  · split
    · rfl
    · exact ofUnits?_true _ _

/-- A minus sign in front of a plain number changes nothing but the sign. -/
theorem readPlain_true (r : Reading) (cs : List Char) :
    readPlain true r cs = (readPlain false r cs).map mirror := by
  induction cs generalizing r with
  | nil =>
    rw [readPlain, readPlain]
    split
    · exact ofUnits?_true _ _
    · rfl
  | cons c cs ih =>
    rw [readPlain, readPlain]
    dsimp only
    split
    · split
      · split
        · rfl
        · split
          · exact rounded?_true _ _
          · rfl
      · exact ih _
    · split
      · split
        · rfl
        · exact ih _
      · split
        · split
          · exact ih _
          · rfl
        · rfl

/-! ### Opposite results -/

/-- If there is a first result, there is a second one, with the opposite value. -/
def Opposes (r r' : Option Decimal) : Prop :=
  ∀ v, r = some v → ∃ w, r' = some w ∧ v.toRat = -w.toRat

variable {q q' : Option Decimal}

theorem opposes_none : Opposes none q := nofun

theorem opposes_some (h : v.toRat = -w.toRat) : Opposes (some v) (some w) := by
  rintro _ ⟨⟩
  exact ⟨w, rfl, h⟩

theorem opposes_map_mirror (q : Option Decimal) : Opposes (q.map mirror) q := by
  intro v hv
  obtain ⟨w, rfl, rfl⟩ := Option.map_eq_some_iff.1 hv
  exact ⟨w, rfl, toRat_mirror w⟩

theorem Opposes.bind {f f' : Decimal → Option Decimal} (h : Opposes q q')
    (hf : ∀ v w, v.toRat = -w.toRat → Opposes (f v) (f' w)) : Opposes (q.bind f) (q'.bind f') := by
  intro v hv
  obtain ⟨u, hu, hv⟩ := Option.bind_eq_some_iff.1 hv
  obtain ⟨u', rfl, hopposite⟩ := h u hu
  exact hf u u' hopposite v hv

theorem Opposes.map_normalize (h : Opposes q q') :
    Opposes (q.map normalize) (q'.map normalize) := by
  intro v hv
  obtain ⟨u, hu, rfl⟩ := Option.map_eq_some_iff.1 hv
  obtain ⟨u', rfl, hopposite⟩ := h u hu
  exact ⟨u'.normalize, rfl, by rw [toRat_normalize, toRat_normalize, hopposite]⟩

theorem opposes_bind {α : Type} {f f' : α → Option Decimal} (x : Option α)
    (hf : ∀ a, Opposes (f a) (f' a)) : Opposes (x.bind f) (x.bind f') := by
  cases x with
  | none => exact opposes_none
  | some a => exact hf a

theorem opposes_mul (h : b.toRat = -a.toRat) (p : Decimal) : Opposes (b.mul? p) (a.mul? p) := by
  intro v hv
  have hspec := mul?_spec b p
  rw [hv, h, neg_mul] at hspec
  obtain ⟨hlt, hvalue⟩ := of_isRounding_some hspec
  rw [abs_neg] at hlt
  obtain ⟨w, hw, hvalue'⟩ := exists_of_isRounding (mul?_spec a p) hlt
  exact ⟨w, hw, by rw [hvalue, rounded_neg, hvalue']⟩

theorem opposes_shiftLeft (h : b.toRat = -a.toRat) (e : ℕ) :
    Opposes (shiftLeft? b e) (shiftLeft? a e) := by
  fun_induction shiftLeft? b e generalizing a with
  | case1 b e hlarge ih =>
    rw [shiftLeft?, if_pos hlarge]
    exact opposes_bind _ fun power => (opposes_mul h power).bind fun c d hopposite => ih c hopposite
  | case2 b =>
    rw [shiftLeft?, if_neg (by decide), if_pos rfl]
    exact opposes_some h
  | case3 b e hsmall hzero =>
    rw [shiftLeft?, if_neg hsmall, if_neg hzero]
    exact opposes_bind _ (opposes_mul h)

theorem ofParts?_not (negative : Bool) (m s : ℕ) :
    ofParts? (!negative) m s = (ofParts? negative m s).map (-·) := by
  rw [ofParts?, ofParts?]
  split
  · split <;> rfl
  · rfl

theorem opposes_ofParts (a : Decimal) (s : ℕ) :
    Opposes (ofParts? (mirror a).negative a.mantissa s) (ofParts? a.negative a.mantissa s) := by
  intro v hv
  by_cases hzero : a.isZero = true
  · rw [mirror, if_pos hzero] at hv
    have hmantissa : v.mantissa = 0 :=
      (ofParts?_eq_some hv).2.1.trans (by simpa [isZero] using hzero)
    exact ⟨v, hv, by rw [(toRat_eq_zero_iff v).2 hmantissa, neg_zero]⟩
  · have hsign : (mirror a).negative = !a.negative := by
      rw [mirror, if_neg hzero]
      rfl
    rw [hsign, ofParts?_not, Option.map_eq_some_iff] at hv
    obtain ⟨w, hw, rfl⟩ := hv
    exact ⟨w, hw, toRat_neg w⟩

/-! ### Scientific numbers -/

/-- Moves the point of a number as an exponent says. -/
def shifted? (a : Decimal) : List Char → Option Decimal
  | '-' :: digits => do
    let e ← readNat? (Nat.pow 2 32) digits
    if e ≤ maxScale then ofParts? a.negative a.mantissa (a.scale + e) else none
  | digits => do
    let e ← readNat? (Nat.pow 2 32) digits
    if e ≤ a.scale then ofParts? a.negative a.mantissa (a.scale - e)
    else if e ≤ maxScale then (shiftLeft? a e).map normalize
    else none

/-- The characters in front of an exponent. -/
def isExponentMark (c : Char) : Bool := c == 'e' || c == 'E'

theorem ofScientific?_eq (cs : List Char) : ofScientific? cs =
    (cutAt? isExponentMark cs).bind fun (base, exponent) =>
      (ofPlain? base).bind fun a => shifted? a exponent := rfl

/-- The point of the opposite number moves alike. -/
theorem opposes_shifted (a : Decimal) (exponent : List Char) :
    Opposes (shifted? (mirror a) exponent) (shifted? a exponent) := by
  unfold shifted?
  simp only [mantissa_mirror, scale_mirror]
  split
  · refine opposes_bind _ fun e => ?_
    split
    · exact opposes_ofParts a _
    · exact opposes_none
  · refine opposes_bind _ fun e => ?_
    split
    · exact opposes_ofParts a _
    · split
      · exact (opposes_shiftLeft (toRat_mirror a) e).map_normalize
      · exact opposes_none

/-! ### Numbers -/

/-- Reads a number that is no fraction. -/
def readNumber? (cs : List Char) : Option Decimal :=
  if cs.any isExponentMark then ofScientific? cs else ofPlain? cs

theorem readTrimmed_eq_ok_iff (hslash : '/' ∉ cs) :
    readTrimmed cs = .ok v ↔ readNumber? cs = some v := by
  have hne : ∀ c ∈ cs, c ≠ '/' := by
    rintro c hc rfl
    exact hslash hc
  have hread : readTrimmed cs = (readNumber? cs).elim (.error cs) .ok := readTrimmed_eq hne
  rw [hread]
  cases readNumber? cs <;> simp

/-! ### Signs -/

/-- The text begins with no sign. -/
def Unsigned (cs : List Char) : Prop := ∀ c ∈ cs.head?, c ∉ ['+', '-']

variable {sign : Char}

theorem readPlain_sign (hsign : sign ∈ ['+', '-']) (negative : Bool) (r : Reading)
    (cs : List Char) : readPlain negative r (sign :: cs) = none := by
  have hno : ∀ sign ∈ ['+', '-'], isDigit sign = false ∧ sign ≠ '.' ∧ sign ≠ '_' :=
    List.all_iff_forall_prop.1 (by decide)
  obtain ⟨hdigit, hpoint, hunderscore⟩ := hno sign hsign
  rw [readPlain, if_neg (by simp [hdigit]), if_neg hpoint, if_neg hunderscore]

/-- Behind a sign no other one is read. -/
theorem readPlain_of_not_unsigned (h : ¬Unsigned cs) (negative : Bool) (r : Reading) :
    readPlain negative r cs = none := by
  cases cs with
  | nil => exact absurd nofun h
  | cons c cs =>
    refine readPlain_sign (by_contra fun hc => h ?_) negative r cs
    rintro d ⟨⟩
    exact hc

theorem ofPlain?_sign_of_not_unsigned (hsign : sign ∈ ['+', '-']) (h : ¬Unsigned cs) :
    ofPlain? (sign :: cs) = none := by
  rw [List.mem_pair] at hsign
  rcases hsign with rfl | rfl
  · exact readPlain_of_not_unsigned h false {}
  · exact readPlain_of_not_unsigned h true {}

theorem ofPlain?_of_unsigned (h : Unsigned cs) : ofPlain? cs = readPlain false {} cs := by
  unfold ofPlain?
  split
  · exact absurd (by decide) (h '-' rfl)
  · exact absurd (by decide) (h '+' rfl)
  · rfl

theorem unsigned_of_ofPlain? (hsign : sign ∈ ['+', '-']) (h : ofPlain? (sign :: cs) = some v) :
    Unsigned cs := by
  by_contra hcs
  rw [ofPlain?_sign_of_not_unsigned hsign hcs] at h
  cases h

theorem ofPlain?_plus (h : Unsigned cs) : ofPlain? ('+' :: cs) = ofPlain? cs := by
  rw [ofPlain?_of_unsigned h, ofPlain?]

theorem ofPlain?_minus (h : Unsigned cs) : ofPlain? ('-' :: cs) = (ofPlain? cs).map mirror := by
  rw [ofPlain?_of_unsigned h, ofPlain?, readPlain_true]

theorem isExponentMark_sign : ∀ sign ∈ ['+', '-'], isExponentMark sign = false :=
  List.all_iff_forall_prop.1 (by decide)

theorem cutAt?_sign (hsign : sign ∈ ['+', '-']) (cs : List Char) :
    cutAt? isExponentMark (sign :: cs) =
      (cutAt? isExponentMark cs).map fun (base, exponent) => (sign :: base, exponent) := by
  rw [cutAt?, if_neg (by simp [isExponentMark_sign sign hsign])]

/-- A sign is no part of the exponent. -/
theorem readNumber?_sign (hsign : sign ∈ ['+', '-']) (cs : List Char) : readNumber? (sign :: cs) =
    if cs.any isExponentMark then
      (cutAt? isExponentMark cs).bind fun (base, exponent) =>
        (ofPlain? (sign :: base)).bind fun a => shifted? a exponent
    else ofPlain? (sign :: cs) := by
  rw [readNumber?, List.any_cons, isExponentMark_sign sign hsign, Bool.false_or, ofScientific?_eq,
    cutAt?_sign hsign, Option.bind_map]
  rfl

theorem readNumber?_eq (cs : List Char) : readNumber? cs =
    if cs.any isExponentMark then
      (cutAt? isExponentMark cs).bind fun (base, exponent) =>
        (ofPlain? base).bind fun a => shifted? a exponent
    else ofPlain? cs := by
  rw [readNumber?, ofScientific?_eq]

/-- One sign at most is read. -/
theorem unsigned_of_readNumber? (hsign : sign ∈ ['+', '-'])
    (h : readNumber? (sign :: cs) = some v) : Unsigned cs := by
  rw [readNumber?_sign hsign] at h
  split at h
  · obtain ⟨⟨base, exponent⟩, hcut, h⟩ := Option.bind_eq_some_iff.1 h
    obtain ⟨a, ha, -⟩ := Option.bind_eq_some_iff.1 h
    intro c hc hmem
    obtain ⟨rest, rfl⟩ := List.head?_eq_some_iff.1 hc
    rw [cutAt?_sign hmem] at hcut
    obtain ⟨⟨base', exponent'⟩, -, heq⟩ := Option.map_eq_some_iff.1 hcut
    cases heq
    exact unsigned_of_ofPlain? hsign ha c rfl hmem
  · exact unsigned_of_ofPlain? hsign h

theorem readNumber?_plus (h : readNumber? ('+' :: cs) = some v) : readNumber? cs = some v := by
  rw [readNumber?_sign (by decide)] at h
  rw [readNumber?_eq]
  split at h
  · rename_i hmark
    obtain ⟨⟨base, exponent⟩, hcut, h⟩ := Option.bind_eq_some_iff.1 h
    obtain ⟨a, ha, h⟩ := Option.bind_eq_some_iff.1 h
    rw [ofPlain?_plus (unsigned_of_ofPlain? (by decide) ha)] at ha
    rw [if_pos hmark, hcut, Option.bind_some]
    exact Option.bind_eq_some_iff.2 ⟨a, ha, h⟩
  · rename_i hmark
    rw [if_neg hmark, ← ofPlain?_plus (unsigned_of_ofPlain? (by decide) h), h]

theorem opposes_readNumber (cs : List Char) :
    Opposes (readNumber? ('-' :: cs)) (readNumber? cs) := by
  rw [readNumber?_sign (by decide), readNumber?_eq]
  split
  · refine opposes_bind _ fun (base, exponent) => ?_
    dsimp only
    by_cases hbase : Unsigned base
    · rw [ofPlain?_minus hbase, Option.bind_map]
      exact opposes_bind _ fun a => opposes_shifted a exponent
    · rw [ofPlain?_sign_of_not_unsigned (by decide) hbase]
      exact opposes_none
  · by_cases hcs : Unsigned cs
    · rw [ofPlain?_minus hcs]
      exact opposes_map_mirror _
    · rw [ofPlain?_sign_of_not_unsigned (by decide) hcs]
      exact opposes_none

end MarkovFit.Proofs
