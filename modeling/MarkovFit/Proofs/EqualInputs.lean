import MarkovFit.Proofs.EqualValues
import MarkovFit.Proofs.ExpressionParts

/-!
# Expressions on equal inputs

Two assignments that give equal numbers to all names lead to equal results, or to none under both. What
an expression can see beyond the values is little: roots and fractional powers look at the sign, which a
zero may have, and whole powers from exponent 1024 on see the zeros at the end of the base.
-/

namespace MarkovFit.Proofs

open Decimal

variable {a a' b b' : Decimal} {r r' : Option Decimal} {lookup lookup' : String → Option Decimal}

/-! ### Operations -/

/-- The decimal is no zero with a minus sign. -/
def NoSignedZero (a : Decimal) : Prop := a.isZero = true → a.negative = false

/-- Such a decimal has its sign exactly if it is below zero. -/
theorem NoSignedZero.negative_iff (h : NoSignedZero a) : a.negative = true ↔ a.toRat < 0 := by
  cases ha : a.isZero with
  | true =>
    rw [h ha, isZero_iff.1 ha]
    simp
  | false => exact MarkovFit.Proofs.negative_iff ha

theorem negative_eq_of_sameValue (h : a.SameValue a') (ha : NoSignedZero a) (ha' : NoSignedZero a') :
    a.negative = a'.negative := by
  rw [Bool.eq_iff_iff, ha.negative_iff, ha'.negative_iff, SameValue.toRat_eq h]

theorem isInteger_eq_of_sameValue (h : a.SameValue a') : a.isInteger = a'.isInteger := by
  rw [Bool.eq_iff_iff, isInteger_iff, isInteger_iff, SameValue.toRat_eq h]

theorem toInt64?_eq_of_sameValue (h : a.SameValue a') (ha : a.isInteger = true) :
    a.toInt64? = a'.toInt64? := by
  have ha' : a'.isInteger = true := by rw [← isInteger_eq_of_sameValue h, ha]
  have hwhole : (a.trunc.signedMantissa : ℚ) = a'.trunc.signedMantissa := by
    rw [← toRat_of_isInteger ha, ← toRat_of_isInteger ha', SameValue.toRat_eq h]
  rw [toInt64?, toInt64?, Int.cast_injective hwhole]

theorem sameOutcome_orArithmetic {cause cause' : ArithmeticCause} (h : SameResult r r') :
    SameOutcome (orArithmetic cause r) (orArithmetic cause' r') := by
  cases h with
  | none => trivial
  | some h => exact h

/-- A power has nothing to see of its base beside the value. -/
def SameBase (a a' b : Decimal) : Prop :=
  if b.isInteger then 1024 ≤ |b.toRat| → a.toRat = 0 ∨ a.toRat = 1 ∨ a = a'
  else NoSignedZero a ∧ NoSignedZero a'

theorem sameOutcome_applyPow (ha : a.SameValue a') (hb : b.SameValue b') (hbase : SameBase a a' b) :
    SameOutcome (Operator.applyPow a b) (Operator.applyPow a' b') := by
  rw [SameBase] at hbase
  simp only [Operator.applyPow, ← isInteger_eq_of_sameValue hb]
  split
  · rename_i hwhole
    rw [if_pos hwhole] at hbase
    rw [← toInt64?_eq_of_sameValue hb hwhole]
    cases he : b.toInt64? with
    | none => trivial
    | some e =>
      simp only [isZero_eq_of_sameValue ha]
      split
      · trivial
      · apply sameOutcome_orArithmetic
        apply sameResult_powInt ha
        intro hlong
        apply hbase
        rw [toRat_of_toInt64? hwhole he]
        exact_mod_cast hlong
  · rename_i hfraction
    rw [if_neg hfraction] at hbase
    rw [negative_eq_of_sameValue ha hbase.1 hbase.2]
    split
    · trivial
    · exact sameOutcome_orArithmetic (sameResult_powFraction ha hb)

theorem sameOutcome_apply {op : Operator} (ha : a.SameValue a') (hb : b.SameValue b')
    (hbase : op = .pow → SameBase a a' b) : SameOutcome (op.apply a b) (op.apply a' b') := by
  cases op with
  | add => exact sameOutcome_orArithmetic (sameResult_add ha hb)
  | sub => exact sameOutcome_orArithmetic (sameResult_sub ha hb)
  | mul => exact sameOutcome_orArithmetic (sameResult_mul ha hb)
  | div =>
    simp only [Operator.apply, isZero_eq_of_sameValue hb]
    split
    · trivial
    · exact sameOutcome_orArithmetic (sameResult_div ha hb)
  | pow => exact sameOutcome_applyPow ha hb (hbase rfl)

/-! ### Expressions -/

/-- The same names have values, and equal ones. -/
def SameInputs (lookup lookup' : String → Option Decimal) : Prop :=
  ∀ name, SameResult (lookup name) (lookup' name)

/-- A root or a power sees no difference between its operands beside the value. -/
def SeesValuesOnly (lookup lookup' : String → Option Decimal) : Expr → Prop
  | .sqrt o => ∀ a a', o.evaluate lookup = .ok a → o.evaluate lookup' = .ok a' →
      NoSignedZero a ∧ NoSignedZero a'
  | .binary .pow l r => ∀ a a' b, l.evaluate lookup = .ok a → l.evaluate lookup' = .ok a' →
      r.evaluate lookup = .ok b → SameBase a a' b
  | _ => True

theorem SameOutcome.bind {x x' : Except Failure Decimal} {f f' : Decimal → Except Failure Decimal}
    (h : SameOutcome x x')
    (hf : ∀ v v', x = .ok v → x' = .ok v' → v.SameValue v' → SameOutcome (f v) (f' v')) :
    SameOutcome (x >>= f) (x' >>= f') := by
  cases x with
  | error e =>
    cases x' with
    | error e' => trivial
    | ok v' => exact h.elim
  | ok v =>
    cases x' with
    | error e' => exact h.elim
    | ok v' => exact hf v v' rfl rfl h

theorem sameOutcome_evaluate (h : SameInputs lookup lookup') (e : Expr)
    (hsees : ∀ d, IsPart d e → SeesValuesOnly lookup lookup' d) :
    SameOutcome (e.evaluate lookup) (e.evaluate lookup') := by
  induction e with
  | number value => exact sameValue_refl value
  | ident name =>
    have hname := h name
    rw [Expr.evaluate, Expr.evaluate]
    generalize lookup name = r at hname
    generalize lookup' name = r' at hname
    cases hname with
    | none => trivial
    | some hname => exact hname
  | neg o ih =>
    refine (ih fun d hd => hsees d (.operand List.mem_cons_self hd)).bind fun v v' _ _ hv => ?_
    apply sameValue_of_toRat_eq
    rw [toRat_neg, toRat_neg, SameValue.toRat_eq hv]
  | ceil o ih =>
    refine (ih fun d hd => hsees d (.operand List.mem_cons_self hd)).bind fun v v' _ _ hv => ?_
    apply sameValue_of_toRat_eq
    rw [toRat_ceil, toRat_ceil, SameValue.toRat_eq hv]
  | sqrt o ih =>
    refine (ih fun d hd => hsees d (.operand List.mem_cons_self hd)).bind fun v v' hv hv' hsame => ?_
    obtain ⟨hsigned, hsigned'⟩ := hsees _ .whole v v' hv hv'
    have hroot := sameOutcome_sqrt hsame (negative_eq_of_sameValue hsame hsigned hsigned')
    generalize v.sqrt = root at hroot
    generalize v'.sqrt = root' at hroot
    cases root with
    | error cause =>
      cases root' with
      | error cause' => cases cause <;> cases cause' <;> trivial
      | ok w' => exact hroot.elim
    | ok w =>
      cases root' with
      | error cause' => exact hroot.elim
      | ok w' => exact hroot
  | binary op l r ihl ihr =>
    have hl := ihl fun d hd => hsees d (.operand List.mem_cons_self hd)
    have hr := ihr fun d hd => hsees d (.operand (List.mem_cons_of_mem _ List.mem_cons_self) hd)
    refine hl.bind fun a a' ha ha' hsame => hr.bind fun b b' hb _ hsame' => ?_
    refine sameOutcome_apply hsame hsame' ?_
    rintro rfl
    exact hsees _ .whole a a' b ha ha' hb

/-! ### Signs of operands -/

theorem iterateRoot_ne_negative (a : Decimal) (steps : ℕ) (x : Decimal) :
    iterateRoot a steps x ≠ .error .negative := by
  induction steps generalizing x with
  | zero => simp [iterateRoot]
  | succ steps ih =>
    rw [iterateRoot]
    split
    · simp
    · split
      · simp
      · exact ih _

theorem sqrt_eq_negative_iff : a.sqrt = .error .negative ↔ a.negative = true := by
  rw [sqrt]
  split
  · rename_i hsign
    exact iff_of_true rfl hsign
  · rename_i hsign
    refine iff_of_false ?_ hsign
    split
    · simp
    · split
      · simp
      · exact iterateRoot_ne_negative a _ _

theorem applyPow_eq_negativeBase_iff (hb : b.isInteger = false) :
    Operator.applyPow a b = .error (.arithmetic (.negativeBase a b)) ↔ a.negative = true := by
  rw [Operator.applyPow, hb, if_neg Bool.false_ne_true]
  cases a.negative with
  | true => simp
  | false =>
    rw [if_neg Bool.false_ne_true, orArithmetic_eq_error]
    simp

/-- Under equal inputs an expression has equal values or fails under both, as long as its roots and
powers see no more than values; and a root or a fractional power refuses an operand as negative exactly
if it is below zero, unless it is a zero with a sign. -/
theorem equal_inputs_indistinguishable (h : SameInputs lookup lookup') (e : Expr)
    (hsees : ∀ d, IsPart d e → SeesValuesOnly lookup lookup' d) :
    SameOutcome (e.evaluate lookup) (e.evaluate lookup') ∧
      ∀ o a, o.evaluate lookup = .ok a → NoSignedZero a →
        ((Expr.sqrt o).evaluate lookup = .error (.arithmetic (.negativeRoot a)) ↔ a.toRat < 0) ∧
        ∀ exponent b, exponent.evaluate lookup = .ok b → b.isInteger = false →
          ((Expr.binary .pow o exponent).evaluate lookup =
            .error (.arithmetic (.negativeBase a b)) ↔ a.toRat < 0) := by
  refine ⟨sameOutcome_evaluate h e hsees, fun o a ha hsigned => ⟨?_, fun exponent b hb hfraction => ?_⟩⟩
  · rw [← hsigned.negative_iff, ← sqrt_eq_negative_iff, evaluate_sqrt ha]
    cases a.sqrt with
    | ok root => simp
    | error cause => cases cause <;> simp
  · rw [← hsigned.negative_iff, evaluate_binary ha hb]
    exact applyPow_eq_negativeBase_iff hfraction

/-- A number of two names, by the first letter. -/
def valuesAt (p q : Decimal) (name : String) : Option Decimal := some (if name = "p" then p else q)

theorem sameInputs_valuesAt (ha : a.SameValue a') (hb : b.SameValue b') :
    SameInputs (valuesAt a b) (valuesAt a' b') := by
  intro name
  rw [valuesAt, valuesAt]
  split
  · exact .some ha
  · exact .some hb

def oneAndHalf : Decimal := unsigned 15 1
def oneAndHalfPadded : Decimal := unsigned 150 2

/-- The root of `1.5` and of `1.50`. -/
theorem paddedRoot_indistinguishable :
    SameInputs (valuesAt oneAndHalf Decimal.one) (valuesAt oneAndHalfPadded Decimal.one) ∧
      SameOutcome ((Expr.sqrt (.ident "p")).evaluate (valuesAt oneAndHalf Decimal.one))
        ((Expr.sqrt (.ident "p")).evaluate (valuesAt oneAndHalfPadded Decimal.one)) := by
  have hinputs : SameInputs (valuesAt oneAndHalf Decimal.one) (valuesAt oneAndHalfPadded Decimal.one) :=
    sameInputs_valuesAt (by decide) (by decide)
  refine ⟨hinputs, (equal_inputs_indistinguishable hinputs _ fun d hd => ?_).1⟩
  obtain rfl | ⟨o, ho, hd⟩ := isPart_iff.1 hd
  · intro a a' ha ha'
    cases ha
    cases ha'
    exact ⟨fun hzero => absurd hzero (by decide), fun hzero => absurd hzero (by decide)⟩
  · obtain rfl := List.mem_singleton.1 ho
    obtain rfl | ⟨o, ho, -⟩ := isPart_iff.1 hd
    · trivial
    · cases ho

/-- The power of `1.004` to 1031 has a last digit that depends on zeros at the end of the base. -/
def longPower : Expr := .binary .pow (.ident "p") (.number (unsigned 1031 0))

theorem paddedInputs_distinguished :
    let inputs := valuesAt (unsigned 1004 3) Decimal.one
    let padded := valuesAt (unsigned 100400000 8) Decimal.one
    SameInputs inputs padded ∧
      ¬SameOutcome (longPower.evaluate inputs) (longPower.evaluate padded) := by
  refine ⟨sameInputs_valuesAt (by decide) (by decide), fun h => ?_⟩
  have hvalue : longPower.evaluate (valuesAt (unsigned 1004 3) Decimal.one) =
      .ok (unsigned 61299637469865143978872356778 27) := by decide +kernel
  have hpadded : longPower.evaluate (valuesAt (unsigned 100400000 8) Decimal.one) =
      .ok (unsigned 61299637469865143978872356779 27) := by decide +kernel
  rw [hvalue, hpadded] at h
  exact absurd (SameValue.toRat_eq h) (by decide +kernel)

end MarkovFit.Proofs
