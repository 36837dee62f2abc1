import MarkovFit.Proofs.DecimalForms
import MarkovFit.Proofs.ExpressionParts

/-!
# Domains of operations

A quotient needs a divisor that is not zero, a root an operand that is not negative, and a power a base
that goes with its exponent. An expression has a value only if every operation in it is defined on the
values of its operands; otherwise it fails by its arithmetic. One case is not noticed: zero to a
fraction below zero is zero.
-/

namespace MarkovFit.Proofs

open Decimal

variable {a b v : Decimal}

/-! ### Operations -/

/-- Where the operation is defined on rational numbers. -/
def DefinedOn (op : Operator) (x y : ℚ) : Prop :=
  match op with
  | .add | .sub | .mul => True
  | .div => y ≠ 0
  | .pow => 0 < x ∨ (x = 0 ∧ 0 ≤ y) ∨ (x < 0 ∧ ∃ n : ℤ, y = n)

/-- Zero, without a sign, to a fraction below zero. -/
def IsZeroToFraction (op : Operator) (a b : Decimal) : Prop :=
  op = .pow ∧ a.toRat = 0 ∧ a.negative = false ∧ b.toRat < 0 ∧ ∀ n : ℤ, b.toRat ≠ n

theorem applyPow_zeroToFraction (h : IsZeroToFraction .pow a b) :
    Operator.applyPow a b = .ok Decimal.zero := by
  obtain ⟨-, hzero, hsign, -, hfraction⟩ := h
  have hinteger : ¬b.isInteger = true := fun h => by
    obtain ⟨n, hn⟩ := isInteger_iff.1 h
    exact hfraction n hn
  rw [Operator.applyPow, if_neg hinteger, hsign, if_neg Bool.false_ne_true, powFraction?,
    if_pos (isZero_iff.2 hzero)]
  rfl

theorem definedOn_of_applyPow (h : Operator.applyPow a b = .ok v) (hslip : ¬IsZeroToFraction .pow a b) :
    DefinedOn .pow a.toRat b.toRat := by
  rw [Operator.applyPow] at h
  obtain hnegative | hzero | hpositive := lt_trichotomy a.toRat 0
  · refine .inr (.inr ⟨hnegative, ?_⟩)
    by_contra hfraction
    rw [if_neg (mt isInteger_iff.1 hfraction), if_pos (negative_of_toRat_neg hnegative)] at h
    cases h
  · refine .inr (.inl ⟨hzero, ?_⟩)
    by_contra hbelow
    by_cases hinteger : b.isInteger = true
    · rw [if_pos hinteger] at h
      split at h
      · cases h
      · rename_i e he
        have hexponent : e < 0 := by
          rw [toRat_of_toInt64? hinteger he] at hbelow
          exact_mod_cast not_le.1 hbelow
        rw [if_pos ⟨hexponent, isZero_iff.2 hzero⟩] at h
        cases h
    · -- Beside the sign of the base nothing is checked for fractions.
      rw [if_neg hinteger] at h
      split at h
      · cases h
      · rename_i hsign
        exact hslip ⟨rfl, hzero, Bool.eq_false_of_not_eq_true hsign, not_le.1 hbelow,
          fun n hn => hinteger (isInteger_iff.2 ⟨n, hn⟩)⟩
  · exact .inl hpositive

/-- An operation gives a result only where it is defined, but for zero to a fraction below zero. -/
theorem definedOn_of_apply {op : Operator} (h : op.apply a b = .ok v)
    (hslip : ¬IsZeroToFraction op a b) : DefinedOn op a.toRat b.toRat := by
  cases op with
  | add | sub | mul => trivial
  | div =>
    intro hzero
    rw [Operator.apply, if_pos (isZero_iff.2 hzero)] at h
    cases h
  | pow => exact definedOn_of_applyPow h hslip

/-! ### Expressions -/

variable {lookup : String → Option Decimal} {d e : Expr}

/-- What is outermost in the expression is defined on the values of its operands. -/
def DefinedAt (lookup : String → Option Decimal) : Expr → Prop
  | .sqrt o => ∀ a, o.evaluate lookup = .ok a → 0 ≤ a.toRat
  | .binary op l r => ∀ a b, l.evaluate lookup = .ok a → r.evaluate lookup = .ok b →
      DefinedOn op a.toRat b.toRat
  | .number _ | .ident _ | .neg _ | .ceil _ => True

/-- The expression is a power, and its value would be that of zero to a fraction below zero. -/
def ZeroToFractionAt (lookup : String → Option Decimal) (e : Expr) : Prop :=
  ∃ l r a b, e = .binary .pow l r ∧ l.evaluate lookup = .ok a ∧ r.evaluate lookup = .ok b ∧
    IsZeroToFraction .pow a b

theorem evaluate_of_zeroToFractionAt (h : ZeroToFractionAt lookup e) :
    e.evaluate lookup = .ok Decimal.zero := by
  obtain ⟨l, r, a, b, rfl, ha, hb, hslip⟩ := h
  rw [evaluate_binary ha hb]
  exact applyPow_zeroToFraction hslip

theorem definedAt_of_evaluate (h : e.evaluate lookup = .ok v) (hslip : ¬ZeroToFractionAt lookup e) :
    DefinedAt lookup e := by
  cases e with
  | number | ident | neg | ceil => trivial
  | sqrt o =>
    intro a ha
    rw [evaluate_sqrt ha, sqrt] at h
    by_contra hbelow
    rw [if_pos (negative_of_toRat_neg (not_le.1 hbelow))] at h
    cases h
  | binary op l r =>
    intro a b ha hb
    rw [evaluate_binary ha hb] at h
    refine definedOn_of_apply h fun hop => hslip ?_
    obtain rfl := hop.1
    exact ⟨l, r, a, b, rfl, ha, hb, hop⟩

theorem not_definedAt_of_zeroToFractionAt (h : ZeroToFractionAt lookup e) : ¬DefinedAt lookup e := by
  obtain ⟨l, r, a, b, rfl, ha, hb, -, hzero, -, hbelow, -⟩ := h
  intro hdefined
  obtain hpositive | ⟨-, hnonneg⟩ | ⟨hnegative, -⟩ := hdefined a b ha hb
  · exact hpositive.ne' hzero
  · exact not_le.2 hbelow hnonneg
  · exact hnegative.ne hzero

/-- Where an operation is not defined, the evaluation stops by its arithmetic. -/
theorem evaluate_of_not_definedAt {f : Failure} (hcause : StopCause lookup d f)
    (h : ¬DefinedAt lookup d) : ∃ cause, f = .arithmetic cause := by
  cases hcause with
  | name => exact absurd trivial h
  | negativeRoot => exact ⟨_, rfl⟩
  | @unsettledRoot o a ha hunsettled =>
    refine absurd (fun a' ha' => ?_) h
    rw [ha] at ha'
    cases ha'
    rw [sqrt] at hunsettled
    split at hunsettled
    · cases hunsettled
    · rename_i hsign
      exact nonneg_of_not_negative hsign
  | operation ha hb happly => exact apply_eq_error happly

/-- An expression has a value only if all operations in it are defined on the values of their operands,
or are zero to a fraction below zero, which is then zero. An operation that is not defined fails by its
arithmetic, and so does the expression if its evaluation stops there. -/
theorem values_within_domains (lookup : String → Option Decimal) (e : Expr) :
    (HasValue lookup e → ∀ d, IsPart d e → (¬DefinedAt lookup d ↔ ZeroToFractionAt lookup d)) ∧
    (∀ d, IsPart d e → (∀ o ∈ operands d, HasValue lookup o) → ¬DefinedAt lookup d →
      ¬ZeroToFractionAt lookup d →
        (∃ cause, d.evaluate lookup = .error (.arithmetic cause)) ∧ ¬HasValue lookup e) ∧
    (∀ d, StopsAt lookup d e → ¬DefinedAt lookup d →
      ∃ cause, e.evaluate lookup = .error (.arithmetic cause)) ∧
    ∀ d, ZeroToFractionAt lookup d → d.evaluate lookup = .ok Decimal.zero := by
  refine ⟨fun h d hd => ⟨fun hundefined => ?_, not_definedAt_of_zeroToFractionAt⟩, ?_, ?_,
    fun d => evaluate_of_zeroToFractionAt⟩
  · obtain ⟨v, hv⟩ := hasValue_part h hd
    by_contra hslip
    exact hundefined (definedAt_of_evaluate hv hslip)
  · intro d hd hvalues hundefined hslip
    have hnone : ¬HasValue lookup d := fun ⟨v, hv⟩ => hundefined (definedAt_of_evaluate hv hslip)
    obtain ⟨f, hf⟩ := not_hasValue_iff.1 hnone
    obtain ⟨cause, rfl⟩ := evaluate_of_not_definedAt (stopCause_of_operands hvalues hf) hundefined
    exact ⟨⟨cause, hf⟩, fun h => hnone (hasValue_part h hd)⟩
  · intro d hd hundefined
    obtain ⟨f, hf⟩ := not_hasValue_iff.1 hd.not_hasValue
    obtain ⟨cause, rfl⟩ :=
      evaluate_of_not_definedAt (stopCause_of_operands hd.hasValue_operands hf) hundefined
    exact ⟨cause, hd.evaluate_eq hf⟩

def inversePower (exponent : Decimal) : Expr := .binary .pow (.ident "p") (.neg (.number exponent))

/-- The inverse of a square has a value at two, and fails by its arithmetic at zero. -/
theorem inverseSquare_within_domains :
    DefinedAt (fun _ => some Decimal.two) (inversePower Decimal.two) ∧
      ∃ cause, (inversePower Decimal.two).evaluate (fun _ => some Decimal.zero) =
        .error (.arithmetic cause) := by
  have htwo : Decimal.two.toRat = 2 := by decide +kernel
  have hvalues : ∀ o ∈ operands (inversePower Decimal.two), HasValue (fun _ => some Decimal.zero) o := by
    intro o ho
    obtain rfl | ho := List.mem_cons.1 ho
    · exact ⟨_, rfl⟩
    · obtain rfl := List.mem_singleton.1 ho
      exact ⟨_, rfl⟩
  obtain ⟨hdefined, -⟩ := values_within_domains (fun _ => some Decimal.two) (inversePower Decimal.two)
  obtain ⟨-, -, hstops, -⟩ :=
    values_within_domains (fun _ => some Decimal.zero) (inversePower Decimal.two)
  refine ⟨?_, hstops _ (.whole hvalues (not_hasValue_iff.2 ⟨_, rfl⟩)) fun h => ?_⟩
  · by_contra hundefined
    obtain ⟨l, r, a, b, heq, ha, -, -, hzero, -⟩ :=
      (hdefined (exists_eq_ok (by decide +kernel)) _ .whole).1 hundefined
    cases heq
    cases ha
    rw [htwo] at hzero
    norm_num at hzero
  · obtain hpositive | ⟨-, hnonneg⟩ | ⟨hnegative, -⟩ := h Decimal.zero (-Decimal.two) rfl rfl
    · exact absurd hpositive (by simp)
    · rw [toRat_neg, htwo] at hnonneg
      norm_num at hnonneg
    · exact absurd hnegative (by simp)

/-- One over the square root of zero, written as a power, is taken for zero. -/
theorem inverseRoot_beyond_domain :
    let e := inversePower (unsigned 5 1)
    e.evaluate (fun _ => some Decimal.zero) = .ok Decimal.zero ∧
      ¬DefinedAt (fun _ => some Decimal.zero) e := by
  refine ⟨rfl, fun h => ?_⟩
  have hhalf : (-unsigned 5 1).toRat < 0 := by decide +kernel
  obtain hpositive | ⟨-, hnonneg⟩ | ⟨hnegative, -⟩ := h Decimal.zero _ rfl rfl
  · exact absurd hpositive (by simp)
  · exact absurd hhalf (not_lt.2 hnonneg)
  · exact absurd hnegative (by simp)

end MarkovFit.Proofs
