import MarkovFit.Proofs.ExpressionParts
import MarkovFit.Sampling.Uniform

/-!
# Kinds of failures

What a computation can fail with: a sequence fails with what its parts fail with, and a loop with what
its steps fail with. A drawn value can only leave the range of the decimals, and an expression fails
by its arithmetic or by a name.
-/

namespace MarkovFit.Proofs

variable {ε α β : Type} {P Q : ε → Prop}

/-- The computation fails, if it does, with a failure of this kind. -/
def FailsOnly (P : ε → Prop) (x : Except ε α) : Prop := ∀ e, x = .error e → P e

lemma failsOnly_ok (a : α) : FailsOnly P (.ok a) := fun _ h => nomatch h

lemma failsOnly_error {e : ε} (h : P e) : FailsOnly P (.error e : Except ε α) := by
  intro e' he'
  cases he'
  exact h

lemma FailsOnly.mono {x : Except ε α} (h : FailsOnly P x) (hPQ : ∀ e, P e → Q e) : FailsOnly Q x :=
  fun e he => hPQ e (h e he)

lemma FailsOnly.bind {x : Except ε α} {f : α → Except ε β} (hx : FailsOnly P x)
    (hf : ∀ a, x = .ok a → FailsOnly P (f a)) : FailsOnly P (x >>= f) := by
  cases x with
  | error e => exact failsOnly_error (hx e rfl)
  | ok a => exact hf a rfl

lemma FailsOnly.map {x : Except ε α} (hx : FailsOnly P x) (f : α → β) : FailsOnly P (x.map f) := by
  cases x with
  | error e => exact failsOnly_error (hx e rfl)
  | ok a => exact failsOnly_ok _

/-- A list of computations fails with what one of them fails with. -/
lemma failsOnly_mapM {f : α → Except ε β} {xs : List α} (h : ∀ x ∈ xs, FailsOnly P (f x)) :
    FailsOnly P (xs.mapM f) := by
  induction xs with
  | nil => exact failsOnly_ok _
  | cons x xs ih =>
    rw [List.mapM_cons]
    refine (h x List.mem_cons_self).bind fun y _ => ?_
    exact (ih fun x hx => h x (List.mem_cons_of_mem _ hx)).bind fun ys _ => failsOnly_ok _

/-- A fold fails with what a step fails with where the invariant holds. -/
lemma failsOnly_foldlM {I : β → Prop} {f : β → α → Except ε β} {xs : List α} {b : β} (hb : I b)
    (hf : ∀ b, ∀ x ∈ xs, I b → FailsOnly P (f b x) ∧ ∀ b', f b x = .ok b' → I b') :
    FailsOnly P (xs.foldlM f b) := by
  induction xs generalizing b with
  | nil => exact failsOnly_ok _
  | cons x xs ih =>
    rw [List.foldlM_cons]
    obtain ⟨hfails, hkeeps⟩ := hf b x List.mem_cons_self hb
    exact hfails.bind fun b' hb' =>
      ih (hkeeps b' hb') fun b x hx => hf b x (List.mem_cons_of_mem _ hx)

/-! ### Draws -/

/-- A failure that stands for a number out of range. -/
def IsFault (e : Failure) : Prop := ∃ fault, e = .fault fault

section

open Sampling

lemma failsOnly_unguarded (r : Option α) : FailsOnly IsFault (unguarded r) := by
  cases r with
  | none => exact failsOnly_error ⟨_, rfl⟩
  | some a => exact failsOnly_ok a

lemma failsOnly_span (p : Parameter) : FailsOnly IsFault p.span := by
  rw [Parameter.span]
  split
  · exact failsOnly_ok _
  · exact failsOnly_error ⟨_, rfl⟩

lemma failsOnly_valueAt (p : Parameter) (t : Decimal) : FailsOnly IsFault (valueAt p t) :=
  (failsOnly_span p).bind fun _ _ =>
    (failsOnly_unguarded _).bind fun _ _ =>
      (failsOnly_unguarded _).bind fun _ _ => failsOnly_ok _

lemma failsOnly_drawValues {γ : Type} [RandomSource γ] (ps : List Parameter) (source : γ) :
    FailsOnly IsFault (drawValues ps source) := by
  induction ps generalizing source with
  | nil => exact failsOnly_ok _
  | cons p ps ih =>
    have hvalue : FailsOnly IsFault (drawValue p source) :=
      (failsOnly_valueAt p _).bind fun _ _ => failsOnly_ok _
    exact hvalue.bind fun drawn _ => (ih drawn.2).bind fun _ _ => failsOnly_ok _

end

/-! ### Expressions -/

/-- A failure of an expression: by its arithmetic, or by a name without a value. -/
def ExpressionFailure : Failure → Prop
  | .arithmetic _ | .undefinedIdentifier _ | .fault _ => True
  | _ => False

theorem failsOnly_evaluate (lookup : String → Option Decimal) (e : Expr) :
    FailsOnly ExpressionFailure (e.evaluate lookup) := by
  intro f hf
  obtain ⟨d, -, hcause⟩ := exists_stopCause hf
  cases hcause with
  | name | negativeRoot | unsettledRoot => trivial
  | operation _ _ h =>
    obtain ⟨cause, rfl⟩ := apply_eq_error h
    trivial

end MarkovFit.Proofs
