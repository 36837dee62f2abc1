import MarkovFit.Proofs.EqualInputs
import MarkovFit.Proofs.FailureKinds
import MarkovFit.Proofs.LogarithmLoops
import MarkovFit.Proofs.NewtonOrbit
import MarkovFit.Template.Basic

/-!
# Roots that are not found

The square root of a positive decimal is missing exactly if Newton's iteration for it never comes to
rest. That happens: some numbers lead it round a cycle of several values. Nothing else in an expression
ends in a fault, and no other loop is cut off.
-/

namespace MarkovFit.Proofs

open Decimal

variable {a : Decimal}

/-! ### Newton's iteration for a decimal -/

/-- The approximations of Newton's iteration for a root. -/
def approximation? (a : Decimal) : ℕ → Option Decimal
  | 0 => (a.div? two).map fun half => if half.isZero then a else half
  | n + 1 => (approximation? a n).bind (rootStep? a)

/-- The approximations change with each step, and from some of them on they repeat. -/
def GoesRound (a : Decimal) : Prop :=
  ∃ xs : ℕ → Decimal, (∀ n, approximation? a n = some (xs n)) ∧
    (∀ n, ¬(xs (n + 1)).SameValue (xs n)) ∧
    ∃ start period, 1 < period ∧ ∀ n, start ≤ n → (xs (n + period)).SameValue (xs n)

theorem isMagnitude_toRat (ha : 0 < a.toRat) : IsMagnitude a.toRat where
  low := by
    rw [div_le_iff₀ (by norm_num)]
    exact one_le_mul_pow ha
  high := by
    have hlt := ((toRat_mem_Ioo a).2).trans limit_lt_bound
    rwa [mantissaBound_eq] at hlt

theorem exists_start (ha : 0 < a.toRat) :
    ∃ x, approximation? a 0 = some x ∧ InRange a.toRat x.toRat := by
  have hhigh := (isMagnitude_toRat ha).high
  have htwo : two.toRat = 2 := by decide +kernel
  obtain ⟨half, hhalf, hvalue⟩ := exists_div?_whole (a := a) (b := two) rfl (by decide)
  rw [htwo] at hvalue
  have hmoved := abs_le.1 (abs_rounded_sub_le (x := a.toRat / 2) (by linarith)
    (by rw [mantissaBound_eq]; linarith))
  rw [← hvalue, halfUnit, relativeError] at hmoved
  refine ⟨_, by rw [approximation?, hhalf]; rfl, ?_⟩
  simp only
  split
  · rename_i hzero
    rw [isZero_iff] at hzero
    rw [hzero] at hmoved
    exact ⟨ha, by linarith, by rw [div_self ha.ne']; norm_num⟩
  · rename_i hzero
    have hpos : 0 < half.toRat := by
      refine lt_of_le_of_ne ?_ fun h => hzero (isZero_iff.2 h.symm)
      rw [hvalue]
      exact rounded_nonneg (by linarith)
    have hunit := (isMagnitude_toRat hpos).low
    refine ⟨hpos, by linarith, ?_⟩
    rw [div_le_iff₀ hpos]
    linarith

/-- All approximations exist, and they are what the rounded steps give. -/
theorem exists_approximations (ha : 0 < a.toRat) :
    ∃ xs : ℕ → Decimal, (∀ n, approximation? a n = some (xs n)) ∧ InRange a.toRat (xs 0).toRat ∧
      ∀ n, (xs n).toRat = (newtonStep a.toRat)^[n] (xs 0).toRat := by
  obtain ⟨x, hx, hrange⟩ := exists_start ha
  have hA := isMagnitude_toRat ha
  have hall : ∀ n, ∃ y, approximation? a n = some y ∧
      y.toRat = (newtonStep a.toRat)^[n] x.toRat := fun n => by
    induction n with
    | zero => exact ⟨x, hx, rfl⟩
    | succ n ih =>
      obtain ⟨y, hy, hvalue⟩ := ih
      have hrange' : InRange a.toRat y.toRat := hvalue ▸ hA.inRange_iterate hrange n
      obtain ⟨z, hz, hvalue'⟩ := exists_rootStep ha.le hrange'
      refine ⟨z, by rw [approximation?, hy]; exact hz, ?_⟩
      rw [hvalue', hvalue, Function.iterate_succ_apply']
  choose xs hxs hvalues using hall
  have hfirst : xs 0 = x := Option.some.inj ((hxs 0).symm.trans hx)
  exact ⟨xs, hxs, hfirst ▸ hrange, hfirst ▸ hvalues⟩

theorem rootStep_of_approximations {xs : ℕ → Decimal} (hxs : ∀ n, approximation? a n = some (xs n))
    (n : ℕ) : rootStep? a (xs n) = some (xs (n + 1)) := by
  rw [← hxs (n + 1), approximation?, hxs n]
  rfl

/-- The iteration does not settle within some steps exactly if each of them changes the value. -/
theorem iterateRoot_eq_unsettled_iff {xs : ℕ → Decimal}
    (hxs : ∀ n, approximation? a n = some (xs n)) (steps n : ℕ) :
    iterateRoot a steps (xs n) = .error .unsettled ↔
      ∀ i < steps, ¬(xs (n + i + 1)).SameValue (xs (n + i)) := by
  induction steps generalizing n with
  | zero => exact iff_of_true rfl fun i hi => absurd hi (Nat.not_lt_zero i)
  | succ steps ih =>
    rw [iterateRoot, rootStep_of_approximations hxs, Nat.forall_lt_succ_left']
    simp only
    split
    · rename_i hsame
      exact iff_of_false (by simp) fun h => h.1 hsame
    · rename_i hother
      have hshift : ∀ i, n + (i + 1) = n + 1 + i := fun i => by omega
      rw [ih]
      refine ⟨fun h => ⟨hother, fun i hi => ?_⟩, fun h i hi => ?_⟩
      · rw [hshift]
        exact h i hi
      · rw [← hshift]
        exact h.2 i hi

/-! ### Cycles -/

/-- A value that comes back does so for ever. -/
theorem repeat_forever {f : ℚ → ℚ} {x : ℚ} {i j : ℕ} (hij : i ≤ j) (h : f^[i] x = f^[j] x) (n : ℕ)
    (hn : i ≤ n) : f^[n + (j - i)] x = f^[n] x := by
  obtain ⟨k, rfl⟩ := Nat.exists_eq_add_of_le' hn
  have hsplit : k + i + (j - i) = k + j := by omega
  rw [hsplit, Function.iterate_add_apply, Function.iterate_add_apply, h]

theorem rest_forever {f : ℚ → ℚ} {x : ℚ} {n : ℕ} (h : f^[n + 1] x = f^[n] x) (k : ℕ) :
    f^[n + k] x = f^[n] x := by
  induction k with
  | zero => rfl
  | succ k ih =>
    rw [Function.iterate_succ_apply'] at h
    rw [← Nat.add_assoc, Function.iterate_succ_apply', ih, h]

/-- An orbit that returns to a value from which it moves never comes to rest. -/
theorem ne_of_repeat {f : ℚ → ℚ} {x : ℚ} {i j : ℕ} (hij : i < j) (h : f^[i] x = f^[j] x)
    (hmoves : f^[i + 1] x ≠ f^[i] x) (n : ℕ) : f^[n + 1] x ≠ f^[n] x := by
  intro hrest
  have hreturns : ∀ k, f^[i + k * (j - i)] x = f^[i] x := fun k => by
    induction k with
    | zero => rw [Nat.zero_mul, Nat.add_zero]
    | succ k ih =>
      rw [Nat.succ_mul, ← Nat.add_assoc, repeat_forever hij.le h _ (Nat.le_add_right _ _), ih]
  obtain ⟨k, hk⟩ : ∃ k, i + n * (j - i) = n + k :=
    Nat.exists_eq_add_of_le ((Nat.le_mul_of_pos_right n (by omega)).trans (Nat.le_add_left _ _))
  -- At a return after the rest the orbit is at the value from which it moves.
  have hlater := hreturns n
  rw [hk, rest_forever hrest] at hlater
  apply hmoves
  calc f^[i + 1] x = f (f^[i] x) := Function.iterate_succ_apply' f i x
    _ = f (f^[n] x) := by rw [hlater]
    _ = f^[n + 1] x := (Function.iterate_succ_apply' f n x).symm
    _ = f^[i] x := by rw [hrest, hlater]

/-- If the steps that are allowed do not bring the iteration to rest, no number of steps does. -/
theorem goesRound_of_unsettled (ha : 0 < a.toRat) {xs : ℕ → Decimal} {x : ℚ}
    (hxs : ∀ n, approximation? a n = some (xs n)) (hrange : InRange a.toRat x)
    (hvalues : ∀ n, (xs n).toRat = (newtonStep a.toRat)^[n] x)
    (hmoves : ∀ i < maxRootSteps, ¬(xs (i + 1)).SameValue (xs i)) : GoesRound a := by
  obtain ⟨i, j, hij, hj, heq⟩ := (isMagnitude_toRat ha).exists_repeat hrange hvalues
  simp only [sameValue_iff_toRat_eq, hvalues] at heq hmoves
  have hsteps : j < maxRootSteps := by
    simp only [settling, crowd, maxRootSteps] at *
    omega
  -- A period of one would be a step that keeps the value.
  have hperiod : 1 < j - i := by
    by_contra hshort
    obtain rfl : j = i + 1 := by omega
    exact hmoves i (by omega) heq.symm
  refine ⟨xs, hxs, ?_, i, j - i, hperiod, ?_⟩
  · simp only [sameValue_iff_toRat_eq, hvalues]
    exact ne_of_repeat hij heq (hmoves i (by omega))
  · simp only [sameValue_iff_toRat_eq, hvalues]
    exact repeat_forever hij.le heq

/-- There is no square root exactly if Newton's iteration goes round for ever. -/
theorem sqrt_eq_unsettled_iff : a.sqrt = .error .unsettled ↔ 0 < a.toRat ∧ GoesRound a := by
  by_cases ha : 0 < a.toRat
  · have hsign : a.negative = false := by
      rw [← Bool.not_eq_true]
      exact fun h => not_lt.2 (nonpos_of_negative h) ha
    have hzero : ¬a.isZero = true := fun h => ha.ne' (isZero_iff.1 h)
    have hsqrt : ∀ {x : Decimal}, approximation? a 0 = some x →
        a.sqrt = iterateRoot a maxRootSteps x := by
      intro x hx
      obtain ⟨half, hhalf, hstart⟩ := Option.map_eq_some_iff.1 hx
      rw [sqrt, hsign, if_neg Bool.false_ne_true, if_neg hzero, hhalf, ← hstart]
    rw [and_iff_right ha]
    constructor
    · intro h
      obtain ⟨xs, hxs, hrange, hvalues⟩ := exists_approximations ha
      rw [hsqrt (hxs 0), iterateRoot_eq_unsettled_iff hxs] at h
      exact goesRound_of_unsettled ha hxs hrange hvalues (by simpa using h)
    · rintro ⟨xs, hxs, hmoves, -⟩
      rw [hsqrt (hxs 0), iterateRoot_eq_unsettled_iff hxs]
      exact fun i _ => hmoves (0 + i)
  · refine iff_of_false (fun h => ?_) fun h => ha h.1
    rw [sqrt] at h
    split at h
    · cases h
    · rename_i hsign
      split at h
      · cases h
      · rename_i hzero
        exact ha (lt_of_le_of_ne (nonneg_of_not_negative hsign)
          fun hvalue => hzero (isZero_iff.2 hvalue.symm))

/-! ### Faults -/

variable {lookup : String → Option Decimal} {d e : Expr}

theorem of_fault {f : Failure} {fault : Fault} (h : StopCause lookup d f) (hf : f = .fault fault) :
    ∃ o a, d = .sqrt o ∧ o.evaluate lookup = .ok a ∧ a.sqrt = .error .unsettled := by
  cases h with
  | name | negativeRoot => cases hf
  | unsettledRoot ha hroot => exact ⟨_, _, rfl, ha, hroot⟩
  | operation ha hb happly =>
    obtain ⟨cause, rfl⟩ := apply_eq_error happly
    cases hf

/-- The evaluation stops at the root of a number for which Newton's iteration goes round for ever. -/
def StopsAtEndlessRoot (lookup : String → Option Decimal) (e : Expr) : Prop :=
  ∃ o a, StopsAt lookup (.sqrt o) e ∧ o.evaluate lookup = .ok a ∧ 0 < a.toRat ∧ GoesRound a

theorem evaluate_eq_fault_iff :
    (∃ fault, e.evaluate lookup = .error (.fault fault)) ↔ StopsAtEndlessRoot lookup e := by
  constructor
  · rintro ⟨fault, h⟩
    obtain ⟨d, hd, hcause⟩ := exists_stopCause h
    obtain ⟨o, a, rfl, ha, hroot⟩ := of_fault hcause rfl
    exact ⟨o, a, hd, ha, sqrt_eq_unsettled_iff.1 hroot⟩
  · rintro ⟨o, a, hd, ha, hendless⟩
    refine ⟨.unsettledRoot, hd.evaluate_eq ?_⟩
    rw [evaluate_sqrt ha, sqrt_eq_unsettled_iff.2 hendless]

/-- An expression has a value or fails in an orderly way, but for one case: it ends in a fault exactly if
its evaluation stops at the root of a number for which Newton's iteration goes round for ever. A template
ends in a fault only if one of its terms does; and no loop of the logarithm in a fractional power runs into
its bound. -/
theorem faults_iff_endless_root (lookup : String → Option Decimal) (e : Expr) :
    ((∃ fault, e.evaluate lookup = .error (.fault fault)) ↔ StopsAtEndlessRoot lookup e) ∧
    (∀ (t : TermList) (x : Sample), (∃ fault, t.evaluate x = .error (.fault fault)) →
      ∃ term ∈ t.terms, StopsAtEndlessRoot (t.lookup x) term) ∧
    ∀ a : Decimal, 0 < a.toRat → LoopsEnd a := by
  refine ⟨evaluate_eq_fault_iff, fun t x => ?_, fun a => loopsEnd⟩
  rintro ⟨fault, h⟩
  have hterms : FailsOnly (fun f => ∀ fault, f = .fault fault →
      ∃ term ∈ t.terms, StopsAtEndlessRoot (t.lookup x) term) (t.evaluate x) := by
    refine (failsOnly_mapM ?_).bind fun pairs _ => failsOnly_ok _
    rintro ⟨name, term⟩ hmem
    refine FailsOnly.bind (fun f hf fault hfault => ?_) fun v _ => failsOnly_ok _
    exact ⟨term, (List.of_mem_zip hmem).2, evaluate_eq_fault_iff.1 ⟨fault, hfault ▸ hf⟩⟩
  exact hterms _ h fault rfl

/-- Two approximations that lead to each other keep the iteration from coming to rest. -/
theorem iterateRoot_of_swing {x y : Decimal} (hy : rootStep? a x = some y)
    (hx : rootStep? a y = some x) (hne : ¬y.SameValue x) (steps : ℕ) :
    iterateRoot a steps x = .error .unsettled := by
  induction steps generalizing x y with
  | zero => rfl
  | succ steps ih =>
    rw [iterateRoot, hy]
    simp only
    rw [if_neg hne]
    exact ih hx hy fun h => hne (sameValue_symm h)

def justAboveFour : Decimal := unsigned 40000000000000000000000000003 28

/-- The iteration for the root of a number just above four swings between two neighbours. -/
theorem sqrt_justAboveFour : justAboveFour.sqrt = .error .unsettled := by
  have hhalf : justAboveFour.div? two =
      some (unsigned 20000000000000000000000000002 28) := by decide +kernel
  have hfirst : rootStep? justAboveFour (unsigned 20000000000000000000000000002 28) =
      some (unsigned 20000000000000000000000000001 28) := by decide +kernel
  have hdown : rootStep? justAboveFour (unsigned 20000000000000000000000000001 28) =
      some (unsigned 2000000000000000000000 21) := by decide +kernel
  have hup : rootStep? justAboveFour (unsigned 2000000000000000000000 21) =
      some (unsigned 20000000000000000000000000001 28) := by decide +kernel
  rw [sqrt, if_neg (by decide), if_neg (by decide), hhalf]
  simp only
  rw [if_neg (by decide), maxRootSteps, iterateRoot, hfirst]
  simp only
  rw [if_neg (by decide)]
  exact iterateRoot_of_swing hdown hup (by decide) 998

theorem justAboveFour_endless :
    StopsAtEndlessRoot (fun _ => some justAboveFour) (.sqrt (.ident "p")) ∧ LoopsEnd Decimal.two := by
  obtain ⟨hfaults, -, hloops⟩ :=
    faults_iff_endless_root (fun _ => some justAboveFour) (.sqrt (.ident "p"))
  have htwo : 0 < Decimal.two.toRat := by decide +kernel
  refine ⟨hfaults.1 ⟨.unsettledRoot, ?_⟩, hloops _ htwo⟩
  rw [evaluate_sqrt rfl, sqrt_justAboveFour]

theorem justAboveFour_faults :
    (Expr.sqrt (.ident "p")).evaluate (fun _ => some justAboveFour) =
      .error (.fault .unsettledRoot) := by
  rw [evaluate_sqrt rfl, sqrt_justAboveFour]

end MarkovFit.Proofs
