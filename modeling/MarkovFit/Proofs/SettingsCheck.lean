import MarkovFit.Proofs.ExpressionText
import MarkovFit.Settings.Check
import Mathlib.Data.Bool.AllAny

/-!
# What the check of settings accepts

Names of parameters are names in expressions, each of them is declared once and is no constant, and every
interval has its lower end below its upper end.
-/

namespace MarkovFit.Proofs

open Settings Text

/-! ### Names -/

lemma isIdentStart_eq (c : Char) : Expr.isIdentStart c = (c.isAlpha || c == '_') := by
  unfold Expr.isIdentStart Char.isAlpha Char.isUpper Char.isLower
  simp

lemma isIdentRest_eq (c : Char) : Expr.isIdentRest c = (c.isAlphanum || c == '_') := by
  rw [Expr.isIdentRest, isIdentStart_eq, Char.isAlphanum, Bool.or_right_comm]
  unfold Char.isDigit Text.isDigit
  simp

theorem isIdentifier_iff {name : String} : isIdentifier name = true ↔ IsName name.toList := by
  rw [isIdentifier, IsName]
  cases name.toList with
  | nil => simp
  | cons c cs =>
    simp only [Bool.and_eq_true, List.all_eq_true, isIdentStart_eq, isIdentRest_eq]
    constructor
    · exact fun h => ⟨c, cs, rfl, h⟩
    · rintro ⟨c', cs', heq, h⟩
      cases heq
      exact h

/-- A name has no blanks around it and is not empty. -/
theorem trim_ne_of_isIdentifier {name : String} (h : isIdentifier name = true) : trim name ≠ "" := by
  have hname := isIdentifier_iff.1 h
  rw [trim_eq_self fun c hc => isBlank_of_isIdentRest (hname.isIdentRest c hc)]
  rintro rfl
  obtain ⟨c, cs, hcons, -⟩ := hname
  cases hcons

/-! ### Parameters -/

theorem demand_eq_ok_iff {condition : Bool} {cause : SettingsCause} :
    demand condition cause = .ok () ↔ condition = true := by
  cases condition <;> simp [demand]

/-- A demand and what is checked after it. -/
theorem demand_bind_eq_ok_iff {condition : Bool} {cause : SettingsCause}
    {rest : Except SettingsCause Unit} :
    (do demand condition cause; rest) = .ok () ↔ condition = true ∧ rest = .ok () := by
  cases condition <;> simp [demand, Bind.bind, Except.bind]

/-- What is accepted of parameters, of which those before are named `seen`. -/
structure AcceptedParameters (constants seen : List String) (ps : List ParameterSettings) : Prop where
  isIdentifier : ∀ p ∈ ps, isIdentifier p.name = true
  lower_lt_upper : ∀ p ∈ ps, p.lower < p.upper
  not_mem_constants : ∀ p ∈ ps, p.name ∉ constants
  not_mem_seen : ∀ p ∈ ps, p.name ∉ seen
  nodup : (ps.map ParameterSettings.name).Nodup

theorem acceptedParameters_cons_iff {constants seen : List String} {p : ParameterSettings}
    {ps : List ParameterSettings} : AcceptedParameters constants seen (p :: ps) ↔
      Settings.isIdentifier p.name = true ∧ p.name ∉ seen ∧ p.lower < p.upper ∧
        p.name ∉ constants ∧ AcceptedParameters constants (p.name :: seen) ps := by
  constructor
  · rintro ⟨hname, hlt, hconstants, hseen, hnodup⟩
    rw [List.map_cons, List.nodup_cons] at hnodup
    rw [List.forall_mem_cons] at hname hlt hconstants hseen
    refine ⟨hname.1, hseen.1, hlt.1, hconstants.1, hname.2, hlt.2, hconstants.2, ?_, hnodup.2⟩
    intro q hq hmem
    obtain heq | hmem := List.mem_cons.1 hmem
    · exact hnodup.1 (heq ▸ List.mem_map_of_mem hq)
    · exact hseen.2 q hq hmem
  · rintro ⟨hname, hnew, hlt, hconstant, hrest⟩
    refine ⟨List.forall_mem_cons.2 ⟨hname, hrest.isIdentifier⟩,
      List.forall_mem_cons.2 ⟨hlt, hrest.lower_lt_upper⟩,
      List.forall_mem_cons.2 ⟨hconstant, hrest.not_mem_constants⟩,
      List.forall_mem_cons.2 ⟨hnew, fun q hq hmem => ?_⟩, ?_⟩
    · exact hrest.not_mem_seen q hq (List.mem_cons_of_mem _ hmem)
    · rw [List.map_cons, List.nodup_cons, List.mem_map]
      refine ⟨?_, hrest.nodup⟩
      rintro ⟨q, hq, heq⟩
      exact hrest.not_mem_seen q hq (List.mem_cons.2 (.inl heq))

theorem checkParameters_eq_ok_iff {constants seen : List String} {ps : List ParameterSettings} :
    checkParameters constants seen ps = .ok () ↔ AcceptedParameters constants seen ps := by
  induction ps generalizing seen with
  | nil =>
    refine iff_of_true rfl ⟨?_, ?_, ?_, ?_, List.nodup_nil⟩ <;>
      exact fun _ h => absurd h List.not_mem_nil
  | cons p ps ih =>
    rw [checkParameters, demand_bind_eq_ok_iff, demand_bind_eq_ok_iff, demand_bind_eq_ok_iff,
      demand_bind_eq_ok_iff, ih, acceptedParameters_cons_iff]
    simp only [Bool.not_eq_true', ← Bool.not_eq_true, List.contains_iff_mem, decide_eq_true_eq]

end MarkovFit.Proofs
