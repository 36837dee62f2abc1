import MarkovFit.Proofs.DecimalRounding
import MarkovFit.Proofs.UnknownIndex

/-!
# Rows of a model

A model turns values by name into entries by position. Building a model and adding a row are
described once and for all here: what a success says about names, and that every stored number
is the given one with its decimal point moved.
-/

namespace MarkovFit.Proofs

open Decimal

/-- The exact value of a name; zero for a name without an entry. -/
def valueOf (values : Valuation) (name : String) : ℚ := (values.getD name Decimal.zero).toRat

lemma valueOf_eq {values : Valuation} {name : String} {a : Decimal} (h : values[name]? = some a) :
    valueOf values name = a.toRat := by
  rw [valueOf, Std.TreeMap.getD_eq_getD_getElem?, h]
  rfl

lemma valueOf_eq_zero {values : Valuation} {name : String} (h : values[name]? = none) :
    valueOf values name = 0 := by
  rw [valueOf, Std.TreeMap.getD_eq_getD_getElem?, h]
  exact toRat_zero

lemma valueOf_insert (values : Valuation) (name other : String) (a : Decimal) :
    valueOf (values.insert name a) other = if name = other then a.toRat else valueOf values other := by
  rw [valueOf, Std.TreeMap.getD_insert, valueOf]
  simp only [Std.LawfulEqCmp.compare_eq_iff_eq]
  split <;> rfl

/-! ## Dense entries -/

/-- What a dense list holds for a name: the scaled value, or zero for a name without one. -/
def IsEntry (terms : Valuation) (factor : Decimal) (name : String) (entry : Decimal) : Prop :=
  (∀ value, terms[name]? = some value → value.mul? factor = some entry) ∧
    (terms[name]? = none → entry = Decimal.zero)

section

variable {m : Model} {terms : Valuation} {factor : Decimal} {entries : List Decimal}

/-- Values become entries in the order of the unknowns, if every name is one of them. -/
theorem dense_eq_ok (hm : Indexed m) (h : m.dense terms factor = .ok entries) :
    (∀ name ∈ terms, name ∈ m.program.unknowns) ∧
      List.Forall₂ (IsEntry terms factor) m.program.unknowns entries := by
  have hkeys : (terms.toList.map Prod.fst) = terms.keys := Std.TreeMap.map_fst_toList_eq_keys
  obtain ⟨hlength, hmem, hentries⟩ :=
    hm.foldlM_writeEntry (hkeys ▸ Std.TreeMap.nodup_keys) h
  rw [List.length_replicate] at hlength
  refine ⟨fun name hname => ?_, List.forall₂_iff_get.2 ⟨hlength.symm, fun i hi hi' => ?_⟩⟩
  · obtain ⟨value, hvalue⟩ := mem_iff_exists_getElem?.1 hname
    exact hmem (name, value) (Std.TreeMap.mem_toList_iff_getElem?_eq_some.2 hvalue)
  · obtain ⟨hgiven, hmissing⟩ := hentries _ i (List.getElem?_eq_getElem hi)
    have hentry : entries[i]? = some (entries.get ⟨i, hi'⟩) := List.getElem?_eq_getElem hi'
    constructor
    · intro value hvalue
      obtain ⟨product, hproduct, hi⟩ :=
        hgiven value (Std.TreeMap.mem_toList_iff_getElem?_eq_some.2 hvalue)
      rw [hproduct, ← hi, hentry]
    · intro hnone
      have habsent : m.program.unknowns.get ⟨i, hi⟩ ∉ terms.toList.map Prod.fst := by
        rw [hkeys, Std.TreeMap.mem_keys, Std.TreeMap.mem_iff_isSome_getElem?, hnone]
        exact Bool.false_ne_true
      have hzero := hmissing habsent
      rw [hentry, List.getElem?_replicate_of_lt hi] at hzero
      exact Option.some.inj hzero

/-- Values are refused for a name or for their size only. -/
theorem failsOnly_dense (hm : Indexed m) :
    FailsOnly (fun e => ∃ name value, terms[name]? = some value ∧ Unwritable m factor (name, value) e)
      (m.dense terms factor) := by
  refine failsOnly_foldlM (I := fun entries => entries.length = m.program.unknowns.length)
    List.length_replicate fun entries x hx hlength => ⟨?_, fun entries' hwrite => ?_⟩
  · refine (hm.failsOnly_writeEntry hlength x).mono fun e he => ?_
    exact ⟨x.1, x.2, Std.TreeMap.mem_toList_iff_getElem?_eq_some.1 hx, he⟩
  · obtain ⟨i, product, -, -, -, rfl⟩ := hm.writeEntry_eq_ok hwrite
    rw [List.length_set, hlength]

/-- Dense entries are the values themselves, times the power of ten. -/
theorem dense_toRat {k : Nat} (hm : Indexed m) (hfactor : IsNat factor (10 ^ k))
    (h : m.dense terms factor = .ok entries) :
    entries.map toRat = m.program.unknowns.map fun name => 10 ^ k * valueOf terms name := by
  rw [← List.forall₂_eq_eq_eq, List.forall₂_map_left_iff, List.forall₂_map_right_iff]
  refine ((dense_eq_ok hm h).2.flip.imp ?_)
  rintro entry name ⟨hsome, hnone⟩
  cases hvalue : terms[name]? with
  | none => rw [hnone hvalue, valueOf_eq_zero hvalue, toRat_zero, mul_zero]
  | some value => rw [valueOf_eq hvalue, mul?_pow_ten hfactor (hsome value hvalue)]

end

/-! ## Building a model -/

/-- What a new model holds. -/
theorem make_eq_ok {scaling : Nat} {precision : Decimal} {bound : Option Decimal}
    {coefficients : List String} {direction : Direction} {weights : Valuation} {m : Model}
    (h : Model.make scaling precision bound coefficients direction weights = .ok m) :
    Indexed m ∧ IsNat m.factor (10 ^ scaling) ∧ m.precision = precision ∧
      m.dense weights Decimal.one = .ok m.program.objective ∧
      m.program.unknowns = lambdaName :: coefficients ∧
      m.program.intervals = ⟨some Decimal.zero, bound⟩ :: coefficients.map (fun _ => {}) ∧
      m.program.direction = direction ∧ m.program.rows = [] := by
  unfold Model.make at h
  obtain ⟨start, hstart, h⟩ := bind_eq_ok.1 h
  obtain ⟨registered, hregistered, h⟩ := bind_eq_ok.1 h
  obtain ⟨objective, hobjective, h⟩ := bind_eq_ok.1 h
  cases h
  obtain ⟨hindexed, hfactor, hprecision, hprogram⟩ := setUnknowns_eq_ok hstart hregistered
  refine ⟨⟨hindexed.position_iff, hindexed.intervals_length⟩, ?_, hprecision, hobjective,
    congrArg LinearProgram.unknowns hprogram, congrArg LinearProgram.intervals hprogram, rfl,
    congrArg LinearProgram.rows hprogram⟩
  rw [Model.scalingFactor] at hfactor
  split at hfactor
  · change IsNat registered.factor (10 ^ scaling)
    cases hfactor
    exact powNat?_ten ‹_›
  · cases hfactor

/-- A row enters behind the others and changes nothing else. -/
theorem addRow_eq_ok {m m' : Model} {terms : Valuation} {sense : Sense} {bound : Decimal}
    (h : m.addRow terms sense bound = .ok m') :
    ∃ row : Row, m' = { m with program := { m.program with rows := m.program.rows ++ [row] } } ∧
      row.sense = sense ∧ m.dense terms m.factor = .ok row.coefficients ∧
      bound.mul? m.factor = some row.bound := by
  unfold Model.addRow at h
  obtain ⟨coefficients, hcoefficients, h⟩ := bind_eq_ok.1 h
  obtain ⟨scaled, hscaled, h⟩ := bind_eq_ok.1 h
  cases h
  exact ⟨⟨coefficients, sense, scaled⟩, rfl, rfl, hcoefficients, orArithmetic_eq_ok.1 hscaled⟩

end MarkovFit.Proofs
