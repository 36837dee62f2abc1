import MarkovFit.Proofs.Feasibility
import MarkovFit.Proofs.TemplateTerms
import MarkovFit.Scenario.Fit

/-!
# The linear program of a fit is the minimax problem

A fit asks for coefficients whose function deviates from the measured values by at most `lambda`.
This file shows that the program handed to the solver says exactly that: two rows for each
measurement, every number scaled without rounding, and as solutions the assignments with all
deviations bounded by `lambda`.
-/

namespace MarkovFit.Proofs

open Scenario (Measurement addMeasurement)

/-- The exact value of the function with the coefficients `a`, in the order of the names, where
the terms have these values. -/
def combination (names : List String) (a : List ℚ) (terms : Valuation) : ℚ :=
  (List.zipWith (fun name x => x * valueOf terms name) names a).sum

/-- The function with the coefficients `a` deviates by at most `lambda` at a measurement. -/
def WithinMargin (t : Template) (lambda : ℚ) (a : List ℚ) (x : Measurement) : Prop :=
  ∃ terms, t.evaluate x.1 = .ok terms ∧
    |combination t.coefficients a terms - x.2.toRat| ≤ lambda

/-- The row is a condition multiplied by `10 ^ k`, with every number kept exactly. -/
structure IsScaled (k : Nat) (entries : List ℚ) (sense : Sense) (bound : ℚ) (row : Row) :
    Prop where
  sense_eq : row.sense = sense
  entries_eq : row.coefficients.map Decimal.toRat = entries.map (10 ^ k * ·)
  bound_eq : row.bound.toRat = 10 ^ k * bound

/-- The rows of measurements, two for each: the function plus `lambda` from above, the function
minus `lambda` from below. -/
inductive DeviationRows (t : Template) (k : Nat) : List Measurement → List Row → Prop
  | nil : DeviationRows t k [] []
  | cons {x : Measurement} {data : List Measurement} {terms : Valuation} {above below : Row}
      {rows : List Row} (evaluated : t.evaluate x.1 = .ok terms)
      (above_scaled : IsScaled k (1 :: t.coefficients.map (valueOf terms)) .atLeast x.2.toRat above)
      (below_scaled : IsScaled k (-1 :: t.coefficients.map (valueOf terms)) .atMost x.2.toRat below)
      (rest : DeviationRows t k data rows) :
      DeviationRows t k (x :: data) (above :: below :: rows)

/-- The program that makes the greatest deviation from some measurements as small as possible. -/
structure MinimaxProgram (t : Template) (data : List Measurement) (bound : Option Decimal) (k : Nat)
    (p : LinearProgram) : Prop where
  unknowns_eq : p.unknowns = lambdaName :: t.coefficients
  nodup : p.unknowns.Nodup
  intervals_eq : p.intervals = ⟨some Decimal.zero, bound⟩ :: t.coefficients.map fun _ => ⟨none, none⟩
  direction_eq : p.direction = .min
  objective_eq : p.objective.map Decimal.toRat = 1 :: t.coefficients.map fun _ => 0
  terms_named : ∀ x ∈ data, ∀ terms, t.evaluate x.1 = .ok terms →
    ∀ name, name ∈ terms ↔ name ∈ t.coefficients
  rows_length : p.rows.length = 2 * data.length
  rows : DeviationRows t k data p.rows

/-! ## Rows as conditions -/

lemma sum_zipWith_scaled (c : ℚ) (entries x : List ℚ) :
    (List.zipWith (· * ·) (entries.map (c * ·)) x).sum = c * (List.zipWith (· * ·) entries x).sum := by
  induction entries generalizing x with
  | nil => simp
  | cons e entries ih =>
    cases x with
    | nil => simp
    | cons v x =>
      simp only [List.map_cons, List.zipWith_cons_cons, List.sum_cons, ih, mul_add, mul_assoc]

/-- Scaling multiplies the value of a row. -/
theorem IsScaled.rowValue_eq {k : Nat} {entries : List ℚ} {sense : Sense} {bound : ℚ} {row : Row}
    (h : IsScaled k entries sense bound row) (x : List ℚ) :
    rowValue row.coefficients x = 10 ^ k * (List.zipWith (· * ·) entries x).sum := by
  rw [rowValue, h.entries_eq, sum_zipWith_scaled]

theorem IsScaled.holds_atLeast {k : Nat} {entries : List ℚ} {bound : ℚ} {row : Row}
    (h : IsScaled k entries .atLeast bound row) (x : List ℚ) :
    RowHolds row x ↔ bound ≤ (List.zipWith (· * ·) entries x).sum := by
  have hpos : (0 : ℚ) < 10 ^ k := by positivity
  rw [RowHolds, h.sense_eq, h.rowValue_eq, h.bound_eq]
  exact mul_le_mul_iff_right₀ hpos

theorem IsScaled.holds_atMost {k : Nat} {entries : List ℚ} {bound : ℚ} {row : Row}
    (h : IsScaled k entries .atMost bound row) (x : List ℚ) :
    RowHolds row x ↔ (List.zipWith (· * ·) entries x).sum ≤ bound := by
  have hpos : (0 : ℚ) < 10 ^ k := by positivity
  rw [RowHolds, h.sense_eq, h.rowValue_eq, h.bound_eq]
  exact mul_le_mul_iff_right₀ hpos

lemma sum_zipWith_terms (names : List String) (terms : Valuation) (a : List ℚ) :
    (List.zipWith (· * ·) (names.map (valueOf terms)) a).sum = combination names a terms := by
  rw [combination, List.zipWith_map_left]
  simp only [mul_comm]

/-- The two rows of a measurement bound its deviation. -/
theorem pair_holds_iff {names : List String} {terms : Valuation} {k : Nat} {y : ℚ}
    {above below : Row}
    (habove : IsScaled k (1 :: names.map (valueOf terms)) .atLeast y above)
    (hbelow : IsScaled k (-1 :: names.map (valueOf terms)) .atMost y below)
    (lambda : ℚ) (a : List ℚ) :
    (RowHolds above (lambda :: a) ∧ RowHolds below (lambda :: a)) ↔
      |combination names a terms - y| ≤ lambda := by
  rw [habove.holds_atLeast, hbelow.holds_atMost, abs_le]
  simp only [List.zipWith_cons_cons, List.sum_cons, sum_zipWith_terms]
  constructor
  · rintro ⟨hlower, hupper⟩
    exact ⟨by linarith, by linarith⟩
  · rintro ⟨hlower, hupper⟩
    exact ⟨by linarith, by linarith⟩

theorem DeviationRows.length_eq {t : Template} {k : Nat} {data : List Measurement} {rows : List Row}
    (h : DeviationRows t k data rows) : rows.length = 2 * data.length := by
  induction h with
  | nil => rfl
  | cons _ _ _ _ ih =>
    simp only [List.length_cons, ih]
    omega

/-- The rows hold where every deviation is at most `lambda`. -/
theorem DeviationRows.hold_iff {t : Template} {k : Nat} {data : List Measurement} {rows : List Row}
    (h : DeviationRows t k data rows) (lambda : ℚ) (a : List ℚ) :
    (∀ row ∈ rows, RowHolds row (lambda :: a)) ↔ ∀ x ∈ data, WithinMargin t lambda a x := by
  induction h with
  | nil => simp
  | @cons x data terms above below rows evaluated habove hbelow _ ih =>
    have hx : WithinMargin t lambda a x ↔ |combination t.coefficients a terms - x.2.toRat| ≤ lambda := by
      constructor
      · rintro ⟨terms', hterms', hle⟩
        rw [evaluated] at hterms'
        cases hterms'
        exact hle
      · exact fun hle => ⟨terms, evaluated, hle⟩
    rw [List.forall_mem_cons, List.forall_mem_cons, List.forall_mem_cons, ih, hx,
      ← pair_holds_iff habove hbelow, and_assoc]

/-! ## The rows that a fit builds -/

/-- What adding rows keeps: the unknowns of a template at their positions, and the factor. -/
structure Prepared (t : Template) (k : Nat) (m : Model) : Prop where
  indexed : Indexed m
  unknowns_eq : m.program.unknowns = lambdaName :: t.coefficients
  factor : IsNat m.factor (10 ^ k)

lemma Prepared.lambdaName_notMem {t : Template} {k : Nat} {m : Model} (h : Prepared t k m) :
    lambdaName ∉ t.coefficients := by
  have hnodup := h.indexed.nodup
  rw [h.unknowns_eq] at hnodup
  exact (List.nodup_cons.1 hnodup).1

/-- The model with more rows. -/
def withRows (m : Model) (rows : List Row) : Model :=
  { m with program := { m.program with rows := m.program.rows ++ rows } }

lemma Indexed.withRows {m : Model} (h : Indexed m) (rows : List Row) : Indexed (withRows m rows) :=
  ⟨h.position_iff, h.intervals_length⟩

lemma Prepared.withRows {t : Template} {k : Nat} {m : Model} (h : Prepared t k m) (rows : List Row) :
    Prepared t k (withRows m rows) :=
  ⟨h.indexed.withRows rows, h.unknowns_eq, h.factor⟩

/-- A row over the unknowns is the scaled condition that was asked for by their names. -/
theorem exists_scaledRow {k : Nat} {m m' : Model} (hm : Indexed m)
    (hfactor : IsNat m.factor (10 ^ k)) {terms : Valuation} {sense : Sense} {bound : Decimal}
    (h : m.addRow terms sense bound = .ok m') :
    ∃ row, m' = withRows m [row] ∧
      IsScaled k (m.program.unknowns.map (valueOf terms)) sense bound.toRat row := by
  obtain ⟨row, rfl, hsense, hdense, hbound⟩ := addRow_eq_ok h
  refine ⟨row, rfl, hsense, ?_, mul?_pow_ten hfactor hbound⟩
  rw [dense_toRat hm hfactor hdense, List.map_map]
  rfl

/-- A row of terms with a weight for `lambda` is the scaled condition. -/
theorem addRow_isScaled {t : Template} {k : Nat} {m m' : Model} (hm : Prepared t k m)
    {terms : Valuation} {weight bound : Decimal} {sense : Sense}
    (h : m.addRow (terms.insert lambdaName weight) sense bound = .ok m') :
    ∃ row, m' = withRows m [row] ∧
      IsScaled k (weight.toRat :: t.coefficients.map (valueOf terms)) sense bound.toRat row := by
  obtain ⟨row, rfl, hrow⟩ := exists_scaledRow hm.indexed hm.factor h
  have hlambda := hm.lambdaName_notMem
  have hentries : m.program.unknowns.map (valueOf (terms.insert lambdaName weight)) =
      weight.toRat :: t.coefficients.map (valueOf terms) := by
    rw [hm.unknowns_eq, List.map_cons, valueOf_insert, if_pos rfl]
    congr 1
    apply List.map_congr_left
    intro name hname
    have hne : lambdaName ≠ name := fun h => hlambda (h ▸ hname)
    rw [valueOf_insert, if_neg hne]
  exact ⟨row, rfl, hentries ▸ hrow⟩

/-- A measurement adds its two rows. -/
theorem addMeasurement_eq_ok {t : Template} {k : Nat} {m m' : Model} (hm : Prepared t k m)
    {x : Measurement} (h : addMeasurement t m x = .ok m') :
    ∃ above below, m' = withRows m [above, below] ∧
      ∀ {data rows}, DeviationRows t k data rows →
        DeviationRows t k (x :: data) (above :: below :: rows) := by
  obtain ⟨terms, hterms, h⟩ := bind_eq_ok.1 h
  obtain ⟨m₁, hm₁, h⟩ := bind_eq_ok.1 h
  obtain ⟨above, rfl, habove⟩ := addRow_isScaled hm hm₁
  obtain ⟨below, rfl, hbelow⟩ := addRow_isScaled (hm.withRows [above]) h
  refine ⟨above, below, by simp [withRows], fun hrest => .cons hterms ?_ ?_ hrest⟩
  · simpa using habove
  · simpa using hbelow

/-- All measurements together add the rows of their deviations. -/
theorem foldlM_addMeasurement {t : Template} {k : Nat} {data : List Measurement} {m m' : Model}
    (hm : Prepared t k m) (h : data.foldlM (addMeasurement t) m = .ok m') :
    ∃ rows, m' = withRows m rows ∧ DeviationRows t k data rows := by
  induction data generalizing m with
  | nil =>
    cases h
    exact ⟨[], by simp [withRows], .nil⟩
  | cons x data ih =>
    obtain ⟨m₁, hm₁, h⟩ := foldlM_cons_eq_ok.1 h
    obtain ⟨above, below, rfl, hcons⟩ := addMeasurement_eq_ok hm hm₁
    obtain ⟨rows, rfl, hrows⟩ := ih (hm.withRows _) h
    exact ⟨above :: below :: rows, by simp [withRows], hcons hrows⟩

/-- The objective gives weight one to `lambda` and none to anything else. -/
theorem valueOf_lambdaAlone (name : String) :
    valueOf Model.lambdaAlone name = if lambdaName = name then 1 else 0 := by
  have hnodup : ([(lambdaName, Decimal.one)].map Prod.fst).Nodup := by simp
  rw [Model.lambdaAlone]
  by_cases h : lambdaName = name
  · subst h
    rw [if_pos rfl, valueOf_eq ((getElem?_ofList_iff hnodup).2 List.mem_cons_self), toRat_one]
  · have habsent : ([(lambdaName, Decimal.one)].map Prod.fst).contains name = false := by
      simpa using Ne.symm h
    rw [if_neg h, valueOf_eq_zero (Std.TreeMap.getElem?_ofList_of_contains_eq_false habsent)]

/-- The model of a fit is the minimax program over its measurements. -/
theorem minimaxProgram_of_model {s : Scenario} {data : List Measurement} {m : Model}
    (h : s.model data = .ok m) :
    MinimaxProgram s.template data s.settings.scenario.lambda s.settings.lp.scaling m.program ∧
      m.precision = s.settings.lp.precision := by
  obtain ⟨start, hstart, h⟩ := bind_eq_ok.1 h
  obtain ⟨hindexed, hfactor, hprecision, hobjective, hunknowns, hintervals, hdirection, hrows⟩ :=
    make_eq_ok hstart
  have hprepared : Prepared s.template s.settings.lp.scaling start := ⟨hindexed, hunknowns, hfactor⟩
  obtain ⟨rows, rfl, hdeviations⟩ := foldlM_addMeasurement hprepared h
  have hprogram : (withRows start rows).program.rows = rows := by simp [withRows, hrows]
  have hone : IsNat Decimal.one (10 ^ 0) := ⟨rfl, rfl, rfl⟩
  have hlambda := hprepared.lambdaName_notMem
  refine ⟨⟨hunknowns, hindexed.nodup, hintervals, hdirection, ?_,
    fun _ _ _ hterms => mem_evaluate_iff hterms, ?_, ?_⟩, hprecision⟩
  · change start.program.objective.map Decimal.toRat = _
    rw [dense_toRat hindexed hone hobjective, hunknowns, List.map_cons, valueOf_lambdaAlone,
      if_pos rfl]
    congr 1
    · norm_num
    · apply List.map_congr_left
      intro name hname
      have hne : lambdaName ≠ name := fun h => hlambda (h ▸ hname)
      rw [valueOf_lambdaAlone, if_neg hne, mul_zero]
  · rw [hprogram, hdeviations.length_eq]
  · rwa [hprogram]

/-- Whenever a fit builds its linear program, that is the minimax program over the measurements, and
an assignment satisfies all its rows exactly when the function deviates by at most `lambda` at every
measurement. -/
theorem model_rows_iff_within_margin (s : Scenario) (data : List Measurement) (m : Model)
    (h : s.model data = .ok m) :
    MinimaxProgram s.template data s.settings.scenario.lambda s.settings.lp.scaling m.program ∧
      ∀ (lambda : ℚ) (a : List ℚ), a.length = s.template.coefficients.length →
        ((∀ row ∈ m.program.rows, RowHolds row (lambda :: a)) ↔
          ∀ x ∈ data, WithinMargin s.template lambda a x) := by
  obtain ⟨hprogram, -⟩ := minimaxProgram_of_model h
  exact ⟨hprogram, fun lambda a _ => hprogram.rows.hold_iff lambda a⟩

def oneVariable : Registry := ⟨["p"], by decide⟩

/-- Lines over one variable, with rows multiplied by a thousand. -/
def lineScenario : Scenario where
  settings := { lp := { scaling := 3 } }
  parameters := []
  template := .polynomial { registry := oneVariable, maxDegree := 1 }
  plan := ⟨0, 0, 0⟩

/-- Measurements of 28 digits, whose scaled mantissas are too long for a decimal. -/
def longMeasurements : List Measurement :=
  [(⟨[("p", ⟨false, 3333333333333333333333333333, 26, by decide, by decide⟩)]⟩,
      ⟨true, 7777777777777777777777777777, 26, by decide, by decide⟩),
    (⟨[("p", ⟨false, 6666666666666666666666666667, 26, by decide, by decide⟩)]⟩,
      ⟨false, 1234567890123456789012345678, 26, by decide, by decide⟩)]

theorem longMeasurements_rows : ∃ m, lineScenario.model longMeasurements = .ok m ∧
    MinimaxProgram lineScenario.template longMeasurements none 3 m.program ∧
      ∀ (lambda : ℚ) (a : List ℚ), a.length = lineScenario.template.coefficients.length →
        ((∀ row ∈ m.program.rows, RowHolds row (lambda :: a)) ↔
          ∀ x ∈ longMeasurements, WithinMargin lineScenario.template lambda a x) := by
  obtain ⟨m, hm⟩ := exists_eq_ok (x := lineScenario.model longMeasurements) (by decide +kernel)
  exact ⟨m, hm, model_rows_iff_within_margin lineScenario longMeasurements m hm⟩

end MarkovFit.Proofs
