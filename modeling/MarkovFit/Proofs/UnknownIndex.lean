import MarkovFit.LinearProgram.Model
import MarkovFit.Proofs.FailureKinds
import MarkovFit.Proofs.Maps
import Mathlib.Data.List.Nodup

/-!
# Positions of unknowns

A model finds the place of a value by an index of names. Every unknown that is registered goes behind
the others, into the list of unknowns, the list of intervals and the index alike, so that the index
holds the position of each unknown and nothing else. Values that are written one after another, in
whatever order their names have, then stand in the order of the unknowns.
-/

namespace MarkovFit.Proofs

/-- The index holds the position of every unknown and nothing else, and every unknown has an
interval. -/
structure Indexed (m : Model) : Prop where
  position_iff : ∀ (name : String) (i : ℕ), m.index[name]? = some i ↔ m.program.unknowns[i]? = some name
  intervals_length : m.program.intervals.length = m.program.unknowns.length

variable {m m' : Model} {name : String} {interval : Interval}

namespace Indexed

/-- A name has one position. -/
theorem nodup (h : Indexed m) : m.program.unknowns.Nodup := by
  rw [List.nodup_iff_getElem?_ne_getElem?]
  intro i j hij hj heq
  have hname := List.getElem?_eq_getElem hj
  have hj := (h.position_iff _ j).2 hname
  have hi := (h.position_iff _ i).2 (heq.trans hname)
  rw [hi] at hj
  exact absurd (Option.some.inj hj) (Nat.ne_of_lt hij)

theorem mem_iff (h : Indexed m) : name ∈ m.index ↔ name ∈ m.program.unknowns := by
  rw [mem_iff_exists_getElem?, List.mem_iff_getElem?]
  exact exists_congr fun i => h.position_iff name i

end Indexed

/-! ### Registering -/

/-- A model with more unknowns, behind the others, and their intervals. -/
structure Registers (m : Model) (added : List (String × Interval)) (m' : Model) : Prop where
  program_eq : m'.program =
    { m.program with
      unknowns := m.program.unknowns ++ added.map Prod.fst
      intervals := m.program.intervals ++ added.map Prod.snd }
  factor_eq : m'.factor = m.factor
  precision_eq : m'.precision = m.precision

theorem Registers.refl (m : Model) : Registers m [] m := ⟨by simp, rfl, rfl⟩

theorem Registers.trans {m₁ m₂ m₃ : Model} {added added' : List (String × Interval)}
    (h : Registers m₁ added m₂) (h' : Registers m₂ added' m₃) :
    Registers m₁ (added ++ added') m₃ where
  program_eq := by
    rw [h'.program_eq, h.program_eq]
    simp only [List.map_append, List.append_assoc]
  factor_eq := h'.factor_eq.trans h.factor_eq
  precision_eq := h'.precision_eq.trans h.precision_eq

/-- A list that is one longer has the new element at its end. -/
lemma getElem?_concat_eq_some_iff {α : Type} {xs : List α} {x y : α} {i : ℕ} :
    (xs ++ [x])[i]? = some y ↔ xs[i]? = some y ∨ i = xs.length ∧ x = y := by
  obtain hlt | rfl | hgt := Nat.lt_trichotomy i xs.length
  · rw [List.getElem?_append_left hlt]
    simp [Nat.ne_of_lt hlt]
  · simp
  · rw [List.getElem?_append_right (Nat.le_of_lt hgt), List.getElem?_eq_none (Nat.le_of_lt hgt),
      List.getElem?_eq_none (by simp; omega)]
    simp [Nat.ne_of_gt hgt]

/-- A new name gets the position behind all others. -/
theorem Indexed.push (h : Indexed m) (hpush : m.push name interval = .ok m') :
    name ∉ m.program.unknowns ∧ Indexed m' ∧ Registers m [(name, interval)] m' := by
  unfold Model.push at hpush
  split at hpush
  · cases hpush
  · rename_i hnew
    have hnew : name ∉ m.program.unknowns := mt h.mem_iff.2 (mt Std.TreeMap.contains_iff_mem.2 hnew)
    cases hpush
    refine ⟨hnew, ⟨fun other i => ?_, ?_⟩, ⟨rfl, rfl, rfl⟩⟩
    · change (m.index.insert name m.program.unknowns.length)[other]? = some i ↔
        (m.program.unknowns ++ [name])[i]? = some other
      rw [Std.TreeMap.getElem?_insert, getElem?_concat_eq_some_iff]
      simp only [Std.LawfulEqCmp.compare_eq_iff_eq]
      split
      · rename_i hother
        subst hother
        have habsent : m.program.unknowns[i]? ≠ some name :=
          fun hi => hnew (List.mem_iff_getElem?.2 ⟨i, hi⟩)
        simp [habsent, eq_comm]
      · rename_i hother
        simp [hother, h.position_iff]
    · change (m.program.intervals ++ [interval]).length = (m.program.unknowns ++ [name]).length
      rw [List.length_append, List.length_append, h.intervals_length]
      rfl

/-- A name that is no unknown yet can be registered. -/
theorem Indexed.exists_push (h : Indexed m) (hnew : name ∉ m.program.unknowns) :
    ∃ m', m.push name interval = .ok m' :=
  ⟨_, if_neg (mt Std.TreeMap.contains_iff_mem.1 (mt h.mem_iff.1 hnew))⟩

/-- Unknowns that are registered one after another. -/
abbrev pushAll (m : Model) (added : List (String × Interval)) : Except Failure Model :=
  added.foldlM (fun m x => m.push x.1 x.2) m

theorem Indexed.pushAll {added : List (String × Interval)} (h : Indexed m)
    (hadded : pushAll m added = .ok m') : Indexed m' ∧ Registers m added m' := by
  induction added generalizing m with
  | nil =>
    cases hadded
    exact ⟨h, .refl _⟩
  | cons x added ih =>
    obtain ⟨m₁, hfirst, hadded⟩ := foldlM_cons_eq_ok.1 hadded
    obtain ⟨-, h₁, hregisters⟩ := h.push hfirst
    obtain ⟨hindexed, hrest⟩ := ih h₁ hadded
    exact ⟨hindexed, hregisters.trans hrest⟩

/-- Registering succeeds exactly if no name occurs twice. -/
theorem Indexed.exists_pushAll_iff {added : List (String × Interval)} (h : Indexed m) :
    (∃ m', Proofs.pushAll m added = .ok m') ↔
      (m.program.unknowns ++ added.map Prod.fst).Nodup := by
  constructor
  · rintro ⟨m', hadded⟩
    obtain ⟨hindexed, hregisters⟩ := h.pushAll hadded
    have hnodup := hindexed.nodup
    rwa [hregisters.program_eq] at hnodup
  · intro hnodup
    induction added generalizing m with
    | nil => exact ⟨_, rfl⟩
    | cons x added ih =>
      have hnew : x.1 ∉ m.program.unknowns := by
        intro hmem
        exact (List.nodup_append.1 hnodup).2.2 _ hmem _ List.mem_cons_self rfl
      have hfirst : ∃ m₁, m.push x.1 x.2 = .ok m₁ := h.exists_push hnew
      obtain ⟨m₁, hfirst⟩ := hfirst
      obtain ⟨-, h₁, hregisters⟩ := h.push hfirst
      obtain ⟨m', hrest⟩ := ih h₁ (by
        rw [hregisters.program_eq]
        simpa using hnodup)
      exact ⟨m', foldlM_cons_eq_ok.2 ⟨m₁, hfirst, hrest⟩⟩

/-- The unknowns of a model and their intervals. -/
def unknownsOf (bound : Option Decimal) (coefficients : List String) : List (String × Interval) :=
  (lambdaName, ⟨some Decimal.zero, bound⟩) :: coefficients.map fun name => (name, {})

lemma map_fst_unknownsOf (bound : Option Decimal) (coefficients : List String) :
    (unknownsOf bound coefficients).map Prod.fst = lambdaName :: coefficients := by
  simp [unknownsOf, Function.comp_def]

lemma map_snd_unknownsOf (bound : Option Decimal) (coefficients : List String) :
    (unknownsOf bound coefficients).map Prod.snd =
      ⟨some Decimal.zero, bound⟩ :: coefficients.map fun _ => {} := by
  simp [unknownsOf, Function.comp_def]

theorem setUnknowns_eq (m : Model) (bound : Option Decimal) (coefficients : List String) :
    m.setUnknowns bound coefficients = pushAll m (unknownsOf bound coefficients) := by
  rw [pushAll, unknownsOf, List.foldlM_cons, Model.setUnknowns]
  refine bind_congr fun m₁ => ?_
  rw [List.foldlM_map]

/-- A model without unknowns has nothing in its index. -/
theorem indexed_of_empty {scaling : ℕ} {precision : Decimal}
    (h : Model.empty scaling precision = .ok m) :
    Indexed m ∧ Model.scalingFactor scaling = .ok m.factor ∧ m.precision = precision ∧
      m.program = ⟨[], [], .min, [], []⟩ := by
  obtain ⟨factor, hfactor, h⟩ := bind_eq_ok.1 h
  cases h
  refine ⟨⟨fun name i => ?_, rfl⟩, hfactor, rfl, rfl⟩
  rw [Std.TreeMap.getElem?_emptyc]
  simp

section

variable {start : Model} {scaling : ℕ} {precision : Decimal} {bound : Option Decimal}
  {coefficients : List String}

/-- The unknowns of a model are `lambda` and the coefficients, in this order and each once. -/
theorem exists_setUnknowns_iff (hstart : Model.empty scaling precision = .ok start) :
    (∃ m, start.setUnknowns bound coefficients = .ok m) ↔ (lambdaName :: coefficients).Nodup := by
  obtain ⟨hempty, -, -, hprogram⟩ := indexed_of_empty hstart
  rw [setUnknowns_eq, hempty.exists_pushAll_iff, hprogram, map_fst_unknownsOf, List.nil_append]

theorem setUnknowns_eq_ok (hstart : Model.empty scaling precision = .ok start)
    (h : start.setUnknowns bound coefficients = .ok m) :
    Indexed m ∧ Model.scalingFactor scaling = .ok m.factor ∧ m.precision = precision ∧
      m.program = ⟨lambdaName :: coefficients,
        ⟨some Decimal.zero, bound⟩ :: coefficients.map (fun _ => {}), .min, [], []⟩ := by
  obtain ⟨hempty, hfactor, hprecision, hprogram⟩ := indexed_of_empty hstart
  rw [setUnknowns_eq] at h
  obtain ⟨hindexed, hregisters⟩ := hempty.pushAll h
  refine ⟨hindexed, hregisters.factor_eq ▸ hfactor, hregisters.precision_eq.trans hprecision, ?_⟩
  rw [hregisters.program_eq, hprogram, map_fst_unknownsOf, map_snd_unknownsOf]
  rfl

end

/-! ### Writing -/

/-- What writing a value does: it replaces the entry at the position of its name. -/
theorem Indexed.writeEntry_eq_ok (h : Indexed m) {factor : Decimal} {entries entries' : List Decimal}
    {x : String × Decimal} (hwrite : m.writeEntry factor entries x = .ok entries') :
    ∃ i product, m.program.unknowns[i]? = some x.1 ∧ x.2.mul? factor = some product ∧
      i < entries.length ∧ entries' = entries.set i product := by
  obtain ⟨name, value⟩ := x
  rw [Model.writeEntry] at hwrite
  cases hposition : m.index[name]? with
  | none =>
    rw [hposition] at hwrite
    cases hwrite
  | some i =>
    rw [hposition] at hwrite
    cases hproduct : value.mul? factor with
    | none =>
      simp only [hproduct] at hwrite
      cases hwrite
    | some product =>
      simp only [hproduct] at hwrite
      split at hwrite
      · cases hwrite
        exact ⟨i, product, (h.position_iff name i).1 hposition, rfl, ‹_›, rfl⟩
      · cases hwrite

/-- Why a value cannot be written: its name is no unknown, or it leaves the range. -/
def Unwritable (m : Model) (factor : Decimal) (x : String × Decimal) (e : Failure) : Prop :=
  x.1 ∉ m.program.unknowns ∧ e = .invalidInput (.noSuchUnknown x.1) ∨
    x.2.mul? factor = none ∧ e = .arithmetic (.scalingOverflow x.2)

/-- No position lies beyond the entries. -/
theorem Indexed.failsOnly_writeEntry (h : Indexed m) {factor : Decimal} {entries : List Decimal}
    (hlength : entries.length = m.program.unknowns.length) (x : String × Decimal) :
    FailsOnly (Unwritable m factor x) (m.writeEntry factor entries x) := by
  obtain ⟨name, value⟩ := x
  rw [Model.writeEntry]
  cases hposition : m.index[name]? with
  | none =>
    refine failsOnly_error (.inl ⟨fun hmem => ?_, rfl⟩)
    obtain ⟨i, hi⟩ := mem_iff_exists_getElem?.1 (h.mem_iff.2 hmem)
    rw [hposition] at hi
    cases hi
  | some i =>
    have hname := (h.position_iff name i).1 hposition
    have hi : i < entries.length := by
      rw [hlength]
      exact (List.getElem?_eq_some_iff.1 hname).1
    cases hproduct : value.mul? factor with
    | none => exact failsOnly_error (.inr ⟨hproduct, rfl⟩)
    | some product =>
      simp only [if_pos hi]
      exact failsOnly_ok _

/-- What is written for several names: each has its own position, so that no value is overwritten. -/
theorem Indexed.foldlM_writeEntry (h : Indexed m) {factor : Decimal} {xs : List (String × Decimal)}
    (hnames : (xs.map Prod.fst).Nodup) {entries entries' : List Decimal}
    (hwrites : xs.foldlM (m.writeEntry factor) entries = .ok entries') :
    entries'.length = entries.length ∧ (∀ x ∈ xs, x.1 ∈ m.program.unknowns) ∧
      ∀ (name : String) (i : ℕ), m.program.unknowns[i]? = some name →
        (∀ value, (name, value) ∈ xs →
          ∃ product, value.mul? factor = some product ∧ entries'[i]? = some product) ∧
        (name ∉ xs.map Prod.fst → entries'[i]? = entries[i]?) := by
  induction xs generalizing entries with
  | nil =>
    cases hwrites
    exact ⟨rfl, fun _ hx => absurd hx List.not_mem_nil, fun name i _ =>
      ⟨fun _ hx => absurd hx List.not_mem_nil, fun _ => rfl⟩⟩
  | cons x xs ih =>
    obtain ⟨middle, hwrite, hwrites⟩ := foldlM_cons_eq_ok.1 hwrites
    obtain ⟨hnew, hnames⟩ := List.nodup_cons.1 hnames
    obtain ⟨i₀, product, hposition, hproduct, hlt, rfl⟩ := h.writeEntry_eq_ok hwrite
    obtain ⟨hlength, hmem, hentries⟩ := ih hnames hwrites
    rw [List.length_set] at hlength
    refine ⟨hlength, ?_, fun name i hname => ⟨fun value hvalue => ?_, fun habsent => ?_⟩⟩
    · exact List.forall_mem_cons.2 ⟨List.mem_iff_getElem?.2 ⟨i₀, hposition⟩, hmem⟩
    · obtain rfl | hvalue := List.mem_cons.1 hvalue
      · have hi : i₀ = i := by
          have hindex := (h.position_iff name i₀).2 hposition
          rw [(h.position_iff name i).2 hname] at hindex
          exact (Option.some.inj hindex).symm
        subst hi
        refine ⟨product, hproduct, ?_⟩
        rw [(hentries name i₀ hname).2 hnew, List.getElem?_set_self hlt]
      · exact (hentries name i hname).1 value hvalue
    · rw [List.map_cons, List.mem_cons, not_or] at habsent
      have hi : i₀ ≠ i := by
        rintro rfl
        exact habsent.1 (Option.some.inj (hname.symm.trans hposition))
      rw [(hentries name i hname).2 habsent.2, List.getElem?_set_ne hi]

end MarkovFit.Proofs
