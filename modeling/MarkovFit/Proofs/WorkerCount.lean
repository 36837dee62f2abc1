import MarkovFit.Proofs.RangeMerge

/-!
# Pools of different sizes

A worker that goes through its samples keeps the first one with an extreme answer, while a merge of
workers keeps, of equal answers, the one whose constants sort first. Both are least elements, by
value and place and by value and witness. So the number of workers does not show in the answers and
in the values of the range, and it does not show in the witnesses either exactly if the first sample
with an extreme answer is the one whose constants sort first.
-/

namespace MarkovFit.Proofs

/-! ### Scanning in order -/

section

variable {κ : Type} [LinearOrder κ] {key : Answer → κ} {P Q : Nat → Answer → List Constant → Prop}

/-- The first of the observations whose value has the least rank. -/
def Earliest (key : Answer → κ) (b : Bound) (P : Nat → Answer → List Constant → Prop) : Prop :=
  ∃ i, P i b.value b.witness ∧
    ∀ j v w, P j v w → toLex (key b.value, i) ≤ toLex (key v, j)

theorem Earliest.key_le {b : Bound} (h : Earliest key b P) {j : Nat} {v : Answer}
    {w : List Constant} (hv : P j v w) : key b.value ≤ key v := by
  obtain ⟨i, -, hle⟩ := h
  exact (Prod.Lex.toLex_le_toLex'.1 (hle j v w hv)).1

theorem Earliest.congr {b : Bound} (h : Earliest key b P) (hiff : ∀ i v w, P i v w ↔ Q i v w) :
    Earliest key b Q := by
  obtain ⟨i, hi, hle⟩ := h
  exact ⟨i, (hiff _ _ _).1 hi, fun j v w hv => hle j v w ((hiff _ _ _).2 hv)⟩

/-- Two bounds that come first are one, if every place has one observation. -/
theorem Earliest.unique {b b' : Bound} (h : Earliest key b P) (h' : Earliest key b' P)
    (hfun : ∀ i v w v' w', P i v w → P i v' w' → v = v' ∧ w = w') : b = b' := by
  obtain ⟨i, hi, hle⟩ := h
  obtain ⟨i', hi', hle'⟩ := h'
  have heq := le_antisymm (hle _ _ _ hi') (hle' _ _ _ hi)
  rw [EmbeddingLike.apply_eq_iff_eq, Prod.mk.injEq] at heq
  obtain ⟨-, rfl⟩ := heq
  obtain ⟨hvalue, hwitness⟩ := hfun _ _ _ _ _ hi hi'
  cases b
  cases b'
  simp_all

/-- A later observation takes the place of the first one only if its rank is less. -/
theorem Earliest.observe {b : Bound} (h : Earliest key b P) {i : Nat}
    (hlater : ∀ j v w, P j v w → j < i) (v : Answer) (w : List Constant) :
    Earliest key (if key v < key b.value then ⟨v, w⟩ else b)
      fun j v' w' => P j v' w' ∨ j = i ∧ v' = v ∧ w' = w := by
  obtain ⟨i₀, hi₀, hle⟩ := h
  by_cases hlt : key v < key b.value
  · rw [if_pos hlt]
    refine ⟨i, .inr ⟨rfl, rfl, rfl⟩, ?_⟩
    rintro j v' w' (hv' | ⟨rfl, rfl, rfl⟩)
    · have hb := (Prod.Lex.toLex_le_toLex'.1 (hle j v' w' hv')).1
      exact (Prod.Lex.toLex_lt_toLex.2 (.inl (hlt.trans_le hb))).le
    · exact le_refl _
  · rw [if_neg hlt]
    refine ⟨i₀, .inl hi₀, ?_⟩
    rintro j v' w' (hv' | ⟨rfl, rfl, rfl⟩)
    · exact hle j v' w' hv'
    · exact Prod.Lex.toLex_le_toLex'.2 ⟨not_lt.1 hlt, fun _ => (hlater _ _ _ hi₀).le⟩

end

/-- Both ends of a range come first among the observations. -/
structure EarliestEnds (r : Range) (P : Nat → Answer → List Constant → Prop) : Prop where
  lower : Earliest answerValue r.lower P
  upper : Earliest dualValue r.upper P

theorem EarliestEnds.congr {r : Range} {P Q : Nat → Answer → List Constant → Prop}
    (h : EarliestEnds r P) (hiff : ∀ i v w, P i v w ↔ Q i v w) : EarliestEnds r Q :=
  ⟨h.lower.congr hiff, h.upper.congr hiff⟩

theorem earliestEnds_single (i : Nat) (v : Answer) (w : List Constant) :
    EarliestEnds (Range.single v w) fun j v' w' => j = i ∧ v' = v ∧ w' = w := by
  have hfirst : ∀ {κ : Type} [LinearOrder κ] (key : Answer → κ),
      Earliest key ⟨v, w⟩ fun j v' w' => j = i ∧ v' = v ∧ w' = w := by
    intro κ _ key
    refine ⟨i, ⟨rfl, rfl, rfl⟩, ?_⟩
    rintro j v' w' ⟨rfl, rfl, rfl⟩
    exact le_refl _
  exact ⟨hfirst _, hfirst _⟩

theorem EarliestEnds.observe {r : Range} {P : Nat → Answer → List Constant → Prop}
    (h : EarliestEnds r P) {i : Nat} (hlater : ∀ j v w, P j v w → j < i) (v : Answer)
    (w : List Constant) :
    EarliestEnds (r.observe v w) fun j v' w' => P j v' w' ∨ j = i ∧ v' = v ∧ w' = w where
  lower := by
    have hlower := h.lower.observe hlater v w
    simp only [← answer_lt_iff] at hlower
    exact hlower
  upper := by
    have hupper := h.upper.observe hlater v w
    simp only [dualValue, OrderDual.toDual_lt_toDual, ← answer_lt_iff] at hupper
    exact hupper

/-- The same for a range that is only there if something was observed. -/
def EarliestIfAny (r : Option Range) (P : Nat → Answer → List Constant → Prop) : Prop :=
  match r with
  | none => ∀ i v w, ¬P i v w
  | some r => EarliestEnds r P

theorem EarliestIfAny.congr {r : Option Range} {P Q : Nat → Answer → List Constant → Prop}
    (h : EarliestIfAny r P) (hiff : ∀ i v w, P i v w ↔ Q i v w) : EarliestIfAny r Q := by
  cases r with
  | none => exact fun i v w hv => h i v w ((hiff i v w).2 hv)
  | some r => exact EarliestEnds.congr h hiff

theorem EarliestIfAny.observe {r : Option Range} {P : Nat → Answer → List Constant → Prop}
    (h : EarliestIfAny r P) {i : Nat} (hlater : ∀ j v w, P j v w → j < i) (v : Answer)
    (w : List Constant) :
    EarliestEnds (Pool.observe r v w) fun j v' w' => P j v' w' ∨ j = i ∧ v' = v ∧ w' = w := by
  cases r with
  | none =>
    refine (earliestEnds_single i v w).congr ?_
    intro j v' w'
    rw [or_iff_right (h j v' w')]
  | some r => exact EarliestEnds.observe h hlater v w

/-- Going through answers in the order of their requests keeps the first extreme ones. -/
theorem earliestIfAny_observeAll {requests : Requests} {r r' : Option Range}
    {answers : List (Nat × Answer)} {P : Nat → Answer → List Constant → Prop}
    (hr : EarliestIfAny r P) (hlater : ∀ x ∈ answers, ∀ j v w, P j v w → j < x.1)
    (hsorted : answers.Pairwise fun x y => x.1 < y.1)
    (h : Pool.observeAll requests r answers = .ok r') :
    EarliestIfAny r' fun i v w => P i v w ∨ (i, v) ∈ answers ∧ requests[i]? = some w := by
  induction answers generalizing r P with
  | nil =>
    cases h
    simpa using hr
  | cons x answers ih =>
    obtain ⟨i, v⟩ := x
    rw [Pool.observeAll] at h
    cases hi : requests[i]? with
    | none =>
      rw [hi] at h
      cases h
    | some w =>
      rw [hi] at h
      obtain ⟨hbefore, hsorted⟩ := List.pairwise_cons.1 hsorted
      have hlater' : ∀ y ∈ answers, ∀ j v' w', P j v' w' ∨ j = i ∧ v' = v ∧ w' = w → j < y.1 := by
        rintro y hy j v' w' (hP | ⟨rfl, -, -⟩)
        · exact hlater y (List.mem_cons_of_mem _ hy) j v' w' hP
        · exact hbefore y hy
      have hwider := hr.observe (hlater _ List.mem_cons_self) v w
      refine (ih (r := some _) hwider hlater' hsorted h).congr ?_
      intro j v' w'
      rw [or_assoc, List.mem_cons, Prod.mk.injEq]
      refine or_congr_right ⟨?_, ?_⟩
      · rintro (⟨rfl, rfl, rfl⟩ | ⟨hmem, hw'⟩)
        · exact ⟨.inl ⟨rfl, rfl⟩, hi⟩
        · exact ⟨.inr hmem, hw'⟩
      · rintro ⟨⟨rfl, rfl⟩ | hmem, hw'⟩
        · rw [hi, Option.some_inj] at hw'
          exact .inl ⟨rfl, rfl, hw'.symm⟩
        · exact .inr ⟨hmem, hw'⟩

/-! ### Oracles that answer by the constants -/

/-- The oracle answers each request by a function of its constants. -/
def AnswersBy (f : List Constant → Answer) (worker : BatchOracle Id) : Prop :=
  ∀ requests, ∃ answers, worker.check requests = .ok answers ∧
    ∀ i : Nat, answers[i]? = requests[i]?.map f

/-- The answer at a sample, with the constants of the sample. -/
def Observed (f : List Constant → Answer) (samples : List Sample) (i : Nat) (v : Answer)
    (w : List Constant) : Prop :=
  ∃ sample, samples[i]? = some sample ∧ w = sample.toConstants ∧ v = f w

section

variable {f : List Constant → Answer} {pool : Pool Id} {samples : List Sample}

theorem Observed.unique {i : Nat} {v v' : Answer} {w w' : List Constant}
    (h : Observed f samples i v w) (h' : Observed f samples i v' w') : v = v' ∧ w = w' := by
  obtain ⟨sample, hsample, rfl, rfl⟩ := h
  obtain ⟨sample', hsample', rfl, rfl⟩ := h'
  rw [hsample, Option.some_inj] at hsample'
  subst hsample'
  exact ⟨rfl, rfl⟩

theorem Contributed.getElem?_eq {w : Nat} {c : Contribution} (h : Contributed pool samples w c)
    (hf : ∀ worker ∈ pool.workers, AnswersBy f worker) (i : Nat) :
    c.answers[i]? = (Pool.bucket pool.size w samples)[i]?.map f := by
  obtain ⟨worker, hworker, hcheck⟩ := h.check_eq
  obtain ⟨answers, hanswers, hby⟩ := hf worker (List.mem_of_getElem? hworker)
    (Pool.bucket pool.size w samples)
  rw [hcheck, Except.ok.injEq] at hanswers
  rw [hanswers, hby]

theorem Contributed.earliestEnds {w : Nat} {c : Contribution} (h : Contributed pool samples w c)
    (hf : ∀ worker ∈ pool.workers, AnswersBy f worker) :
    ∃ r, c.range = some r ∧
      EarliestEnds r fun i v witness => Observed f samples i v witness ∧ i % pool.size = w := by
  have hlookup := h.getElem?_eq hf
  have hobserved : ∀ i v witness, ((i, v) ∈ c.answers.toList ∧
      (Pool.bucket pool.size w samples)[i]? = some witness) ↔
      Observed f samples i v witness ∧ i % pool.size = w := by
    intro i v witness
    rw [Std.TreeMap.mem_toList_iff_getElem?_eq_some, hlookup]
    constructor
    · rintro ⟨hv, hwitness⟩
      obtain ⟨hi, sample, hsample, rfl⟩ := getElem?_bucket.1 hwitness
      rw [hwitness, Option.map_some, Option.some_inj] at hv
      exact ⟨⟨sample, hsample, rfl, hv.symm⟩, hi⟩
    · rintro ⟨⟨sample, hsample, rfl, rfl⟩, hi⟩
      have hwitness := getElem?_bucket.2 ⟨hi, sample, hsample, rfl⟩
      exact ⟨by rw [hwitness, Option.map_some], hwitness⟩
  have hsorted : c.answers.toList.Pairwise fun x y => x.1 < y.1 := by
    refine Std.TreeMap.ordered_keys_toList.imp ?_
    intro x y hxy
    exact Nat.compare_eq_lt.1 hxy
  have hnone : EarliestIfAny none fun _ _ _ => False := fun _ _ _ h => h
  have hnothing : ∀ x ∈ c.answers.toList, ∀ (j : Nat) (_ : Answer) (_ : List Constant),
      False → j < x.1 := fun _ _ _ _ _ h => h.elim
  have hends := earliestIfAny_observeAll hnone hnothing hsorted h.observe_eq
  replace hends : EarliestIfAny c.range fun i v witness =>
      Observed f samples i v witness ∧ i % pool.size = w := by
    refine hends.congr ?_
    intro i v witness
    rw [false_or, hobserved]
  cases hrange : c.range with
  | some r => exact ⟨r, rfl, by rwa [hrange] at hends⟩
  | none =>
    obtain ⟨i, hi⟩ := Std.TreeMap.isEmpty_eq_false_iff_exists_mem.1 h.busy
    obtain ⟨hlt, hi⟩ := mem_bucket.1 hi
    rw [hrange] at hends
    exact absurd ⟨⟨samples[i], List.getElem?_eq_getElem hlt, rfl, rfl⟩, hi⟩ (hends i _ _)

/-! ### Ends of a merge -/

/-- What a merge of `count` workers keeps at one end: the first extreme answer of one worker, and of
those of all workers the least by rank and witness. -/
structure MergedEnd {κ : Type} [LinearOrder κ] (key : Answer → κ) (f : List Constant → Answer)
    (samples : List Sample) (count : Nat) (b : Bound) : Prop where
  earliest : ∃ w, Earliest key b fun j v witness => Observed f samples j v witness ∧ j % count = w
  le : ∀ i < samples.length, ∃ b',
    (Earliest key b' fun j v witness => Observed f samples j v witness ∧ j % count = i % count) ∧
    endKey key b ≤ endKey key b'

theorem exists_end_eq_of_mergeAll (side : Range → Bound)
    (hside : ∀ a b, side (a.merge b) = side a ∨ side (a.merge b) = side b) {rs : List Range}
    {r : Range} (h : Range.mergeAll rs = some r) : ∃ r' ∈ rs, side r = side r' := by
  cases rs with
  | nil => cases h
  | cons r₀ rs =>
    rw [Range.mergeAll, Option.some_inj] at h
    subst h
    induction rs generalizing r₀ with
    | nil => exact ⟨r₀, List.mem_cons_self, rfl⟩
    | cons r₁ rs ih =>
      obtain ⟨r', hmem, heq⟩ := ih (r₀.merge r₁)
      rw [List.foldl_cons]
      obtain rfl | hmem := List.mem_cons.1 hmem
      · obtain h₀ | h₁ := hside r₀ r₁
        · exact ⟨r₀, List.mem_cons_self, heq.trans h₀⟩
        · exact ⟨r₁, List.mem_cons_of_mem _ List.mem_cons_self, heq.trans h₁⟩
      · exact ⟨r', List.mem_cons_of_mem _ (List.mem_cons_of_mem _ hmem), heq⟩

theorem endKeys_le_of_mergeAll {rs : List Range} {r r' : Range} (h : Range.mergeAll rs = some r)
    (hmem : r' ∈ rs) : endKey answerValue r.lower ≤ endKey answerValue r'.lower ∧
      endKey dualValue r.upper ≤ endKey dualValue r'.upper := by
  have hinf := mergedKey_mergeAll rs
  rw [h] at hinf
  have hle : mergedKey (some r) ≤ mergedKey (some r') := by
    rw [hinf]
    exact Multiset.inf_le (Multiset.mem_map_of_mem _ hmem)
  exact Prod.mk_le_mk.1 (WithTop.coe_le_coe.1 hle)

theorem AnswersBy.answersBucket {worker : BatchOracle Id} (h : AnswersBy f worker) (w : Nat) :
    AnswersBucket pool samples w worker := by
  obtain ⟨answers, hcheck, hlookup⟩ := h (Pool.bucket pool.size w samples)
  refine ⟨answers, hcheck, ?_⟩
  intro i
  rw [← mem_bucket, Std.TreeMap.mem_iff_isSome_getElem?, Std.TreeMap.mem_iff_isSome_getElem?,
    hlookup, Option.isSome_map]

theorem exists_range_of_sample (hf : ∀ worker ∈ pool.workers, AnswersBy f worker) {i : Nat}
    (hi : i < samples.length) : ∃ c r, Contributed pool samples (i % pool.size) c ∧
      c.range = some r ∧
      EarliestEnds r fun j v witness => Observed f samples j v witness ∧
        j % pool.size = i % pool.size := by
  obtain ⟨worker, hworker, hbusy⟩ := exists_busy_worker pool hi
  have hbucket : AnswersBucket pool samples (i % pool.size) worker :=
    (hf worker (List.mem_of_getElem? hworker)).answersBucket _
  obtain ⟨c, hc, -⟩ := hbucket.contributed hworker hbusy
  obtain ⟨r, hr, hends⟩ := hc.earliestEnds hf
  exact ⟨c, r, hc, hr, hends⟩

theorem AllContributions.getElem?_mergedAnswers {cs : List Contribution}
    (h : AllContributions pool samples cs) (hf : ∀ worker ∈ pool.workers, AnswersBy f worker)
    (i : Nat) : (mergedAnswers cs)[i]? = samples[i]?.map fun sample => f sample.toConstants := by
  by_cases hi : i < samples.length
  · obtain ⟨c, r, hc, -, -⟩ := exists_range_of_sample hf hi
    have hbucket : (Pool.bucket pool.size (i % pool.size) samples)[i]? =
        some samples[i].toConstants :=
      getElem?_bucket.2 ⟨rfl, samples[i], List.getElem?_eq_getElem hi, rfl⟩
    have hlookup := hc.getElem?_eq hf i
    rw [hbucket, Option.map_some] at hlookup
    have hmem : i ∈ c.answers := mem_iff_exists_getElem?.2 ⟨_, hlookup⟩
    rw [h.getElem?_eq hc hmem, hlookup, List.getElem?_eq_getElem hi, Option.map_some]
  · have hnone : (mergedAnswers cs)[i]? = none := by
      rw [Std.TreeMap.getElem?_eq_none]
      exact fun hmem => hi (h.lt_length hmem)
    rw [hnone, List.getElem?_eq_none (not_lt.1 hi), Option.map_none]

theorem AllContributions.eq_nil {cs : List Contribution} (h : AllContributions pool [] cs) :
    cs = [] := by
  rw [List.eq_nil_iff_forall_not_mem]
  intro c hc
  obtain ⟨w, hw⟩ := (h c).1 hc
  obtain ⟨i, hi⟩ := Std.TreeMap.isEmpty_eq_false_iff_exists_mem.1 hw.busy
  exact absurd (mem_bucket.1 hi).1 (Nat.not_lt_zero i)

theorem AllContributions.mergedEnds {cs : List Contribution}
    (h : AllContributions pool samples cs) (hf : ∀ worker ∈ pool.workers, AnswersBy f worker)
    (hne : samples ≠ []) : ∃ r, Range.mergeAll (cs.filterMap (·.range)) = some r ∧
      MergedEnd answerValue f samples pool.size r.lower ∧
      MergedEnd dualValue f samples pool.size r.upper := by
  have hranges : ∀ r ∈ cs.filterMap (·.range), ∃ w, EarliestEnds r fun j v witness =>
      Observed f samples j v witness ∧ j % pool.size = w := by
    intro r hr
    obtain ⟨c, hc, hrange⟩ := List.mem_filterMap.1 hr
    obtain ⟨w, hw⟩ := (h c).1 hc
    obtain ⟨r', hr', hends⟩ := hw.earliestEnds hf
    obtain rfl := Option.some.inj (hrange.symm.trans hr')
    exact ⟨w, hends⟩
  have hsample : ∀ i < samples.length, ∃ r ∈ cs.filterMap (·.range),
      EarliestEnds r fun j v witness => Observed f samples j v witness ∧
        j % pool.size = i % pool.size := by
    intro i hi
    obtain ⟨c, r, hc, hr, hends⟩ := exists_range_of_sample hf hi
    exact ⟨r, List.mem_filterMap.2 ⟨c, (h c).2 ⟨_, hc⟩, hr⟩, hends⟩
  cases hmerged : Range.mergeAll (cs.filterMap (·.range)) with
  | none =>
    obtain ⟨r, hr, -⟩ := hsample 0 (List.length_pos_iff.2 hne)
    cases hrs : cs.filterMap (·.range) with
    | nil => simp [hrs] at hr
    | cons r' rs => simp [hrs, Range.mergeAll] at hmerged
  | some r =>
    obtain ⟨r₁, hr₁, hlower⟩ := exists_end_eq_of_mergeAll Range.lower
      (fun a b => pick_eq_or _ _ _) hmerged
    obtain ⟨r₂, hr₂, hupper⟩ := exists_end_eq_of_mergeAll Range.upper
      (fun a b => pick_eq_or _ _ _) hmerged
    obtain ⟨w₁, hends₁⟩ := hranges r₁ hr₁
    obtain ⟨w₂, hends₂⟩ := hranges r₂ hr₂
    refine ⟨r, rfl, ⟨⟨w₁, hlower ▸ hends₁.lower⟩, ?_⟩, ⟨⟨w₂, hupper ▸ hends₂.upper⟩, ?_⟩⟩
    · intro i hi
      obtain ⟨r', hr', hends⟩ := hsample i hi
      exact ⟨r'.lower, hends.lower, (endKeys_le_of_mergeAll hmerged hr').1⟩
    · intro i hi
      obtain ⟨r', hr', hends⟩ := hsample i hi
      exact ⟨r'.upper, hends.upper, (endKeys_le_of_mergeAll hmerged hr').2⟩

/-- Every run ends well, with the answer at each sample; its range is a merge at both ends. -/
theorem exists_mergedEnds (hf : ∀ worker ∈ pool.workers, AnswersBy f worker)
    {result : Except Failure PoolOutcome} (h : CanEnd pool samples result) :
    ∃ outcome, result = .ok outcome ∧
      (∀ i : Nat, outcome.answers[i]? = samples[i]?.map fun sample => f sample.toConstants) ∧
      (samples = [] → outcome.range = none) ∧
      (samples ≠ [] → ∃ r, outcome.range = some r ∧
        MergedEnd answerValue f samples pool.size r.lower ∧
        MergedEnd dualValue f samples pool.size r.upper) := by
  obtain ⟨order, horder, rfl⟩ := h
  obtain ⟨outcome, hok⟩ := (exists_gather_eq_ok_iff horder).2 fun w worker hworker _ =>
    (hf worker (List.mem_of_getElem? hworker)).answersBucket w
  obtain ⟨cs, rfl, -, rfl⟩ := gather_eq_ok.1 hok
  have hall := allContributions_of_perm horder
  refine ⟨_, hok, hall.getElem?_mergedAnswers hf, ?_, hall.mergedEnds hf⟩
  rintro rfl
  rw [hall.eq_nil]
  rfl

end

/-! ### Comparing ends -/

section

variable {κ : Type} [LinearOrder κ] {key : Answer → κ} {f : List Constant → Answer}
  {samples : List Sample} {count : Nat} {b b₀ : Bound}

theorem MergedEnd.key_le (h : MergedEnd key f samples count b) {i : Nat} {v : Answer}
    {w : List Constant} (hv : Observed f samples i v w) : key b.value ≤ key v := by
  obtain ⟨sample, hsample, -, -⟩ := id hv
  obtain ⟨b', hb', hle⟩ := h.le i (List.getElem?_eq_some_iff.1 hsample).1
  exact ((endKey_le_iff key).1 hle).1.trans (hb'.key_le ⟨hv, rfl⟩)

theorem MergedEnd.key_eq {count' : Nat} {b' : Bound} (h : MergedEnd key f samples count b)
    (h' : MergedEnd key f samples count' b') : key b.value = key b'.value := by
  obtain ⟨_, _, ⟨hb, -⟩, -⟩ := h.earliest
  obtain ⟨_, _, ⟨hb', -⟩, -⟩ := h'.earliest
  exact le_antisymm (h.key_le hb') (h'.key_le hb)

theorem MergedEnd.earliest_of_one (h : MergedEnd key f samples 1 b) :
    Earliest key b (Observed f samples) := by
  obtain ⟨w, hb⟩ := h.earliest
  obtain ⟨i, ⟨-, hi⟩, -⟩ := id hb
  refine hb.congr ?_
  intro j v witness
  rw [and_iff_left]
  rw [Nat.mod_one] at hi ⊢
  exact hi

/-- With a worker for each sample the witness of an end sorts first. -/
theorem MergedEnd.endKey_le (h : MergedEnd key f samples count b) (hcount : samples.length ≤ count)
    {i : Nat} {v : Answer} {w : List Constant} (hv : Observed f samples i v w) :
    endKey key b ≤ endKey key ⟨v, w⟩ := by
  obtain ⟨sample, hsample, -, -⟩ := id hv
  have hi := (List.getElem?_eq_some_iff.1 hsample).1
  obtain ⟨b', ⟨j, ⟨hj, hmod⟩, -⟩, hle⟩ := h.le i hi
  obtain ⟨sample', hsample', -, -⟩ := id hj
  have hlt := (List.getElem?_eq_some_iff.1 hsample').1
  rw [Nat.mod_eq_of_lt (hlt.trans_le hcount), Nat.mod_eq_of_lt (hi.trans_le hcount)] at hmod
  subst hmod
  obtain ⟨rfl, rfl⟩ := hv.unique hj
  exact hle

/-- The first extreme answer is kept by any number of workers, if its witness sorts first. -/
theorem MergedEnd.eq (h : MergedEnd key f samples count b)
    (h₀ : Earliest key b₀ (Observed f samples))
    (hfirst : ∀ i v w, Observed f samples i v w → endKey key b₀ ≤ endKey key ⟨v, w⟩) : b = b₀ := by
  obtain ⟨w, i, ⟨hi, -⟩, -⟩ := h.earliest
  obtain ⟨i₀, hi₀, hle₀⟩ := id h₀
  obtain ⟨sample₀, hsample₀, hwitness₀, hvalue₀⟩ := id hi₀
  obtain ⟨sample, -, -, hvalue⟩ := id hi
  -- The worker of the first extreme answer contributes that answer.
  obtain ⟨b', hb', hle⟩ := h.le i₀ (List.getElem?_eq_some_iff.1 hsample₀).1
  have hb₀ : Earliest key b₀ fun j v witness =>
      Observed f samples j v witness ∧ j % count = i₀ % count :=
    ⟨i₀, ⟨hi₀, rfl⟩, fun j v witness hj => hle₀ j v witness hj.1⟩
  obtain rfl := hb'.unique hb₀ fun j v w v' w' hj hj' => hj.1.unique hj'.1
  have hwitness := ((endKey_eq_iff key).1 (le_antisymm hle (hfirst _ _ _ hi))).2
  cases b
  cases b'
  simp_all

end

/-! ### Sizes of pools -/

/-- Any two pools whose oracles answer by the same function end well, in whatever order the workers
finish, with the same answers and with related ranges. -/
def PoolsAgree (f : List Constant → Answer) (samples : List Sample)
    (related : Option Range → Option Range → Prop) : Prop :=
  ∀ pool pool' : Pool Id, (∀ worker ∈ pool.workers, AnswersBy f worker) →
    (∀ worker ∈ pool'.workers, AnswersBy f worker) →
    ∀ result result', CanEnd pool samples result → CanEnd pool' samples result' →
      ∃ outcome outcome', result = .ok outcome ∧ result' = .ok outcome' ∧
        (∀ i : Nat, outcome.answers[i]? = outcome'.answers[i]?) ∧
        related outcome.range outcome'.range

/-- Equal values at both ends, whatever the witnesses. -/
def SameValues : Option Range → Option Range → Prop :=
  Option.Rel fun r r' => r.lower.value.compare r'.lower.value = .eq ∧
    r.upper.value.compare r'.upper.value = .eq

/-- The first sample with an extreme answer has constants that no other sample with an equal answer
sorts before. -/
def FirstSortsFirst {κ : Type} [LinearOrder κ] (key : Answer → κ) (f : List Constant → Answer)
    (samples : List Sample) : Prop :=
  ∀ b, Earliest key b (Observed f samples) → ∀ i v w, Observed f samples i v w →
    key v = key b.value → Constant.listLt w b.witness = false

/-- A pool of `count + 1` workers that all answer by the same function. -/
def poolOf (f : List Constant → Answer) (count : Nat) : Pool Id where
  workers := List.replicate (count + 1) ⟨"", fun requests => .ok (requests.map fun _ cs => f cs)⟩
  workers_ne_nil := by simp

section

variable {f : List Constant → Answer} {samples : List Sample}

theorem answersBy_poolOf (f : List Constant → Answer) (count : Nat) :
    ∀ worker ∈ (poolOf f count).workers, AnswersBy f worker := by
  intro worker hmem
  rw [List.eq_of_mem_replicate hmem]
  exact fun requests => ⟨_, rfl, fun i => Std.TreeMap.getElem?_map⟩

theorem size_poolOf (f : List Constant → Answer) (count : Nat) :
    (poolOf f count).size = count + 1 := List.length_replicate

theorem firstSortsFirst_iff {κ : Type} [LinearOrder κ] {key : Answer → κ} :
    FirstSortsFirst key f samples ↔ ∀ b, Earliest key b (Observed f samples) →
      ∀ i v w, Observed f samples i v w → endKey key b ≤ endKey key ⟨v, w⟩ := by
  simp only [FirstSortsFirst, endKey_le_iff]
  constructor
  · intro h b hb i v w hv
    exact ⟨hb.key_le hv, fun heq => h b hb i v w hv heq.symm⟩
  · intro h b hb i v w hv heq
    exact (h b hb i v w hv).2 heq.symm

/-- One worker and a worker for each sample agree only if the first extreme answer sorts first. -/
theorem firstSortsFirst_of_agree {κ : Type} [LinearOrder κ] {key : Answer → κ} {count : Nat}
    {b b' : Bound} (h : MergedEnd key f samples 1 b) (h' : MergedEnd key f samples count b')
    (hcount : samples.length ≤ count) (heq : endKey key b = endKey key b') :
    FirstSortsFirst key f samples := by
  rw [firstSortsFirst_iff]
  intro b₀ hb₀ i v w hv
  rw [hb₀.unique h.earliest_of_one fun _ _ _ _ _ hj hj' => hj.unique hj', heq]
  exact h'.endKey_le hcount hv

theorem firstSortsFirst_nil {κ : Type} [LinearOrder κ] {key : Answer → κ} :
    FirstSortsFirst key f [] := by
  rintro b - i v w ⟨sample, hsample, -⟩
  simp at hsample

/-- Pools agree in what holds of any two ranges with merged ends. -/
theorem poolsAgree_of_mergedEnds {R : Range → Range → Prop}
    (hR : samples ≠ [] → ∀ count count' r r',
      MergedEnd answerValue f samples count r.lower → MergedEnd dualValue f samples count r.upper →
      MergedEnd answerValue f samples count' r'.lower →
      MergedEnd dualValue f samples count' r'.upper → R r r') :
    PoolsAgree f samples (Option.Rel R) := by
  intro pool pool' hf hf' result result' h h'
  obtain ⟨outcome, hok, hanswers, hnone, hrange⟩ := exists_mergedEnds hf h
  obtain ⟨outcome', hok', hanswers', hnone', hrange'⟩ := exists_mergedEnds hf' h'
  refine ⟨outcome, outcome', hok, hok', fun i => by rw [hanswers, hanswers'], ?_⟩
  by_cases hne : samples = []
  · rw [hnone hne, hnone' hne]
    exact .none
  · obtain ⟨r, hr, hlower, hupper⟩ := hrange hne
    obtain ⟨r', hr', hlower', hupper'⟩ := hrange' hne
    rw [hr, hr']
    exact .some (hR hne _ _ r r' hlower hupper hlower' hupper')

theorem poolsAgree_sameValues : PoolsAgree f samples SameValues := by
  apply poolsAgree_of_mergedEnds
  intro _ count count' r r' hlower hupper hlower' hupper'
  have hvalue := hlower.key_eq hlower'
  have hvalue' := hupper.key_eq hupper'
  exact ⟨(compare_eq_eq_iff _ _).2 hvalue, (compare_eq_eq_iff_dual _ _).2 hvalue'⟩

/-- One worker is compared with as many as could have a sample each. -/
theorem firstSortsFirst_of_poolsAgree (h : PoolsAgree f samples SameRanges) :
    FirstSortsFirst answerValue f samples ∧ FirstSortsFirst dualValue f samples := by
  by_cases hne : samples = []
  · subst hne
    exact ⟨firstSortsFirst_nil, firstSortsFirst_nil⟩
  · have hone := canEnd_run (poolOf f 0) samples
    have hmany := canEnd_run (poolOf f samples.length) samples
    obtain ⟨outcome, hok, -, -, hrange⟩ := exists_mergedEnds (answersBy_poolOf f 0) hone
    obtain ⟨outcome', hok', -, -, hrange'⟩ := exists_mergedEnds (answersBy_poolOf f _) hmany
    obtain ⟨r, hr, hlower, hupper⟩ := hrange hne
    obtain ⟨r', hr', hlower', hupper'⟩ := hrange' hne
    obtain ⟨_, _, heq, heq', -, hsame⟩ :=
      h _ _ (answersBy_poolOf f 0) (answersBy_poolOf f _) _ _ hone hmany
    obtain rfl := Except.ok.inj (hok.symm.trans heq)
    obtain rfl := Except.ok.inj (hok'.symm.trans heq')
    rw [hr, hr'] at hsame
    obtain ⟨hsameLower, hsameUpper⟩ : SameRange r r' := Option.rel_some_some.1 hsame
    have hcount : samples.length ≤ (poolOf f samples.length).size := by
      rw [size_poolOf]
      exact Nat.le_succ _
    rw [size_poolOf] at hlower hupper
    rw [sameBound_iff_lower] at hsameLower
    rw [sameBound_iff_upper] at hsameUpper
    exact ⟨firstSortsFirst_of_agree hlower hlower' hcount hsameLower,
      firstSortsFirst_of_agree hupper hupper' hcount hsameUpper⟩

theorem poolsAgree_of_firstSortsFirst (hlowerFirst : FirstSortsFirst answerValue f samples)
    (hupperFirst : FirstSortsFirst dualValue f samples) : PoolsAgree f samples SameRanges := by
  apply poolsAgree_of_mergedEnds
  intro hne count count' r r' hlower hupper hlower' hupper'
  -- Both ranges are the one of a single worker.
  obtain ⟨outcome₀, -, -, -, hrange₀⟩ :=
    exists_mergedEnds (answersBy_poolOf f 0) (canEnd_run _ samples)
  obtain ⟨r₀, -, hlower₀, hupper₀⟩ := hrange₀ hne
  rw [size_poolOf] at hlower₀ hupper₀
  have hlowerKey := firstSortsFirst_iff.1 hlowerFirst _ hlower₀.earliest_of_one
  have hupperKey := firstSortsFirst_iff.1 hupperFirst _ hupper₀.earliest_of_one
  have hlowerEq : r.lower = r'.lower :=
    (hlower.eq hlower₀.earliest_of_one hlowerKey).trans
      (hlower'.eq hlower₀.earliest_of_one hlowerKey).symm
  have hupperEq : r.upper = r'.upper :=
    (hupper.eq hupper₀.earliest_of_one hupperKey).trans
      (hupper'.eq hupper₀.earliest_of_one hupperKey).symm
  rw [sameRange_iff, rangeKey, rangeKey, hlowerEq, hupperEq]

end

/-- Pools of any sizes give the same answers and the same values of the range. They give the same
witnesses exactly if the first samples with the least and with the greatest answer have the
constants that sort first. -/
theorem worker_count_unobservable_iff (f : List Constant → Answer) (samples : List Sample) :
    PoolsAgree f samples SameValues ∧
      (PoolsAgree f samples SameRanges ↔
        FirstSortsFirst answerValue f samples ∧ FirstSortsFirst dualValue f samples) :=
  ⟨poolsAgree_sameValues, firstSortsFirst_of_poolsAgree,
    fun h => poolsAgree_of_firstSortsFirst h.1 h.2⟩

def samplesAt (first second : Decimal) : List Sample := [⟨[("p", first)]⟩, ⟨[("p", second)]⟩]

/-- The oracle has the same value everywhere, and the first sample sorts first. -/
theorem constantAnswer_agree :
    PoolsAgree (fun _ => .finite Decimal.one) (samplesAt Decimal.one Decimal.two) SameRanges := by
  have hfirst : ∀ {κ : Type} [LinearOrder κ] (key : Answer → κ),
      FirstSortsFirst key (fun _ => .finite Decimal.one) (samplesAt Decimal.one Decimal.two) := by
    rintro κ _ key b ⟨i₀, ⟨sample₀, hsample₀, hwitness, hvalue⟩, hle⟩ i v w
      ⟨sample, hsample, rfl, rfl⟩ -
    have hzero := hle 0 (.finite Decimal.one) [⟨"p", "1"⟩]
      ⟨⟨[("p", Decimal.one)]⟩, rfl, by decide +kernel, rfl⟩
    obtain rfl := Nat.le_zero.1 ((Prod.Lex.toLex_le_toLex'.1 hzero).2 (congrArg key hvalue))
    cases hsample₀
    rw [hwitness]
    have hmem : sample ∈ samplesAt Decimal.one Decimal.two := List.mem_of_getElem? hsample
    clear hsample
    revert sample
    decide +kernel
  exact (worker_count_unobservable_iff _ _).2.2 ⟨hfirst _, hfirst _⟩

/-- If the second sample sorts first, one worker reports the first one and two report the second. -/
theorem constantAnswer_disagree :
    ¬PoolsAgree (fun _ => .finite Decimal.one) (samplesAt Decimal.two Decimal.one) SameRanges := by
  intro h
  have hwitnesses : ∀ count < 2,
      ((poolOf (fun _ => .finite Decimal.one) count).run
          (samplesAt Decimal.two Decimal.one)).toOption.map
        (fun outcome => outcome.range.map fun r => r.lower.witness) =
          some (some [⟨"p", if count = 0 then "2" else "1"⟩]) := by decide +kernel
  obtain ⟨outcome, outcome', hok, hok', -, hsame⟩ :=
    h (poolOf _ 0) (poolOf _ 1) (answersBy_poolOf _ 0) (answersBy_poolOf _ 1) _ _
      (canEnd_run _ _) (canEnd_run _ _)
  have hone := hwitnesses 0 (by decide)
  have htwo := hwitnesses 1 (by decide)
  rw [hok] at hone
  rw [hok'] at htwo
  obtain ⟨r, hr, hrWitness⟩ := Option.map_eq_some_iff.1 (Option.some.inj hone)
  obtain ⟨r', hr', hrWitness'⟩ := Option.map_eq_some_iff.1 (Option.some.inj htwo)
  rw [hr, hr'] at hsame
  obtain ⟨⟨-, hwitness⟩, -⟩ : SameRange r r' := Option.rel_some_some.1 hsame
  rw [hrWitness, hrWitness'] at hwitness
  revert hwitness
  decide

end MarkovFit.Proofs
