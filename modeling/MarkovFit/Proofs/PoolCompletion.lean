import MarkovFit.Pool
import MarkovFit.Proofs.Maps
import MarkovFit.Proofs.Outcomes
import MarkovFit.Proofs.RangeExtent

/-!
# Completed runs of a pool

Every worker may do what it likes: fail, leave out requests or answer some that were made up. A run
nevertheless ends well exactly if every worker answered what it was asked and nothing else, and then
every sample has the answer of its worker. The argument is one of counting: the buckets are disjoint,
no worker gets through with an answer from outside its bucket, and all answers together are counted.
The order in which the workers finish does not matter.
-/

namespace MarkovFit.Proofs

/-! ### Buckets -/

/-- Selected keys are a part of all keys, in order. -/
lemma keys_filterMap_sublist {α β κ : Type} (key : α → κ) {f : α → Option (κ × β)}
    (hf : ∀ x y, f x = some y → y.1 = key x) (xs : List α) :
    ((xs.filterMap f).map Prod.fst).Sublist (xs.map key) := by
  induction xs with
  | nil => exact .slnil
  | cons x xs ih =>
    cases hx : f x with
    | none =>
      rw [List.filterMap_cons_none hx]
      exact ih.cons _
    | some y =>
      rw [List.filterMap_cons_some hx, List.map_cons, List.map_cons, hf x y hx]
      exact ih.cons_cons _

/-- A bucket holds the constants of the samples of its worker, by index. -/
theorem getElem?_bucket {count w : Nat} {samples : List Sample} {i : Nat} {cs : List Constant} :
    (Pool.bucket count w samples)[i]? = some cs ↔
      i % count = w ∧ ∃ sample, samples[i]? = some sample ∧ cs = sample.toConstants := by
  have hindices : (samples.zipIdx.map Prod.snd).Nodup := by
    rw [List.zipIdx_map_snd]
    exact List.nodup_range'
  rw [Pool.bucket, getElem?_ofList_iff (hindices.sublist (keys_filterMap_sublist Prod.snd ?_ _)),
    List.mem_filterMap]
  rotate_left
  · rintro ⟨sample, i⟩ y hy
    dsimp only at hy
    by_cases hi : i % count = w
    · rw [if_pos hi] at hy
      cases hy
      rfl
    · rw [if_neg hi] at hy
      cases hy
  constructor
  · rintro ⟨⟨sample, j⟩, hmem, hy⟩
    dsimp only at hy
    by_cases hj : j % count = w
    · rw [if_pos hj] at hy
      cases hy
      exact ⟨hj, sample, List.mem_zipIdx_iff_getElem?.1 hmem, rfl⟩
    · rw [if_neg hj] at hy
      cases hy
  · rintro ⟨hi, sample, hsample, rfl⟩
    refine ⟨(sample, i), List.mem_zipIdx_iff_getElem?.2 hsample, ?_⟩
    simp [hi]

theorem mem_bucket {count w : Nat} {samples : List Sample} {i : Nat} :
    i ∈ Pool.bucket count w samples ↔ i < samples.length ∧ i % count = w := by
  rw [mem_iff_exists_getElem?]
  constructor
  · rintro ⟨cs, hcs⟩
    obtain ⟨hi, sample, hsample, -⟩ := getElem?_bucket.1 hcs
    exact ⟨(List.getElem?_eq_some_iff.1 hsample).1, hi⟩
  · rintro ⟨hlt, hi⟩
    exact ⟨_, getElem?_bucket.2 ⟨hi, samples[i], List.getElem?_eq_getElem hlt, rfl⟩⟩

/-! ### Reports -/

/-- Widening succeeds exactly if all answers belong to requests. -/
theorem observeAll_eq_ok_iff {requests : Requests} {r : Option Range} {answers : List (Nat × Answer)} :
    (∃ r', Pool.observeAll requests r answers = .ok r') ↔ ∀ x ∈ answers, x.1 ∈ requests := by
  induction answers generalizing r with
  | nil => simp [Pool.observeAll]
  | cons x answers ih =>
    obtain ⟨id, v⟩ := x
    rw [Pool.observeAll, List.forall_mem_cons, Std.TreeMap.mem_iff_isSome_getElem?]
    cases hid : requests[id]? with
    | none => simp
    | some witness => simp [ih]

/-- Widening spans the answers besides what was spanned before. -/
theorem spansIfAny_observeAll {requests : Requests} {r r' : Option Range}
    {answers : List (Nat × Answer)} {P : Answer → List Constant → Prop} (hr : SpansIfAny r P)
    (h : Pool.observeAll requests r answers = .ok r') :
    SpansIfAny r' fun v w => P v w ∨ ∃ id, (id, v) ∈ answers ∧ requests[id]? = some w := by
  induction answers generalizing r P with
  | nil =>
    cases h
    refine hr.congr ?_
    intro v w
    simp
  | cons x answers ih =>
    obtain ⟨id, v⟩ := x
    rw [Pool.observeAll] at h
    cases hid : requests[id]? with
    | none =>
      rw [hid] at h
      cases h
    | some witness =>
      rw [hid] at h
      have hwider : SpansIfAny (some (Pool.observe r v witness))
          fun v' w' => P v' w' ∨ v' = v ∧ w' = witness := by
        cases r with
        | none =>
          refine Spans.congr (spans_single v witness) ?_
          intro v' w'
          simp [hr v' w']
        | some r => exact Spans.observe hr v witness
      refine (ih hwider h).congr ?_
      intro v' w'
      constructor
      · rintro ((hP | ⟨rfl, rfl⟩) | ⟨id', hmem, hrequest⟩)
        · exact .inl hP
        · exact .inr ⟨id, List.mem_cons_self, hid⟩
        · exact .inr ⟨id', List.mem_cons_of_mem _ hmem, hrequest⟩
      · rintro (hP | ⟨id', hmem, hrequest⟩)
        · exact .inl (.inl hP)
        · obtain heq | hmem := List.mem_cons.1 hmem
          · cases heq
            rw [hid] at hrequest
            cases hrequest
            exact .inl (.inr ⟨rfl, rfl⟩)
          · exact .inr ⟨id', hmem, hrequest⟩

theorem report_eq_ok {requests : Requests} {outcome : Except Failure Answers} {c : Contribution} :
    Pool.report requests outcome = .ok c ↔ outcome = .ok c.answers ∧
      Pool.observeAll requests none c.answers.toList = .ok c.range := by
  have hcontain : ∀ x : Except Failure Contribution, Pool.contain x = .ok c ↔ x = .ok c := by
    intro x
    unfold Pool.contain
    split <;> simp
  rw [Pool.report, hcontain]
  change (outcome >>= _) = _ ↔ _
  rw [bind_eq_ok]
  constructor
  · rintro ⟨answers, rfl, h⟩
    obtain ⟨range, hrange, h⟩ := bind_eq_ok.1 h
    cases h
    exact ⟨rfl, hrange⟩
  · rintro ⟨rfl, hrange⟩
    exact ⟨c.answers, rfl, bind_eq_ok.2 ⟨c.range, hrange, rfl⟩⟩

section

variable {pool : Pool Id} {samples : List Sample}

/-- The reports of the workers that have something to do. -/
def reports (pool : Pool Id) (samples : List Sample) : List (Except Failure Contribution) :=
  (pool.jobs samples).map fun (worker, requests) => Pool.report requests (worker.check requests)

/-- A run can end like this: the reports are gathered in the order in which they happen to come in. -/
def CanEnd (pool : Pool Id) (samples : List Sample) (result : Except Failure PoolOutcome) : Prop :=
  ∃ order, order.Perm (reports pool samples) ∧ result = Pool.gather samples.length order

theorem canEnd_run (pool : Pool Id) (samples : List Sample) :
    CanEnd pool samples (pool.run samples) := by
  have hmap := List.mapM_pure (m := Id) (l := pool.jobs samples)
    (f := fun job => Pool.report job.2 (job.1.check job.2))
  exact ⟨reports pool samples, .refl _, congrArg (Pool.gather samples.length) hmap⟩

theorem getElem?_zip_buckets {w : Nat} {worker : BatchOracle Id} {requests : Requests} :
    (pool.workers.zip (Pool.buckets pool.size samples))[w]? = some (worker, requests) ↔
      pool.workers[w]? = some worker ∧ requests = Pool.bucket pool.size w samples := by
  rw [List.getElem?_zip_eq_some, Pool.buckets, List.getElem?_map, Option.map_eq_some_iff]
  constructor
  · rintro ⟨hworker, w', hw', rfl⟩
    obtain ⟨hlt, rfl⟩ := List.getElem?_eq_some_iff.1 hw'
    exact ⟨hworker, by rw [List.getElem_range]⟩
  · rintro ⟨hworker, rfl⟩
    have hw : w < pool.size := (List.getElem?_eq_some_iff.1 hworker).1
    exact ⟨hworker, w, List.getElem?_range hw, rfl⟩

theorem mem_reports {report : Except Failure Contribution} :
    report ∈ reports pool samples ↔ ∃ w worker, pool.workers[w]? = some worker ∧
      (Pool.bucket pool.size w samples).isEmpty = false ∧
      report = Pool.report (Pool.bucket pool.size w samples)
        (worker.check (Pool.bucket pool.size w samples)) := by
  rw [reports, List.mem_map]
  constructor
  · rintro ⟨⟨worker, requests⟩, hjob, rfl⟩
    obtain ⟨hmem, hne⟩ := List.mem_filter.1 hjob
    obtain ⟨w, hw⟩ := List.mem_iff_getElem?.1 hmem
    obtain ⟨hworker, rfl⟩ := getElem?_zip_buckets.1 hw
    exact ⟨w, worker, hworker, by simpa using hne, rfl⟩
  · rintro ⟨w, worker, hworker, hne, rfl⟩
    have hmem : (worker, Pool.bucket pool.size w samples) ∈
        pool.workers.zip (Pool.buckets pool.size samples) :=
      List.mem_iff_getElem?.2 ⟨w, getElem?_zip_buckets.2 ⟨hworker, rfl⟩⟩
    exact ⟨(worker, _), List.mem_filter.2 ⟨hmem, by simp [hne]⟩, rfl⟩

/-! ### Contributions -/

/-- What the worker `w` has contributed. -/
structure Contributed (pool : Pool Id) (samples : List Sample) (w : Nat) (c : Contribution) :
    Prop where
  busy : (Pool.bucket pool.size w samples).isEmpty = false
  check_eq : ∃ worker, pool.workers[w]? = some worker ∧
    worker.check (Pool.bucket pool.size w samples) = .ok c.answers
  observe_eq : Pool.observeAll (Pool.bucket pool.size w samples) none c.answers.toList = .ok c.range

theorem ok_mem_reports {c : Contribution} :
    .ok c ∈ reports pool samples ↔ ∃ w, Contributed pool samples w c := by
  rw [mem_reports]
  constructor
  · rintro ⟨w, worker, hworker, hne, hreport⟩
    obtain ⟨hcheck, hobserve⟩ := report_eq_ok.1 hreport.symm
    exact ⟨w, hne, ⟨worker, hworker, hcheck⟩, hobserve⟩
  · rintro ⟨w, hne, ⟨worker, hworker, hcheck⟩, hobserve⟩
    exact ⟨w, worker, hworker, hne, (report_eq_ok.2 ⟨hcheck, hobserve⟩).symm⟩

/-- No contribution has an answer from outside the bucket of its worker. -/
theorem Contributed.mem {w : Nat} {c : Contribution} (h : Contributed pool samples w c) {i : Nat}
    (hi : i ∈ c.answers) : i < samples.length ∧ i % pool.size = w := by
  have hall := observeAll_eq_ok_iff.1 ⟨_, h.observe_eq⟩
  obtain ⟨v, hv⟩ := mem_iff_exists_getElem?.1 hi
  exact mem_bucket.1 (hall (i, v) (Std.TreeMap.mem_toList_iff_getElem?_eq_some.2 hv))

theorem Contributed.answers_eq {w : Nat} {c c' : Contribution} (h : Contributed pool samples w c)
    (h' : Contributed pool samples w c') : c.answers = c'.answers := by
  obtain ⟨worker, hworker, hcheck⟩ := h.check_eq
  obtain ⟨worker', hworker', hcheck'⟩ := h'.check_eq
  obtain rfl := Option.some.inj (hworker.symm.trans hworker')
  exact Except.ok.inj (hcheck.symm.trans hcheck')

theorem Contributed.spans {w : Nat} {c : Contribution} (h : Contributed pool samples w c) :
    SpansIfAny c.range fun v witness => ∃ (i : Nat) (sample : Sample), samples[i]? = some sample ∧
      c.answers[i]? = some v ∧ witness = sample.toConstants := by
  have hnone : SpansIfAny none fun _ _ => False := fun _ _ h => h
  refine (spansIfAny_observeAll hnone h.observe_eq).congr ?_
  intro v witness
  simp only [Std.TreeMap.mem_toList_iff_getElem?_eq_some, getElem?_bucket, false_or]
  constructor
  · rintro ⟨i, hv, -, sample, hsample, rfl⟩
    exact ⟨i, sample, hsample, hv, rfl⟩
  · rintro ⟨i, sample, hsample, hv, rfl⟩
    have hi : i ∈ c.answers := mem_iff_exists_getElem?.2 ⟨_, hv⟩
    exact ⟨i, hv, (h.mem hi).2, sample, hsample, rfl⟩

end

/-! ### Gathering -/

/-- All answers of some contributions. -/
def mergedAnswers (cs : List Contribution) : Answers :=
  cs.foldl (fun all c => all.insertMany c.answers.toList) ∅

theorem mergedAnswers_eq (cs : List Contribution) :
    mergedAnswers cs = (cs.map (·.answers)).foldl (fun all one => all.insertMany one.toList) ∅ := by
  rw [mergedAnswers, List.foldl_map]

theorem mem_mergedAnswers {cs : List Contribution} {i : Nat} :
    i ∈ mergedAnswers cs ↔ ∃ c ∈ cs, i ∈ c.answers := by
  rw [mergedAnswers_eq, mem_foldl_insertMany]
  simp

theorem exists_of_getElem?_mergedAnswers {cs : List Contribution} {i : Nat} {v : Answer}
    (h : (mergedAnswers cs)[i]? = some v) : ∃ c ∈ cs, c.answers[i]? = some v := by
  rw [mergedAnswers_eq] at h
  obtain hstart | ⟨answers, hmem, hv⟩ := exists_of_getElem?_foldl_insertMany h
  · simp at hstart
  · obtain ⟨c, hc, rfl⟩ := List.mem_map.1 hmem
    exact ⟨c, hc, hv⟩

/-- Gathering succeeds if no report is a failure and no answer is missing in the count. -/
theorem gather_eq_ok {n : Nat} {order : List (Except Failure Contribution)} {outcome : PoolOutcome} :
    Pool.gather n order = .ok outcome ↔ ∃ cs : List Contribution, order = cs.map .ok ∧
      (mergedAnswers cs).size = n ∧
      outcome = ⟨mergedAnswers cs, Range.mergeAll (cs.filterMap (·.range))⟩ := by
  have hreports : ∀ cs : List Contribution, order.mapM id = .ok cs ↔ order = cs.map .ok := by
    intro cs
    rw [mapM_eq_ok, ← List.forall₂_eq_eq_eq, List.forall₂_map_right_iff]
    rfl
  unfold Pool.gather
  rw [bind_eq_ok]
  constructor
  · rintro ⟨cs, hcs, h⟩
    change (if (mergedAnswers cs).size = n then _ else _) = _ at h
    by_cases hsize : (mergedAnswers cs).size = n
    · rw [if_pos hsize] at h
      cases h
      exact ⟨cs, (hreports cs).1 hcs, hsize, rfl⟩
    · rw [if_neg hsize] at h
      cases h
  · rintro ⟨cs, hcs, hsize, rfl⟩
    refine ⟨cs, (hreports cs).2 hcs, ?_⟩
    change (if (mergedAnswers cs).size = n then _ else _) = _
    rw [if_pos hsize]
    rfl

/-! ### Whole runs -/

section

variable {pool : Pool Id} {samples : List Sample}

/-- The worker has answered its whole bucket and nothing else. -/
def AnswersBucket (pool : Pool Id) (samples : List Sample) (w : Nat) (worker : BatchOracle Id) :
    Prop :=
  ∃ answers, worker.check (Pool.bucket pool.size w samples) = .ok answers ∧
    ∀ i, i ∈ answers ↔ i < samples.length ∧ i % pool.size = w

/-- The contributions are those of all busy workers. -/
def AllContributions (pool : Pool Id) (samples : List Sample) (cs : List Contribution) : Prop :=
  ∀ c, c ∈ cs ↔ ∃ w, Contributed pool samples w c

theorem allContributions_of_perm {cs : List Contribution}
    (h : (cs.map .ok).Perm (reports pool samples)) : AllContributions pool samples cs := by
  intro c
  rw [← ok_mem_reports, ← h.mem_iff, List.mem_map]
  constructor
  · exact fun hc => ⟨c, hc, rfl⟩
  · rintro ⟨c', hc', heq⟩
    cases heq
    exact hc'

namespace AllContributions

variable {cs : List Contribution}

theorem lt_length (h : AllContributions pool samples cs) {i : Nat} (hi : i ∈ mergedAnswers cs) :
    i < samples.length := by
  obtain ⟨c, hc, hi⟩ := mem_mergedAnswers.1 hi
  obtain ⟨w, hw⟩ := (h c).1 hc
  exact (hw.mem hi).1

/-- The merge has the answers of the worker that a sample goes to. -/
theorem mem_iff (h : AllContributions pool samples cs) {w : Nat} {c : Contribution}
    (hc : Contributed pool samples w c) {i : Nat} (hi : i % pool.size = w) :
    i ∈ mergedAnswers cs ↔ i ∈ c.answers := by
  rw [mem_mergedAnswers]
  constructor
  · rintro ⟨c', hc', hmem⟩
    obtain ⟨w', hw'⟩ := (h c').1 hc'
    obtain rfl : w = w' := hi.symm.trans (hw'.mem hmem).2
    rwa [hc.answers_eq hw']
  · exact fun hmem => ⟨c, (h c).2 ⟨w, hc⟩, hmem⟩

theorem getElem?_eq (h : AllContributions pool samples cs) {w : Nat} {c : Contribution}
    (hc : Contributed pool samples w c) {i : Nat} (hi : i ∈ c.answers) :
    (mergedAnswers cs)[i]? = c.answers[i]? := by
  have hmem := (h.mem_iff hc (hc.mem hi).2).2 hi
  obtain ⟨v, hv⟩ := mem_iff_exists_getElem?.1 hmem
  obtain ⟨c', hc', hv'⟩ := exists_of_getElem?_mergedAnswers hv
  obtain ⟨w', hw'⟩ := (h c').1 hc'
  have hi' : i ∈ c'.answers := mem_iff_exists_getElem?.2 ⟨_, hv'⟩
  obtain rfl : w = w' := (hc.mem hi).2.symm.trans (hw'.mem hi').2
  rw [hv, hc.answers_eq hw', hv']

theorem spans (h : AllContributions pool samples cs) :
    SpansIfAny (Range.mergeAll (cs.filterMap (·.range))) fun v witness =>
      ∃ (i : Nat) (sample : Sample), samples[i]? = some sample ∧
        (mergedAnswers cs)[i]? = some v ∧ witness = sample.toConstants := by
  have heach : ∀ c ∈ cs, SpansIfAny c.range fun v witness =>
      ∃ (i : Nat) (sample : Sample), samples[i]? = some sample ∧ c.answers[i]? = some v ∧
        witness = sample.toConstants := by
    intro c hc
    obtain ⟨w, hw⟩ := (h c).1 hc
    exact hw.spans
  refine (spansIfAny_mergeAll heach).congr ?_
  intro v witness
  constructor
  · rintro ⟨c, hc, i, sample, hsample, hv, hwitness⟩
    obtain ⟨w, hw⟩ := (h c).1 hc
    have hi : i ∈ c.answers := mem_iff_exists_getElem?.2 ⟨_, hv⟩
    exact ⟨i, sample, hsample, by rw [h.getElem?_eq hw hi, hv], hwitness⟩
  · rintro ⟨i, sample, hsample, hv, hwitness⟩
    obtain ⟨c, hc, hv⟩ := exists_of_getElem?_mergedAnswers hv
    exact ⟨c, hc, i, sample, hsample, hv, hwitness⟩

end AllContributions

/-- A worker that answered its bucket has contributed. -/
theorem AnswersBucket.contributed {w : Nat} {worker : BatchOracle Id}
    (h : AnswersBucket pool samples w worker) (hworker : pool.workers[w]? = some worker)
    (hbusy : (Pool.bucket pool.size w samples).isEmpty = false) :
    ∃ c, Contributed pool samples w c ∧ ∀ i, i ∈ c.answers ↔ i < samples.length ∧ i % pool.size = w := by
  obtain ⟨answers, hcheck, hkeys⟩ := h
  have hrequested : ∀ x ∈ answers.toList, x.1 ∈ Pool.bucket pool.size w samples := by
    intro x hx
    have hx' := Std.TreeMap.mem_toList_iff_getElem?_eq_some.1 hx
    rw [mem_bucket, ← hkeys]
    exact mem_iff_exists_getElem?.2 ⟨_, hx'⟩
  obtain ⟨range, hrange⟩ := observeAll_eq_ok_iff.2 hrequested
  exact ⟨⟨answers, range⟩, ⟨hbusy, ⟨worker, hworker, hcheck⟩, hrange⟩, hkeys⟩

/-- A sample that was drawn keeps a worker busy. -/
theorem exists_busy_worker (pool : Pool Id) {samples : List Sample} {i : Nat}
    (hi : i < samples.length) : ∃ worker, pool.workers[i % pool.size]? = some worker ∧
      (Pool.bucket pool.size (i % pool.size) samples).isEmpty = false := by
  have hpos : 0 < pool.size := List.length_pos_iff.2 pool.workers_ne_nil
  have hw : i % pool.size < pool.workers.length := Nat.mod_lt i hpos
  refine ⟨pool.workers[i % pool.size], List.getElem?_eq_getElem hw, ?_⟩
  exact Std.TreeMap.isEmpty_eq_false_iff_exists_mem.2 ⟨i, mem_bucket.2 ⟨hi, rfl⟩⟩

theorem exists_eq_map_ok {order : List (Except Failure Contribution)}
    (h : ∀ report ∈ order, ∃ c, report = .ok c) : ∃ cs : List Contribution, order = cs.map .ok := by
  induction order with
  | nil => exact ⟨[], rfl⟩
  | cons report order ih =>
    obtain ⟨c, rfl⟩ := h report List.mem_cons_self
    obtain ⟨cs, rfl⟩ := ih fun report hmem => h report (List.mem_cons_of_mem _ hmem)
    exact ⟨c :: cs, rfl⟩

/-- Gathering succeeds exactly if all busy workers have answered their buckets. -/
theorem exists_gather_eq_ok_iff {order : List (Except Failure Contribution)}
    (horder : order.Perm (reports pool samples)) :
    (∃ outcome, Pool.gather samples.length order = .ok outcome) ↔
      ∀ w worker, pool.workers[w]? = some worker →
        (Pool.bucket pool.size w samples).isEmpty = false → AnswersBucket pool samples w worker := by
  constructor
  · rintro ⟨outcome, hok⟩ w worker hworker hbusy
    obtain ⟨cs, rfl, hsize, -⟩ := gather_eq_ok.1 hok
    have hall := allContributions_of_perm horder
    have hreport := horder.mem_iff.2 (mem_reports.2 ⟨w, worker, hworker, hbusy, rfl⟩)
    obtain ⟨c, -, hc⟩ := List.mem_map.1 hreport
    obtain ⟨hcheck, hobserve⟩ := report_eq_ok.1 hc.symm
    have hcontributed : Contributed pool samples w c := ⟨hbusy, ⟨worker, hworker, hcheck⟩, hobserve⟩
    refine ⟨c.answers, hcheck, fun i => ⟨hcontributed.mem, ?_⟩⟩
    -- The count leaves no gap, and only this worker can have filled the place of its sample.
    rintro ⟨hlt, hi⟩
    have hcovered := (size_eq_iff fun i => hall.lt_length).1 hsize i hlt
    exact (hall.mem_iff hcontributed hi).1 hcovered
  · intro hworkers
    have hreports : ∀ report ∈ order, ∃ c, report = .ok c := by
      intro report hmem
      obtain ⟨w, worker, hworker, hbusy, rfl⟩ := mem_reports.1 (horder.mem_iff.1 hmem)
      obtain ⟨c, hc, -⟩ := (hworkers w worker hworker hbusy).contributed hworker hbusy
      obtain ⟨worker', hworker', hcheck⟩ := hc.check_eq
      obtain rfl := Option.some.inj (hworker.symm.trans hworker')
      exact ⟨c, report_eq_ok.2 ⟨hcheck, hc.observe_eq⟩⟩
    obtain ⟨cs, rfl⟩ := exists_eq_map_ok hreports
    have hall := allContributions_of_perm horder
    have hcovered : ∀ i < samples.length, i ∈ mergedAnswers cs := by
      intro i hi
      obtain ⟨worker, hworker, hbusy⟩ := exists_busy_worker pool hi
      obtain ⟨c, hc, hkeys⟩ := (hworkers _ worker hworker hbusy).contributed hworker hbusy
      exact (hall.mem_iff hc rfl).2 ((hkeys i).2 ⟨hi, rfl⟩)
    exact ⟨_, gather_eq_ok.2 ⟨cs, rfl, (size_eq_iff fun i => hall.lt_length).2 hcovered, rfl⟩⟩

/-- The range of a run spans the answers at its samples. -/
theorem range_of_spans {answers : Answers} {range : Option Range}
    (hkeys : ∀ i, i ∈ answers ↔ i < samples.length)
    (h : SpansIfAny range fun v witness => ∃ (i : Nat) (sample : Sample),
      samples[i]? = some sample ∧ answers[i]? = some v ∧ witness = sample.toConstants) :
    (range = none ↔ samples = []) ∧ ∀ r, range = some r →
      (∃ (i : Nat) (sample : Sample), samples[i]? = some sample ∧
        answers[i]? = some r.lower.value ∧ r.lower.witness = sample.toConstants) ∧
      (∃ (i : Nat) (sample : Sample), samples[i]? = some sample ∧
        answers[i]? = some r.upper.value ∧ r.upper.witness = sample.toConstants) ∧
      ∀ (i : Nat) (v : Answer), answers[i]? = some v → ¬v < r.lower.value ∧ ¬r.upper.value < v := by
  have hobserved : ∀ (i : Nat) (v : Answer), answers[i]? = some v →
      ∃ sample, samples[i]? = some sample := by
    intro i v hv
    have hi := (hkeys i).1 (mem_iff_exists_getElem?.2 ⟨_, hv⟩)
    exact ⟨samples[i], List.getElem?_eq_getElem hi⟩
  constructor
  · cases range with
    | none =>
      refine ⟨fun _ => ?_, fun _ => rfl⟩
      cases samples with
      | nil => rfl
      | cons sample samples =>
        have hfirst := (hkeys 0).2 (by simp)
        obtain ⟨v, hv⟩ := mem_iff_exists_getElem?.1 hfirst
        exact absurd ⟨0, sample, rfl, hv, rfl⟩ (h v sample.toConstants)
    | some r =>
      constructor
      · intro hnone
        cases hnone
      · rintro rfl
        obtain ⟨i, sample, hsample, -⟩ := h.lower
        simp at hsample
  · rintro r rfl
    refine ⟨h.lower, h.upper, ?_⟩
    intro i v hv
    obtain ⟨sample, hsample⟩ := hobserved i v hv
    rw [answer_lt_iff, answer_lt_iff, not_lt, not_lt]
    exact ⟨h.lower_le v _ ⟨i, sample, hsample, hv, rfl⟩, h.le_upper v _ ⟨i, sample, hsample, hv, rfl⟩⟩

end

/-- A run ends well exactly if every worker with something to do answered its bucket and nothing else,
in whatever order the reports came in. Then each sample has the answer of its worker, and the range
has the least and the greatest answer, each with a sample that gave it. -/
theorem run_ends_well_iff (pool : Pool Id) (samples : List Sample) :
    CanEnd pool samples (pool.run samples) ∧
      ∀ result, CanEnd pool samples result →
        ((∃ outcome, result = .ok outcome) ↔
          ∀ w worker, pool.workers[w]? = some worker →
            (Pool.bucket pool.size w samples).isEmpty = false →
            ∃ answers, worker.check (Pool.bucket pool.size w samples) = .ok answers ∧
              ∀ i, i ∈ answers ↔ i < samples.length ∧ i % pool.size = w) ∧
        ∀ outcome, result = .ok outcome →
          (∀ i, i ∈ outcome.answers ↔ i < samples.length) ∧
          (∀ i < samples.length, ∃ worker answers, pool.workers[i % pool.size]? = some worker ∧
            worker.check (Pool.bucket pool.size (i % pool.size) samples) = .ok answers ∧
            outcome.answers[i]? = answers[i]?) ∧
          (outcome.range = none ↔ samples = []) ∧
          ∀ r, outcome.range = some r →
            (∃ (i : Nat) (sample : Sample), samples[i]? = some sample ∧
              outcome.answers[i]? = some r.lower.value ∧ r.lower.witness = sample.toConstants) ∧
            (∃ (i : Nat) (sample : Sample), samples[i]? = some sample ∧
              outcome.answers[i]? = some r.upper.value ∧ r.upper.witness = sample.toConstants) ∧
            ∀ (i : Nat) (v : Answer), outcome.answers[i]? = some v →
              ¬v < r.lower.value ∧ ¬r.upper.value < v := by
  refine ⟨canEnd_run pool samples, ?_⟩
  rintro result ⟨order, horder, rfl⟩
  have hiff := exists_gather_eq_ok_iff horder
  refine ⟨hiff, ?_⟩
  intro outcome hok
  have hworkers := hiff.1 ⟨outcome, hok⟩
  obtain ⟨cs, rfl, hsize, rfl⟩ := gather_eq_ok.1 hok
  have hall := allContributions_of_perm horder
  have hkeys : ∀ i, i ∈ mergedAnswers cs ↔ i < samples.length := fun i =>
    ⟨hall.lt_length, (size_eq_iff fun i => hall.lt_length).1 hsize i⟩
  refine ⟨hkeys, ?_, range_of_spans hkeys hall.spans⟩
  intro i hi
  obtain ⟨worker, hworker, hbusy⟩ := exists_busy_worker pool hi
  obtain ⟨c, hc, hanswered⟩ := (hworkers _ worker hworker hbusy).contributed hworker hbusy
  obtain ⟨worker', hworker', hcheck⟩ := hc.check_eq
  exact ⟨worker', c.answers, hworker', hcheck, hall.getElem?_eq hc ((hanswered i).2 ⟨hi, rfl⟩)⟩

/-- Two workers; all samples of the first have the value one, all of the second are infinite. -/
def twoWorkers : Pool Id where
  workers :=
    [⟨"one", fun requests => .ok (requests.map fun _ _ => .finite Decimal.one)⟩,
      ⟨"infinite", fun requests => .ok (requests.map fun _ _ => .infinite)⟩]
  workers_ne_nil := by simp

def threeSamples : List Sample :=
  [⟨[("p", Decimal.zero)]⟩, ⟨[("p", Decimal.one)]⟩, ⟨[("p", Decimal.ten)]⟩]

/-- The second worker reports first. -/
theorem twoWorkers_end_well : ∃ outcome r,
    Pool.gather 3 (reports twoWorkers threeSamples).reverse = .ok outcome ∧
      outcome.range = some r ∧ (∀ i, i ∈ outcome.answers ↔ i < 3) ∧
      ∀ (i : Nat) (v : Answer), outcome.answers[i]? = some v →
        ¬v < r.lower.value ∧ ¬r.upper.value < v := by
  obtain ⟨outcome, hok⟩ := exists_eq_ok
    (x := Pool.gather 3 (reports twoWorkers threeSamples).reverse) (by decide +kernel)
  have hcanEnd : CanEnd twoWorkers threeSamples (.ok outcome) :=
    ⟨_, List.reverse_perm _, hok.symm⟩
  obtain ⟨-, hruns⟩ := run_ends_well_iff twoWorkers threeSamples
  obtain ⟨hkeys, -, hnone, hrange⟩ := (hruns _ hcanEnd).2 outcome rfl
  have hsome : outcome.range ≠ none := fun h => absurd (hnone.1 h) (by simp [threeSamples])
  obtain ⟨r, hr⟩ := Option.ne_none_iff_exists'.1 hsome
  exact ⟨outcome, r, hok, hr, hkeys, (hrange r hr).2.2⟩

end MarkovFit.Proofs
