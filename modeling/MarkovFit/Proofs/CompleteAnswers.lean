import MarkovFit.Oracle.Wrapper
import MarkovFit.Proofs.Maps
import MarkovFit.Proofs.ResultLines

/-!
# Complete answers of a wrapper

The output of a wrapper is accepted exactly if it answers every request once. While the lines are
read, only strange and repeated answers are refused; since these are excluded, comparing the number
of answers with the number of requests in the end finds every request that has none.
-/

namespace MarkovFit.Proofs

open Oracle Text

variable {tag output : String} {requests : Requests} {start answers : Answers}
  {results results' : List String}

/-! ### Outputs that answer everything once -/

/-- The two lines are not results of one request. -/
def OtherRequests (tag a b : String) : Prop :=
  ∀ id value value', IsResult tag a id value → ¬IsResult tag b id value'

/-- Each line with the tag is the result of a request, and each request has exactly one. -/
structure AnswersEachOnce (tag : String) (requests : Requests) (lines : List String) : Prop where
  tagged : ∀ line ∈ lines, IsTagged tag line →
    ∃ id value, IsResult tag line id value ∧ id ∈ requests
  distinct : lines.Pairwise (OtherRequests tag)
  complete : ∀ id ∈ requests, ∃ line ∈ lines, ∃ value, IsResult tag line id value

/-- The lines of an output that carry the tag, without the blanks at their ends. -/
def taggedLines (tag output : String) : List String :=
  ((lines output).map trimEnd).filter (IsTagged tag)

theorem OtherRequests.symm {a b : String} (h : OtherRequests tag a b) : OtherRequests tag b a :=
  fun id value value' ha hb => h id value' value hb ha

theorem otherRequests_trimEnd {a b : String} :
    OtherRequests tag (trimEnd a) (trimEnd b) ↔ OtherRequests tag a b := by
  simp only [OtherRequests, isResult_trimEnd]

theorem exists_mem_taggedLines {id : Nat} {value : Answer} :
    (∃ line ∈ taggedLines tag output, IsResult tag line id value) ↔
      ∃ line ∈ lines output, IsResult tag line id value := by
  constructor
  · rintro ⟨line, hmem, hresult⟩
    obtain ⟨raw, hraw, rfl⟩ := List.mem_map.1 (List.mem_filter.1 hmem).1
    exact ⟨raw, hraw, isResult_trimEnd.1 hresult⟩
  · rintro ⟨line, hmem, hresult⟩
    have htagged : IsTagged tag (trimEnd line) := isTagged_trimEnd.2 hresult.isTagged
    refine ⟨trimEnd line, ?_, isResult_trimEnd.2 hresult⟩
    exact List.mem_filter.2 ⟨List.mem_map_of_mem hmem, by simpa using htagged⟩

/-- Only the lines with the tag count, whatever blanks they end with. -/
theorem answersEachOnce_taggedLines :
    AnswersEachOnce tag requests (taggedLines tag output) ↔
      AnswersEachOnce tag requests (lines output) := by
  have htagged : (∀ line ∈ taggedLines tag output, IsTagged tag line →
        ∃ id value, IsResult tag line id value ∧ id ∈ requests) ↔
      ∀ line ∈ lines output, IsTagged tag line →
        ∃ id value, IsResult tag line id value ∧ id ∈ requests := by
    simp only [taggedLines, List.mem_filter, List.mem_map, decide_eq_true_eq]
    constructor
    · intro h line hmem htag
      have htag' : IsTagged tag (trimEnd line) := isTagged_trimEnd.2 htag
      obtain ⟨id, value, hresult, hid⟩ := h (trimEnd line) ⟨⟨line, hmem, rfl⟩, htag'⟩ htag'
      exact ⟨id, value, isResult_trimEnd.1 hresult, hid⟩
    · rintro h _ ⟨⟨line, hmem, rfl⟩, htag⟩ -
      obtain ⟨id, value, hresult, hid⟩ := h line hmem (isTagged_trimEnd.1 htag)
      exact ⟨id, value, isResult_trimEnd.2 hresult, hid⟩
  have hdistinct : (taggedLines tag output).Pairwise (OtherRequests tag) ↔
      (lines output).Pairwise (OtherRequests tag) := by
    rw [taggedLines, List.pairwise_filter, List.pairwise_map]
    -- A line without the tag is no result, so that it conflicts with none.
    apply List.Pairwise.iff
    intro a b
    rw [otherRequests_trimEnd]
    simp only [decide_eq_true_eq, isTagged_trimEnd]
    constructor
    · intro h id value value' ha hb
      exact h ha.isTagged hb.isTagged id value value' ha hb
    · intro h _ _
      exact h
  have hcomplete : (∀ id ∈ requests, ∃ line ∈ taggedLines tag output, ∃ value,
        IsResult tag line id value) ↔
      ∀ id ∈ requests, ∃ line ∈ lines output, ∃ value, IsResult tag line id value := by
    refine forall₂_congr fun id _ => ?_
    constructor
    · rintro ⟨line, hmem, value, hresult⟩
      obtain ⟨raw, hraw, hresult⟩ := exists_mem_taggedLines.1 ⟨line, hmem, hresult⟩
      exact ⟨raw, hraw, value, hresult⟩
    · rintro ⟨line, hmem, value, hresult⟩
      obtain ⟨trimmed, htrimmed, hresult⟩ := exists_mem_taggedLines.2 ⟨line, hmem, hresult⟩
      exact ⟨trimmed, htrimmed, value, hresult⟩
  constructor
  · intro h
    exact ⟨htagged.1 h.tagged, hdistinct.1 h.distinct, hcomplete.1 h.complete⟩
  · intro h
    exact ⟨htagged.2 h.tagged, hdistinct.2 h.distinct, hcomplete.2 h.complete⟩

theorem AnswersEachOnce.perm (h : AnswersEachOnce tag requests results)
    (hperm : results'.Perm results) : AnswersEachOnce tag requests results' where
  tagged line hmem := h.tagged line (hperm.mem_iff.1 hmem)
  distinct := (hperm.pairwise_iff OtherRequests.symm).2 h.distinct
  complete id hid := by
    obtain ⟨line, hmem, hresult⟩ := h.complete id hid
    exact ⟨line, hperm.mem_iff.2 hmem, hresult⟩

/-! ### Reading the lines -/

/-- A line with the tag gets through if it is the first result of a request. -/
theorem collectLines_cons_of_isResult {line : String} {id : Nat} {value : Answer}
    (h : IsResult tag line id value) (hid : id ∈ requests) (hnew : id ∉ start) :
    collectLines tag requests start (line :: results) =
      collectLines tag requests (start.insert id value) results := by
  have hcontains : requests.contains id = true := Std.TreeMap.contains_iff_mem.2 hid
  have hfresh : start.contains id = false := by
    rwa [← Bool.not_eq_true, Std.TreeMap.contains_iff_mem]
  simp only [collectLines, readResult?_eq_ok_iff.2 h, hcontains, hfresh]
  rfl

/-- What one line has to be for the reading to go on, and what it adds. -/
theorem collectLines_cons_eq_ok_iff {line : String} :
    collectLines tag requests start (line :: results) = .ok answers ↔
      (¬IsTagged tag line ∧ collectLines tag requests start results = .ok answers) ∨
      ∃ id value, IsResult tag line id value ∧ id ∈ requests ∧ id ∉ start ∧
        collectLines tag requests (start.insert id value) results = .ok answers := by
  constructor
  · intro h
    rw [collectLines] at h
    split at h
    · rename_i hread
      exact .inl ⟨readResult?_eq_none_iff.1 hread, h⟩
    · cases h
    · rename_i id value hread
      split at h
      · cases h
      · rename_i hid
        split at h
        · cases h
        · rename_i hnew
          refine .inr ⟨id, value, readResult?_eq_ok_iff.1 hread, ?_, ?_, h⟩
          · simpa using hid
          · simpa using hnew
  · rintro (⟨htag, h⟩ | ⟨id, value, hresult, hid, hnew, h⟩)
    · simpa only [collectLines, readResult?_eq_none_iff.2 htag] using h
    · rw [collectLines_cons_of_isResult hresult hid hnew]
      exact h

/-- The reading adds the values on the lines to the answers that it starts with. -/
theorem getElem?_of_collectLines (h : collectLines tag requests start results = .ok answers)
    {id : Nat} {value : Answer} : answers[id]? = some value ↔
      start[id]? = some value ∨ ∃ line ∈ results, IsResult tag line id value := by
  induction results generalizing start with
  | nil =>
    cases h
    simp
  | cons line results ih =>
    rw [List.exists_mem_cons_iff]
    rcases collectLines_cons_eq_ok_iff.1 h with ⟨htag, h⟩ | ⟨id', value', hresult, -, hnew, h⟩
    · have hnone : ¬IsResult tag line id value := fun hresult => htag hresult.isTagged
      rw [ih h, or_iff_right hnone]
    · have hline : (start.insert id' value')[id]? = some value ↔
          start[id]? = some value ∨ IsResult tag line id value := by
        rw [Std.TreeMap.getElem?_insert]
        by_cases hid : id' = id
        · subst hid
          have hstart : start[id']? = none := Std.TreeMap.getElem?_eq_none hnew
          rw [if_pos (Std.LawfulEqCmp.compare_eq_iff_eq.2 rfl), hstart]
          constructor
          · intro hvalue
            cases hvalue
            exact .inr hresult
          · rintro (hvalue | hvalue)
            · cases hvalue
            · rw [(hresult.unique hvalue).2]
        · rw [if_neg (fun heq => hid (Std.LawfulEqCmp.compare_eq_iff_eq.1 heq))]
          refine (or_iff_left fun hvalue => hid ?_).symm
          exact (hresult.unique hvalue).1
      rw [ih h, hline, or_assoc]

theorem mem_of_collectLines (h : collectLines tag requests ∅ results = .ok answers) {id : Nat} :
    id ∈ answers ↔ ∃ line ∈ results, ∃ value, IsResult tag line id value := by
  rw [mem_iff_exists_getElem?]
  simp only [getElem?_of_collectLines h, Std.TreeMap.getElem?_emptyc, reduceCtorEq, false_or]
  exact ⟨fun ⟨value, line, hline, hresult⟩ => ⟨line, hline, value, hresult⟩,
    fun ⟨line, hline, value, hresult⟩ => ⟨value, line, hline, hresult⟩⟩

theorem not_mem_insert_iff {id id' : Nat} {value : Answer} :
    id' ∉ start.insert id value ↔ id ≠ id' ∧ id' ∉ start := by
  rw [Std.TreeMap.mem_insert, not_or, Std.LawfulEqCmp.compare_eq_iff_eq]

/-- The lines get through exactly if those with the tag answer requests that are still open, each of
them another one. -/
theorem exists_collectLines_eq_ok_iff :
    (∃ answers, collectLines tag requests start results = .ok answers) ↔
      (∀ line ∈ results, IsTagged tag line →
        ∃ id value, IsResult tag line id value ∧ id ∈ requests ∧ id ∉ start) ∧
      results.Pairwise (OtherRequests tag) := by
  -- A request that a line has answered is no longer open for the lines after it.
  induction results generalizing start with
  | nil => simp [collectLines]
  | cons line results ih =>
    rw [List.forall_mem_cons, List.pairwise_cons]
    by_cases htag : IsTagged tag line
    · constructor
      · rintro ⟨answers, h⟩
        rcases collectLines_cons_eq_ok_iff.1 h with ⟨hnot, -⟩ | ⟨id, value, hresult, hid, hnew, h⟩
        · exact absurd htag hnot
        · obtain ⟨hall, hdistinct⟩ := ih.1 ⟨answers, h⟩
          refine ⟨⟨fun _ => ⟨id, value, hresult, hid, hnew⟩, ?_⟩, ?_, hdistinct⟩
          · intro other hmem hother
            obtain ⟨id', value', hresult', hid', hnew'⟩ := hall other hmem hother
            exact ⟨id', value', hresult', hid', (not_mem_insert_iff.1 hnew').2⟩
          · intro other hmem id₁ value₁ value₂ hfirst hsecond
            obtain ⟨id', value', hresult', -, hnew'⟩ := hall other hmem hsecond.isTagged
            apply (not_mem_insert_iff.1 hnew').1
            exact (hresult.unique hfirst).1.trans (hsecond.unique hresult').1
      · rintro ⟨⟨hline, hall⟩, hother, hdistinct⟩
        obtain ⟨id, value, hresult, hid, hnew⟩ := hline htag
        have hrest : ∀ other ∈ results, IsTagged tag other → ∃ id' value',
            IsResult tag other id' value' ∧ id' ∈ requests ∧ id' ∉ start.insert id value := by
          intro other hmem hotherTag
          obtain ⟨id', value', hresult', hid', hnew'⟩ := hall other hmem hotherTag
          refine ⟨id', value', hresult', hid', not_mem_insert_iff.2 ⟨?_, hnew'⟩⟩
          rintro rfl
          exact hother other hmem id value value' hresult hresult'
        obtain ⟨answers, h⟩ := ih.2 ⟨hrest, hdistinct⟩
        exact ⟨answers, collectLines_cons_eq_ok_iff.2 (.inr ⟨id, value, hresult, hid, hnew, h⟩)⟩
    · have hskip : ∀ answers, collectLines tag requests start (line :: results) = .ok answers ↔
          collectLines tag requests start results = .ok answers := by
        intro answers
        rw [collectLines, readResult?_eq_none_iff.2 htag]
      have hother : ∀ other ∈ results, OtherRequests tag line other :=
        fun other _ id value _ hresult => absurd hresult.isTagged htag
      simp only [hskip, ih, htag, false_imp_iff, true_and]
      rw [and_iff_right hother]

/-! ### Comparing the numbers -/

/-- The keys of a map that are no more than those of another one are all of them if the sizes are
equal. -/
theorem size_eq_size_iff (hsubset : ∀ id ∈ answers, id ∈ requests) :
    answers.size = requests.size ↔ ∀ id ∈ requests, id ∈ answers := by
  have hsub : answers.keys ⊆ requests.keys := by
    intro id hid
    exact Std.TreeMap.mem_keys.2 (hsubset id (Std.TreeMap.mem_keys.1 hid))
  have hperm := Std.TreeMap.nodup_keys.subperm hsub
  rw [← Std.TreeMap.length_keys, ← Std.TreeMap.length_keys]
  constructor
  · intro hsize id hid
    have hkey := (hperm.perm_of_length_le hsize.ge).mem_iff.2 (Std.TreeMap.mem_keys.2 hid)
    exact Std.TreeMap.mem_keys.1 hkey
  · intro hall
    apply Nat.le_antisymm hperm.length_le
    refine (Std.TreeMap.nodup_keys.subperm fun id hid => ?_).length_le
    exact Std.TreeMap.mem_keys.2 (hall id (Std.TreeMap.mem_keys.1 hid))

theorem collectAnswers_eq_ok_iff : collectAnswers tag output requests = .ok answers ↔
    collectLines tag requests ∅ (lines output) = .ok answers ∧ answers.size = requests.size := by
  rw [collectAnswers, bind_eq_ok]
  constructor
  · rintro ⟨collected, hcollect, h⟩
    by_cases hsize : collected.size = requests.size
    · rw [if_pos hsize] at h
      cases h
      exact ⟨hcollect, hsize⟩
    · rw [if_neg hsize] at h
      cases h
  · rintro ⟨hcollect, hsize⟩
    exact ⟨answers, hcollect, if_pos hsize⟩

theorem getElem?_of_collectAnswers (h : collectAnswers tag output requests = .ok answers)
    {id : Nat} {value : Answer} :
    answers[id]? = some value ↔ ∃ line ∈ lines output, IsResult tag line id value := by
  rw [getElem?_of_collectLines (collectAnswers_eq_ok_iff.1 h).1, or_iff_right]
  rw [Std.TreeMap.getElem?_emptyc]
  exact nofun

/-- An output is accepted exactly if it answers each request once. -/
theorem exists_collectAnswers_eq_ok_iff :
    (∃ answers, collectAnswers tag output requests = .ok answers) ↔
      AnswersEachOnce tag requests (lines output) := by
  have hopen : ∀ id : Nat, id ∉ (∅ : Answers) := fun _ => Std.TreeMap.not_mem_emptyc
  have hlines : (∃ answers, collectLines tag requests ∅ (lines output) = .ok answers) ↔ _ :=
    exists_collectLines_eq_ok_iff
  simp only [hopen, not_false_eq_true, and_true] at hlines
  have hsize : ∀ answers, collectLines tag requests ∅ (lines output) = .ok answers →
      (answers.size = requests.size ↔
        ∀ id ∈ requests, ∃ line ∈ lines output, ∃ value, IsResult tag line id value) := by
    intro answers h
    rw [size_eq_size_iff]
    · simp only [mem_of_collectLines h]
    · intro id hid
      obtain ⟨line, hline, value, hresult⟩ := (mem_of_collectLines h).1 hid
      obtain ⟨id', value', hresult', hid'⟩ :=
        (hlines.1 ⟨answers, h⟩).1 line hline hresult.isTagged
      rwa [(hresult.unique hresult').1]
  constructor
  · rintro ⟨answers, h⟩
    obtain ⟨hcollect, hequal⟩ := collectAnswers_eq_ok_iff.1 h
    obtain ⟨htagged, hdistinct⟩ := hlines.1 ⟨answers, hcollect⟩
    exact ⟨htagged, hdistinct, (hsize answers hcollect).1 hequal⟩
  · intro h
    obtain ⟨answers, hcollect⟩ := hlines.2 ⟨h.tagged, h.distinct⟩
    refine ⟨answers, collectAnswers_eq_ok_iff.2 ⟨hcollect, ?_⟩⟩
    exact (hsize answers hcollect).2 h.complete

/-- An output with the same lines with the tag, in any order and with any other lines between them,
gives the same answers. -/
theorem collectAnswers_eq_of_perm {output' : String} (hperm :
    (taggedLines tag output').Perm (taggedLines tag output))
    (h : collectAnswers tag output requests = .ok answers) :
    ∃ answers', collectAnswers tag output' requests = .ok answers' ∧
      answers'.toList = answers.toList := by
  have honce := exists_collectAnswers_eq_ok_iff.1 ⟨answers, h⟩
  rw [← answersEachOnce_taggedLines] at honce
  obtain ⟨answers', h'⟩ := exists_collectAnswers_eq_ok_iff.2
    (answersEachOnce_taggedLines.1 (honce.perm hperm))
  refine ⟨answers', h', ?_⟩
  rw [← Std.TreeMap.equiv_iff_toList_eq]
  apply Std.TreeMap.Equiv.of_forall_constGet?_eq
  intro id
  apply Option.ext
  intro value
  rw [getElem?_of_collectAnswers h', getElem?_of_collectAnswers h, ← exists_mem_taggedLines,
    ← exists_mem_taggedLines]
  simp only [hperm.mem_iff]

/-- For every output: it is accepted exactly if it answers each request once, each request then has
the value on its line, and neither other lines nor the order of the lines matter. -/
theorem collectAnswers_spec (tag output : String) (requests : Requests) :
    ((∃ answers, collectAnswers tag output requests = .ok answers) ↔
      AnswersEachOnce tag requests (lines output)) ∧
    ∀ answers, collectAnswers tag output requests = .ok answers →
      (∀ id value, answers[id]? = some value ↔
        ∃ line ∈ lines output, IsResult tag line id value) ∧
      ∀ output', (taggedLines tag output').Perm (taggedLines tag output) →
        ∃ answers', collectAnswers tag output' requests = .ok answers' ∧
          answers'.toList = answers.toList := by
  refine ⟨exists_collectAnswers_eq_ok_iff, fun answers h => ⟨?_, ?_⟩⟩
  · intro id value
    exact getElem?_of_collectAnswers h
  · intro output' hperm
    exact collectAnswers_eq_of_perm hperm h

example : ((collectAnswers "R" "R:1:inf\r\nready\nR:0:0.5\n" (.ofList [(0, []), (1, [])])).map
    (·.toList)).toOption = some [(0, .finite ⟨false, 5, 1, by decide, by decide⟩), (1, .infinite)] := by
  decide +kernel

end MarkovFit.Proofs
