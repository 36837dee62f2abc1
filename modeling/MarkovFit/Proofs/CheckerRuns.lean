import MarkovFit.Oracle.Checker
import MarkovFit.Proofs.Maps
import MarkovFit.Proofs.ResultLines

/-!
# Runs of a model checker

A checker that runs once for each request is run in the order of the numbers until a run prints no
value. What a run prints is decided by the first line with the marker, later ones are ignored. All
values are answers exactly if each run printed one, and a failure is that of the first run without a
value, after which nothing is started.
-/

namespace MarkovFit.Proofs

open Oracle Text

/-! ### What a run prints -/

/-- The line begins with the marker, apart from blanks. -/
def IsMarked (marker line : String) : Prop := ∃ rest, trim line = marker ++ rest

/-- The first line of a text that begins with the marker, and what follows the marker there. -/
structure FirstMarked (marker text line rest : String) : Prop where
  isFirst : ∃ before after, lines text = before ++ line :: after ∧
    ∀ other ∈ before, ¬IsMarked marker other
  trim_eq : trim line = marker ++ rest

/-- The first line with the marker goes on with the value, up to the next blank. -/
def PrintsValue (marker : String) (output : ProgramOutput) (value : Answer) : Prop :=
  ∃ line rest word, FirstMarked marker output.text line rest ∧ firstWord? rest = some word ∧
    Answer.read word = .ok value

/-- How a run fails that ends and prints no value: the first line with the marker does not go on
with a value, or there is no such line. -/
inductive RunFails (marker : String) (id : ℕ) (output : ProgramOutput) : Failure → Prop
  | noValue {line rest : String} (hline : FirstMarked marker output.text line rest)
      (hword : ∀ word value, firstWord? rest = some word → Answer.read word ≠ .ok value) :
      RunFails marker id output (.oracleProtocol (.unparseableResult (trim line)))
  | noMarker (h : ∀ line ∈ lines output.text, ¬IsMarked marker line) :
      RunFails marker id output (.oracleProtocol
        (.failedRun id output.status (trim output.text) (trim output.diagnostics)))

variable {marker text : String}

theorem stripFront?_eq_none_iff {line : String} :
    stripFront? marker (trim line) = none ↔ ¬IsMarked marker line := by
  rw [Option.eq_none_iff_forall_ne_some, IsMarked, not_exists]
  simp only [ne_eq, stripFront?_eq_some_iff]

/-- Without a word there is no value. -/
theorem read_firstWord_eq_ok_iff {rest : String} {value : Answer} :
    Answer.read ((firstWord? rest).getD "") = .ok value ↔
      ∃ word, firstWord? rest = some word ∧ Answer.read word = .ok value := by
  cases firstWord? rest with
  | none =>
    have hempty : (Answer.read "").toOption = none := by decide +kernel
    refine iff_of_false (fun h => ?_) nofun
    rw [Option.getD_none] at h
    rw [h] at hempty
    cases hempty
  | some word => simp

/-- The value behind the marker of a line. -/
def lineValue (line rest : String) : Except Failure Answer :=
  (Answer.read ((firstWord? rest).getD "")).mapError fun _ =>
    .oracleProtocol (.unparseableResult (trim line))

theorem readOutput?_eq (marker text : String) : readOutput? marker text =
    (lines text).findSome? fun line => (stripFront? marker (trim line)).map (lineValue line) := by
  unfold readOutput? lineValue
  refine congrArg (fun f => (lines text).findSome? f) (funext fun line => ?_)
  refine congrArg (fun f => (stripFront? marker (trim line)).map f) (funext fun rest => ?_)
  cases Answer.read ((firstWord? rest).getD "") <;> rfl

theorem readOutput?_eq_some_iff {result : Except Failure Answer} :
    readOutput? marker text = some result ↔
      ∃ line rest, FirstMarked marker text line rest ∧ lineValue line rest = result := by
  rw [readOutput?_eq, List.findSome?_eq_some_iff]
  simp only [Option.map_eq_none_iff, Option.map_eq_some_iff, stripFront?_eq_none_iff,
    stripFront?_eq_some_iff]
  constructor
  · rintro ⟨before, line, after, hlines, ⟨rest, hrest, hresult⟩, hbefore⟩
    exact ⟨line, rest, ⟨⟨before, after, hlines, hbefore⟩, hrest⟩, hresult⟩
  · rintro ⟨line, rest, ⟨⟨before, after, hlines, hbefore⟩, hrest⟩, hresult⟩
    exact ⟨before, line, after, hlines, ⟨rest, hrest, hresult⟩, hbefore⟩

theorem readOutput?_eq_none_iff :
    readOutput? marker text = none ↔ ∀ line ∈ lines text, ¬IsMarked marker line := by
  rw [readOutput?_eq, List.findSome?_eq_none_iff]
  simp only [Option.map_eq_none_iff, stripFront?_eq_none_iff]

theorem lineValue_eq_ok_iff {line rest : String} {value : Answer} :
    lineValue line rest = .ok value ↔
      ∃ word, firstWord? rest = some word ∧ Answer.read word = .ok value :=
  mapError_eq_ok.trans read_firstWord_eq_ok_iff

theorem lineValue_eq_error_iff {line rest : String} {e : Failure} :
    lineValue line rest = .error e ↔
      (∀ word value, firstWord? rest = some word → Answer.read word ≠ .ok value) ∧
        e = .oracleProtocol (.unparseableResult (trim line)) := by
  have hword : (∀ word value, firstWord? rest = some word → Answer.read word ≠ .ok value) ↔
      ∀ value, Answer.read ((firstWord? rest).getD "") ≠ .ok value := by
    simp only [ne_eq, read_firstWord_eq_ok_iff, not_exists, not_and]
    exact forall_comm
  rw [hword, lineValue]
  cases Answer.read ((firstWord? rest).getD "") with
  | error text => simp [Except.mapError, eq_comm]
  | ok value => simp [Except.mapError]

theorem printsValue_iff {output : ProgramOutput} {value : Answer} :
    PrintsValue marker output value ↔ readOutput? marker output.text = some (.ok value) := by
  rw [readOutput?_eq_some_iff]
  simp only [lineValue_eq_ok_iff, PrintsValue]
  exact exists₂_congr fun line rest => exists_and_left

/-! ### The end of a run -/

section run

variable {c : Checker} {spec : ModelSpec} {id : ℕ} {output : ProgramOutput}

theorem readOutcome_eq_ok_iff {value : Answer} :
    c.readOutcome spec id (.finished output) = .ok value ↔ PrintsValue c.marker output value := by
  rw [printsValue_iff, Checker.readOutcome]
  cases readOutput? c.marker output.text with
  | none => exact iff_of_false nofun nofun
  | some result => simp

theorem readOutcome_eq_error_iff {e : Failure} :
    c.readOutcome spec id (.finished output) = .error e ↔ RunFails c.marker id output e := by
  rw [Checker.readOutcome]
  constructor
  · intro h
    cases hread : readOutput? c.marker output.text with
    | none =>
      rw [hread] at h
      cases h
      exact .noMarker (readOutput?_eq_none_iff.1 hread)
    | some result =>
      rw [hread, Option.getD_some] at h
      obtain ⟨line, rest, hline, hvalue⟩ := readOutput?_eq_some_iff.1 hread
      obtain ⟨hword, rfl⟩ := lineValue_eq_error_iff.1 (hvalue.trans h)
      exact .noValue hline hword
  · rintro (⟨hline, hword⟩ | h)
    · rw [readOutput?_eq_some_iff.2 ⟨_, _, hline, lineValue_eq_error_iff.2 ⟨hword, rfl⟩⟩]
      rfl
    · rw [readOutput?_eq_none_iff.2 h]
      rfl

theorem not_runFails_of_printsValue {value : Answer} {e : Failure}
    (h : PrintsValue c.marker output value) : ¬RunFails c.marker id output e := by
  intro hfails
  have hok : c.readOutcome {} id (.finished output) = .ok value := readOutcome_eq_ok_iff.2 h
  rw [readOutcome_eq_error_iff.2 hfails] at hok
  cases hok

end run

/-! ### All runs of a call -/

/-- A host where every program starts and ends, and the run with each number leaves what is given
for it. The runs are written to a log. -/
def printing (readable : String → Bool) (outputs : ℕ → ProgramOutput) :
    Host (StateM (List Invocation)) where
  readable := readable
  scratch := ""
  run i := fun started => (.finished (outputs started.length), started ++ [i])
  serve _ := .error ""

section runs

variable {c : Checker} {readable : String → Bool} {outputs : ℕ → ProgramOutput} {spec : ModelSpec}
  {model : ModelSpec.Required} {answers : Answers} {id : ℕ} {sample : List Constant}
  {calls : List (ℕ × List Constant)} {started : List Invocation}

/-- After a run with a value the next request is run. -/
theorem checkAll_of_printsValue {value : Answer}
    (h : PrintsValue c.marker (outputs started.length) value) :
    c.checkAll (printing readable outputs) spec model answers ((id, sample) :: calls) started =
      c.checkAll (printing readable outputs) spec model (answers.insert id value) calls
        (started ++ [c.invocation spec model sample]) := by
  rw [Checker.checkAll]
  have hread : c.readOutcome spec id (.finished (outputs started.length)) = .ok value :=
    readOutcome_eq_ok_iff.2 h
  simp only [bind, StateT.bind, printing, hread]

/-- A run without a value is the last one. -/
theorem checkAll_of_runFails {e : Failure} (h : RunFails c.marker id (outputs started.length) e) :
    c.checkAll (printing readable outputs) spec model answers ((id, sample) :: calls) started =
      (.error e, started ++ [c.invocation spec model sample]) := by
  rw [Checker.checkAll]
  have hread : c.readOutcome spec id (.finished (outputs started.length)) = .error e :=
    readOutcome_eq_error_iff.2 h
  simp only [bind, StateT.bind, printing, hread]
  rfl

variable (c spec model) in
/-- The invocations of some requests. -/
def invocations (calls : List (ℕ × List Constant)) : List Invocation :=
  calls.map fun request => c.invocation spec model request.2

/-- From a state on, each request is run and gets the value that its run prints. -/
structure AllAnswered (c : Checker) (outputs : ℕ → ProgramOutput) (spec : ModelSpec)
    (model : ModelSpec.Required) (calls : List (ℕ × List Constant)) (answers answers' : Answers)
    (started started' : List Invocation) : Prop where
  started_eq : started' = started ++ invocations c spec model calls
  answered : ∀ x ∈ calls.zipIdx started.length,
    ∃ value, PrintsValue c.marker (outputs x.2) value ∧ answers'[x.1.1]? = some value
  others : ∀ id ∉ calls.map Prod.fst, answers'[id]? = answers[id]?

/-- From a state on, the requests are run up to the first one whose run prints no value. -/
structure StopsAtFailure (c : Checker) (outputs : ℕ → ProgramOutput) (spec : ModelSpec)
    (model : ModelSpec.Required) (calls before : List (ℕ × List Constant)) (id : ℕ) (e : Failure)
    (started started' : List Invocation) : Prop where
  calls_eq : ∃ sample after, calls = before ++ (id, sample) :: after ∧
    started' = started ++ invocations c spec model (before ++ [(id, sample)])
  answered : ∀ x ∈ before.zipIdx started.length, ∃ value, PrintsValue c.marker (outputs x.2) value
  fails : RunFails c.marker id (outputs (started.length + before.length)) e

variable (c readable outputs spec model) in
/-- What the loop does from any state. -/
theorem checkAll_cases (answers : Answers) (started : List Invocation)
    (hnodup : (calls.map Prod.fst).Nodup) :
    (∃ answers' started', c.checkAll (printing readable outputs) spec model answers calls started =
        (.ok answers', started') ∧
      AllAnswered c outputs spec model calls answers answers' started started') ∨
    ∃ before id e started',
      c.checkAll (printing readable outputs) spec model answers calls started =
        (.error e, started') ∧
      StopsAtFailure c outputs spec model calls before id e started started' := by
  -- An answer stays as it is, as no later request has its number.
  induction calls generalizing answers started with
  | nil =>
    refine .inl ⟨answers, started, rfl, ?_, nofun, fun id _ => rfl⟩
    simp [invocations]
  | cons request calls ih =>
    obtain ⟨id, sample⟩ := request
    rw [List.map_cons, List.nodup_cons] at hnodup
    have hlength : (started ++ [c.invocation spec model sample]).length = started.length + 1 := by
      simp
    cases hread : c.readOutcome spec id (.finished (outputs started.length)) with
    | error e =>
      have hfails := readOutcome_eq_error_iff.1 hread
      refine .inr ⟨[], id, e, _, checkAll_of_runFails hfails, ?_, nofun, hfails⟩
      exact ⟨sample, calls, rfl, rfl⟩
    | ok value =>
      have hprints := readOutcome_eq_ok_iff.1 hread
      rw [checkAll_of_printsValue hprints]
      obtain ⟨answers', started', hrun, hall⟩ | ⟨before, id', e, started', hrun, hstops⟩ :=
        ih (answers.insert id value) (started ++ [c.invocation spec model sample]) hnodup.2
      · refine .inl ⟨answers', started', hrun, ?_, ?_, ?_⟩
        · rw [hall.started_eq, List.append_assoc]
          rfl
        · rw [List.zipIdx_cons, List.forall_mem_cons]
          constructor
          · refine ⟨value, hprints, ?_⟩
            rw [hall.others id hnodup.1]
            exact Std.TreeMap.getElem?_insert_self
          · rw [← hlength]
            exact hall.answered
        · intro other hother
          rw [List.map_cons, List.mem_cons, not_or] at hother
          rw [hall.others other hother.2, Std.TreeMap.getElem?_insert, if_neg]
          simpa using Ne.symm hother.1
      · obtain ⟨sample', after, rfl, hstarted⟩ := hstops.calls_eq
        refine .inr ⟨(id, sample) :: before, id', e, started', hrun, ?_, ?_, ?_⟩
        · refine ⟨sample', after, rfl, ?_⟩
          rw [hstarted, List.append_assoc]
          rfl
        · rw [List.zipIdx_cons, List.forall_mem_cons, ← hlength]
          exact ⟨⟨value, hprints⟩, hstops.answered⟩
        · have hplace := hstops.fails
          rwa [hlength, Nat.add_right_comm, Nat.add_assoc] at hplace

theorem AllAnswered.mem_iff {answers' : Answers} {started' : List Invocation}
    (h : AllAnswered c outputs spec model calls answers answers' started started') :
    id ∈ answers' ↔ id ∈ answers ∨ id ∈ calls.map Prod.fst := by
  by_cases hid : id ∈ calls.map Prod.fst
  · refine iff_of_true ?_ (.inr hid)
    obtain ⟨request, hrequest, rfl⟩ := List.mem_map.1 hid
    rw [← List.zipIdx_map_fst started.length calls, List.mem_map] at hrequest
    obtain ⟨x, hx, rfl⟩ := hrequest
    obtain ⟨value, -, hvalue⟩ := h.answered x hx
    exact mem_iff_exists_getElem?.2 ⟨value, hvalue⟩
  · rw [mem_iff_exists_getElem?, h.others id hid, ← mem_iff_exists_getElem?]
    simp [hid]

/-- A run that was stopped by a failure has run the requests with numbers up to the failing one. -/
theorem StopsAtFailure.filter_eq {before : List (ℕ × List Constant)} {e : Failure}
    {started' : List Invocation}
    (h : StopsAtFailure c outputs spec model calls before id e started started')
    (hsorted : calls.Pairwise fun a b => a.1 < b.1) :
    started' =
      started ++ invocations c spec model (calls.filter fun request => request.1 ≤ id) := by
  obtain ⟨sample, after, rfl, rfl⟩ := h.calls_eq
  obtain ⟨-, htail, hbefore⟩ := List.pairwise_append.1 hsorted
  rw [List.filter_append, List.filter_cons_of_pos (by simp), List.filter_eq_self.2,
    List.filter_eq_nil_iff.2]
  · intro request hrequest
    have hlt := (List.pairwise_cons.1 htail).1 request hrequest
    simpa using hlt
  · intro request hrequest
    have hlt := hbefore request hrequest _ List.mem_cons_self
    simpa using hlt.le

/-- The runs before the failing one are those of smaller numbers. -/
theorem StopsAtFailure.prints_of_lt {before : List (ℕ × List Constant)} {e : Failure}
    {started' : List Invocation}
    (h : StopsAtFailure c outputs spec model calls before id e started started')
    (hsorted : calls.Pairwise fun a b => a.1 < b.1) {x : (ℕ × List Constant) × ℕ}
    (hx : x ∈ calls.zipIdx started.length) (hlt : x.1.1 < id) :
    ∃ value, PrintsValue c.marker (outputs x.2) value := by
  obtain ⟨sample, after, rfl, -⟩ := h.calls_eq
  obtain ⟨-, htail, -⟩ := List.pairwise_append.1 hsorted
  rw [List.zipIdx_append, List.mem_append] at hx
  rcases hx with hx | hx
  · exact h.answered x hx
  · rcases List.mem_cons.1 (List.fst_mem_of_mem_zipIdx hx) with heq | hafter
    · exact absurd hlt (by rw [heq]; exact Nat.lt_irrefl id)
    · exact absurd hlt (Nat.lt_asymm ((List.pairwise_cons.1 htail).1 _ hafter))

end runs

/-! ### Storm and PRISM -/

/-- The checkers, each with the option in front of the constants. -/
inductive IsChecker : Checker → String → Prop
  | storm : IsChecker storm "--constants"
  | prism (simulation : Simulation) : IsChecker (prism simulation) "-const"

theorem optional_assignment {flag : String} {constants : List Constant} (h : constants ≠ []) :
    optional flag (assignment? constants) = [flag, Constant.listText constants] := by
  rw [assignment?, if_neg (by simpa using h)]
  rfl

/-- The constants of the model and those of the request stand on the command line, in this order. -/
theorem constants_infix {c : Checker} {flag : String} (hc : IsChecker c flag)
    (spec : ModelSpec) (model : ModelSpec.Required) {sample : List Constant}
    (h : spec.constants ++ sample ≠ []) :
    [flag, Constant.listText (spec.constants ++ sample)] <:+:
      (c.invocation spec model sample).arguments := by
  cases hc with
  | storm =>
    simp only [Checker.invocation, storm, optional_assignment h]
    exact List.infix_append _ _ _
  | prism simulation =>
    simp only [Checker.invocation, prism, optional_assignment h]
    rw [List.append_assoc]
    exact List.infix_append _ _ _

/-- A call runs the checker for each request, in the order of the numbers. It succeeds exactly if
each run prints a value, and then the answers are these values. Otherwise it fails as the run with
the smallest number that prints none does, and nothing is run after that. Each run has the constants
of the model and those of its request on the command line. -/
theorem check_runs_until_failure {c : Checker} {flag : String} (hc : IsChecker c flag)
    {spec : ModelSpec} {readable : String → Bool} {model : ModelSpec.Required}
    (hmodel : spec.require readable = .ok model) (outputs : ℕ → ProgramOutput)
    (requests : Requests) :
    ∃ result started, (c.oracle (printing readable outputs) spec).check requests [] =
        (result, started) ∧
      ((∃ answers, result = .ok answers) ↔ ∀ k request, requests.toList[k]? = some request →
        ∃ value, PrintsValue c.marker (outputs k) value) ∧
      (∀ answers, result = .ok answers →
        started = invocations c spec model requests.toList ∧
        (∀ id, id ∈ answers ↔ id ∈ requests) ∧
        ∀ k id sample, requests.toList[k]? = some (id, sample) →
          ∃ value, PrintsValue c.marker (outputs k) value ∧ answers[id]? = some value) ∧
      (∀ e, result = .error e → ∃ k id sample, requests.toList[k]? = some (id, sample) ∧
        RunFails c.marker id (outputs k) e ∧
        (∀ j request, requests.toList[j]? = some request → request.1 < id →
          ∃ value, PrintsValue c.marker (outputs j) value) ∧
        started =
          invocations c spec model (requests.toList.filter fun request => request.1 ≤ id)) ∧
      ∀ sample, spec.constants ++ sample ≠ [] →
        [flag, Constant.listText (spec.constants ++ sample)] <:+:
          (c.invocation spec model sample).arguments := by
  have hcheck : (c.oracle (printing readable outputs) spec).check requests [] =
      c.checkAll (printing readable outputs) spec model ∅ requests.toList [] := by
    have hsame : spec.require (printing readable outputs).readable = .ok model := hmodel
    simp only [Checker.oracle, hsame]
  have hsorted : requests.toList.Pairwise fun a b => a.1 < b.1 := by
    simpa only [Nat.compare_eq_lt] using Std.TreeMap.ordered_keys_toList (t := requests)
  have hnodup : (requests.toList.map Prod.fst).Nodup := by
    rw [Std.TreeMap.map_fst_toList_eq_keys]
    exact Std.TreeMap.nodup_keys
  rw [hcheck]
  obtain ⟨answers, started, hrun, hall⟩ | ⟨before, id, e, started, hrun, hstops⟩ :=
    checkAll_cases c readable outputs spec model ∅ [] hnodup
  · have hanswered : ∀ k request, requests.toList[k]? = some request →
        ∃ value, PrintsValue c.marker (outputs k) value ∧ answers[request.1]? = some value := by
      intro k request hrequest
      exact hall.answered (request, k) (List.mem_zipIdx_iff_getElem?.2 hrequest)
    refine ⟨_, _, hrun, ?_, ?_, nofun, fun sample => constants_infix hc spec model⟩
    · refine iff_of_true ⟨answers, rfl⟩ fun k request hrequest => ?_
      obtain ⟨value, hvalue, -⟩ := hanswered k request hrequest
      exact ⟨value, hvalue⟩
    · rintro _ ⟨⟩
      refine ⟨hall.started_eq, fun id => ?_, fun k id sample => hanswered k (id, sample)⟩
      rw [hall.mem_iff, Std.TreeMap.map_fst_toList_eq_keys, Std.TreeMap.mem_keys]
      simp
  · refine ⟨_, _, hrun, ?_, nofun, ?_, fun sample => constants_infix hc spec model⟩
    · refine iff_of_false nofun fun hprints => ?_
      obtain ⟨sample, after, hcalls, -⟩ := hstops.calls_eq
      obtain ⟨value, hvalue⟩ := hprints before.length (id, sample) (by simp [hcalls])
      have hfails := hstops.fails
      rw [List.length_nil, Nat.zero_add] at hfails
      exact not_runFails_of_printsValue hvalue hfails
    · rintro _ ⟨⟩
      obtain ⟨sample, after, hcalls, -⟩ := hstops.calls_eq
      refine ⟨before.length, id, sample, by simp [hcalls], ?_, ?_, hstops.filter_eq hsorted⟩
      · simpa using hstops.fails
      · intro j request hrequest
        have hmem : (request, j) ∈ requests.toList.zipIdx := List.mem_zipIdx_iff_getElem?.2 hrequest
        exact hstops.prints_of_lt hsorted hmem

def coinSpec : ModelSpec where
  file := some "coin.pm"
  type := some .prism
  property := some "P=? [F heads]"
  constants := [⟨"N", "3"⟩]

def coinModel : ModelSpec.Required := ⟨"coin.pm", .prism, "P=? [F heads]"⟩

/-- What three runs print: a value, a marker without a value in front of another one with a value,
and a value. -/
def threeOutputs (k : ℕ) : ProgramOutput where
  stdout := (if k = 1 then "Result: \nResult: 1" else "  Result: 0.5 (exact)").toUTF8.toList

def threeRequests : Requests :=
  Std.TreeMap.ofList [(2, [Constant.mk "p" "0.1"]), (5, [⟨"p", "0.2"⟩]), (9, [⟨"p", "0.3"⟩])]

/-- The second run is the last one, as its first marker has no value. -/
theorem secondRun_fails :
    ∃ e started k id, ((prism {}).oracle (printing (fun _ => true) threeOutputs) coinSpec).check
        threeRequests [] = (.error e, started) ∧ RunFails "Result:" id (threeOutputs k) e ∧
      started = invocations (prism {}) coinSpec coinModel
        [(2, [⟨"p", "0.1"⟩]), (5, [⟨"p", "0.2"⟩])] ∧
      ∀ i ∈ started, "-const" ∈ i.arguments := by
  have hmodel : coinSpec.require (fun _ => true) = .ok coinModel := rfl
  obtain ⟨result, started, hcheck, -, -, herror, hconstants⟩ :=
    check_runs_until_failure (.prism {}) hmodel threeOutputs threeRequests
  have hfailed : (((prism {}).oracle (printing (fun _ => true) threeOutputs) coinSpec).check
      threeRequests []).1.toOption = none := by decide +kernel
  have hstarted : (((prism {}).oracle (printing (fun _ => true) threeOutputs) coinSpec).check
      threeRequests []).2 = invocations (prism {}) coinSpec coinModel
        [(2, [⟨"p", "0.1"⟩]), (5, [⟨"p", "0.2"⟩])] := by decide +kernel
  rw [hcheck] at hfailed hstarted
  cases result with
  | ok answers => cases hfailed
  | error e =>
    obtain ⟨k, id, sample, -, hfails, -, -⟩ := herror e rfl
    refine ⟨e, started, k, id, hcheck, hfails, hstarted, ?_⟩
    intro i hi
    rw [show started = _ from hstarted] at hi
    obtain ⟨request, -, rfl⟩ := List.mem_map.1 hi
    exact (hconstants request.2 (by simp [coinSpec])).subset List.mem_cons_self

end MarkovFit.Proofs
