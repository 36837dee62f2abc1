import MarkovFit.Proofs.FailureKinds
import MarkovFit.Proofs.SampledBox
import MarkovFit.Proofs.SearchRun

/-!
# Direct runs

A direct run starts its oracle, asks it one point after another and stops it once, also when the
search has failed. The calls are those of any oracle, with any answers and any failures. What the run
returns is read off the calls: where the best answer was given, or which call has failed.
-/

namespace MarkovFit.Proofs

open Sampling Search

/-! ### Draws that stay in range -/

section Draws

variable {γ : Type} [RandomSource γ] {ps : List Parameter} {source : γ}

/-- The source when some more words have been read. -/
def wordsLater (count : ℕ) (source : γ) : γ := (fun rest => (RandomSource.next rest).2)^[count] source

/-- No sample leaves the range of the decimals, from wherever in the source it is drawn. -/
def StaysInRange (ps : List Parameter) (source : γ) : Prop :=
  ∀ count fault, drawSample ps (wordsLater count source) ≠ .error (.fault fault)

theorem StaysInRange.later (h : StaysInRange ps source) (count : ℕ) :
    StaysInRange ps (wordsLater count source) := by
  intro count' fault
  rw [wordsLater, wordsLater, ← Function.iterate_add_apply]
  exact h (count' + count) fault

/-- A word is read for each parameter, and every value lies in its interval. -/
theorem of_drawValues {values : List Decimal} {rest : γ}
    (h : drawValues ps source = .ok (values, rest)) :
    InBox ps values ∧ rest = wordsLater ps.length source := by
  induction ps generalizing source values with
  | nil =>
    cases h
    exact ⟨.nil, rfl⟩
  | cons p ps ih =>
    simp only [drawValues, drawValue, bind_eq_ok] at h
    obtain ⟨_, ⟨v, hv, hpair⟩, ⟨values', rest'⟩, hvalues, hresult⟩ := h
    cases hpair
    cases hresult
    obtain ⟨hbox, hrest⟩ := ih hvalues
    have hlow : 0 ≤ (fraction (RandomSource.next source).1).toRat := (fraction_bounds _).1
    exact ⟨.cons (contains_of_valueAt hlow hv) hbox, hrest⟩

theorem exists_drawCandidate (h : StaysInRange ps source) :
    ∃ c rest, drawCandidate ps source = .ok (c, rest) ∧ StaysInRange ps rest := by
  cases hvalues : drawValues ps source with
  | error e =>
    obtain ⟨fault, rfl⟩ := failsOnly_drawValues ps source e hvalues
    have hfault : drawSample ps source = .error (.fault fault) := by
      rw [drawSample, hvalues]
      rfl
    exact absurd hfault (h 0 fault)
  | ok drawn =>
    obtain ⟨values, rest⟩ := drawn
    obtain ⟨hbox, rfl⟩ := of_drawValues hvalues
    obtain ⟨sample, hsample⟩ := exists_ofValues_iff.2 hbox
    refine ⟨.ofSample sample, _, ?_, h.later ps.length⟩
    simp only [drawCandidate, drawSample, bind_eq_ok]
    exact ⟨(sample, _), ⟨(values, _), hvalues, sample, hsample, rfl⟩, rfl⟩

theorem exists_redraw (h : StaysInRange ps source) (rejects : Candidate → Bool) (limit : ℕ)
    (c : Candidate) :
    ∃ c' rest, redraw ps rejects limit c source = .ok (c', rest) ∧ StaysInRange ps rest := by
  induction limit generalizing c source with
  | zero => exact ⟨c, source, rfl, h⟩
  | succ limit ih =>
    rw [redraw]
    split
    · obtain ⟨c', rest, hdraw, hrest⟩ := exists_drawCandidate h
      obtain ⟨c'', rest', hredraw, hrest'⟩ := ih hrest c'
      exact ⟨c'', rest', bind_eq_ok.2 ⟨(c', rest), hdraw, hredraw⟩, hrest'⟩
    · exact ⟨c, source, rfl, h⟩

theorem exists_next {s : Search} {state : SearchState γ}
    (h : StaysInRange s.parameters state.source) :
    ∃ c rest, s.next state = .ok (c, rest) ∧ StaysInRange s.parameters rest := by
  obtain ⟨c, rest, hdraw, hrest⟩ := exists_drawCandidate h
  have hlater : StaysInRange s.parameters (RandomSource.unit53 rest).2 := hrest.later 1
  simp only [next, propose, bind_eq_ok]
  by_cases hexploits : (RandomSource.unit53 rest).1 > s.exploration
  · obtain ⟨c', rest', hredraw, hrest'⟩ := exists_redraw hlater
      (fun c => envelope state.seen state.constant c.point < state.best.value)
      s.exploitationLimit c
    exact ⟨c', rest', ⟨(c, rest), hdraw, by rw [if_pos hexploits]; exact hredraw⟩, hrest'⟩
  · exact ⟨c, _, ⟨(c, rest), hdraw, by rw [if_neg hexploits]; rfl⟩, hlater⟩

/-- Parameters whose widths fit can be drawn from every source. -/
theorem staysInRange_of_drawsFit (h : ∀ p ∈ ps, DrawsFit p) (source : γ) :
    StaysInRange ps source := by
  intro count fault hfault
  obtain ⟨values, rest, hvalues, hbox⟩ := exists_drawValues h (wordsLater count source)
  obtain ⟨sample, hsample⟩ := exists_ofValues_iff.2 hbox
  have hdrawn : drawSample ps (wordsLater count source) = .ok (sample, rest) :=
    bind_eq_ok.2 ⟨(values, rest), hvalues, bind_eq_ok.2 ⟨sample, hsample, rfl⟩⟩
  rw [hdrawn] at hfault
  cases hfault

end Draws

/-! ### Calls of an oracle -/

/-- A question with the answer, or with the failure to answer. -/
structure Query where
  point : List Constant
  result : Except Failure Answer

/-- A call of an interactive oracle with its result. -/
inductive OracleCall where
  | start (result : Except Failure Unit)
  | check (query : Query)
  | stop (result : Except Failure Unit)

variable {σ : Type}

/-- The oracle, with its calls written to a log. -/
def logged (oracle : InteractiveOracle (StateM σ)) :
    InteractiveOracle (StateM (List OracleCall × σ)) where
  start := fun (log, state) =>
    let (result, state) := oracle.start state
    (result, log ++ [.start result], state)
  check point := fun (log, state) =>
    let (result, state) := oracle.check point state
    (result, log ++ [.check ⟨point, result⟩], state)
  stop := fun (log, state) =>
    let (result, state) := oracle.stop state
    (result, log ++ [.stop result], state)

def Exchange.query (x : Exchange) : Query := ⟨x.point, .ok (.finite x.answer)⟩

/-- What a search returns after these queries: only the last one may lack a finite answer. -/
inductive SearchEnds : List Query → Except Failure SearchOutcome → Prop
  | failed (history : List Exchange) (point : List Constant) (e : Failure) :
      SearchEnds (history.map Exchange.query ++ [⟨point, .error e⟩]) (.error e)
  | infinite (history : List Exchange) (point : List Constant) :
      SearchEnds (history.map Exchange.query ++ [⟨point, .ok .infinite⟩]) (.ok (.infinite point))
  | optimum (history : List Exchange) {value : Decimal} {point : List Constant} {iteration : ℕ}
      (hbest : history[iteration]? = some ⟨point, value⟩) :
      SearchEnds (history.map Exchange.query)
        (.ok (.optimum value point iteration history.length))

/-- The calls of a run that was started: the queries stand between the start and the stop. -/
def startedCalls (queries : List Query) (stopped : Except Failure Unit) : List OracleCall :=
  OracleCall.start (.ok ()) :: (queries.map OracleCall.check ++ [OracleCall.stop stopped])

/-- The calls of a direct run with at most `limit` queries, and what it returns. -/
inductive DirectRun (limit : ℕ) (direction : Direction) :
    List OracleCall → Except Failure SearchReport → Prop
  | notStarted (e : Failure) : DirectRun limit direction [.start (.error e)] (.error e)
  | searchFailed {queries : List Query} {e : Failure} (hlimit : queries.length ≤ limit)
      (hsearch : SearchEnds queries (.error e)) (stopped : Except Failure Unit) :
      DirectRun limit direction (startedCalls queries stopped) (.error e)
  | stopFailed {queries : List Query} {outcome : SearchOutcome} (hlimit : queries.length ≤ limit)
      (hsearch : SearchEnds queries (.ok outcome)) (e : Failure) :
      DirectRun limit direction (startedCalls queries (.error e)) (.error e)
  | finished {queries : List Query} {outcome : SearchOutcome} (hlimit : queries.length ≤ limit)
      (hsearch : SearchEnds queries (.ok outcome)) :
      DirectRun limit direction (startedCalls queries (.ok ())) (.ok ⟨direction, outcome⟩)

/-! ### Searches -/

/-- With these queries behind them, both searches end alike, the second one with its queries in the
log. -/
def SearchesOn (history : List Exchange) (limit : ℕ)
    (plain : StateM σ (Except Failure SearchOutcome))
    (recorded : StateM (List OracleCall × σ) (Except Failure SearchOutcome)) : Prop :=
  ∀ log state, ∃ later : List Query,
    recorded (log, state) = ((plain state).1, log ++ later.map .check, (plain state).2) ∧
      SearchEnds (history.map Exchange.query ++ later) (plain state).1 ∧ later.length ≤ limit

variable {oracle : InteractiveOracle (StateM σ)} {history : List Exchange} {limit : ℕ}

theorem searchesOn_outcome {γ : Type} {s : Search} {state : SearchState γ}
    (h : Incumbency s history state) :
    SearchesOn history limit (σ := σ) (pure (.ok (outcome state)))
      (pure (.ok (outcome state))) := by
  intro log st
  have hbest : history[state.best.iteration]? =
      some ⟨state.best.sample.toConstants, state.best.raw⟩ := by
    have hpoint := h.point
    have hanswer := h.firstBest.answered
    rw [List.getElem?_map, Option.map_eq_some_iff] at hpoint hanswer
    obtain ⟨x, hx, hpoint⟩ := hpoint
    obtain ⟨y, hy, hanswer⟩ := hanswer
    cases hx.symm.trans hy
    rw [hx, ← hpoint, ← hanswer]
  refine ⟨[], by rw [List.map_nil, List.append_nil]; rfl, ?_, Nat.zero_le _⟩
  rw [List.append_nil]
  change SearchEnds _ (.ok (.optimum _ _ _ state.queries))
  rw [h.queries]
  exact .optimum history hbest

/-- A query ends the search or is answered by a number, with which it goes on. -/
theorem searchesOn_check {point : List Constant}
    {next : Decimal → StateM σ (Except Failure SearchOutcome)}
    {next' : Decimal → StateM (List OracleCall × σ) (Except Failure SearchOutcome)}
    (h : ∀ raw, SearchesOn (history ++ [⟨point, raw⟩]) limit (next raw) (next' raw)) :
    SearchesOn history (limit + 1)
      (do
        match ← oracle.check point with
        | .error e => return .error e
        | .ok .infinite => return .ok (.infinite point)
        | .ok (.finite raw) => next raw)
      (do
        match ← (logged oracle).check point with
        | .error e => return .error e
        | .ok .infinite => return .ok (.infinite point)
        | .ok (.finite raw) => next' raw) := by
  intro log st
  simp only [bind, StateT.bind, logged]
  cases hcheck : oracle.check point st with
  | mk answer after =>
    match answer with
    | .error e => exact ⟨[⟨point, .error e⟩], rfl, .failed history point e, Nat.le_add_left 1 limit⟩
    | .ok .infinite =>
      exact ⟨[⟨point, .ok .infinite⟩], rfl, .infinite history point, Nat.le_add_left 1 limit⟩
    | .ok (.finite raw) =>
      obtain ⟨later, hlog, hends, hlater⟩ :=
        h raw (log ++ [.check ⟨point, .ok (.finite raw)⟩]) after
      refine ⟨⟨point, .ok (.finite raw)⟩ :: later, ?_, ?_, Nat.succ_le_succ hlater⟩
      · rw [List.map_cons, List.append_cons]
        exact hlog
      · rw [List.append_cons]
        rwa [List.map_append] at hends

variable {γ : Type} [RandomSource γ] {s : Search}

theorem searchesOn_proceed {state : SearchState γ} (h : Incumbency s history state)
    (hdraws : StaysInRange s.parameters state.source) (queries : ℕ) :
    SearchesOn history queries (s.proceed oracle queries state)
      (s.proceed (logged oracle) queries state) := by
  induction queries generalizing state history with
  | zero => exact searchesOn_outcome h
  | succ queries ih =>
    rw [proceed, proceed]
    split
    · obtain ⟨c, rest, hnext, hrest⟩ := exists_next hdraws
      rw [hnext]
      exact searchesOn_check fun raw => ih (h.record c raw rest) hrest
    · exact searchesOn_outcome h

theorem searchesOn_run (oracle : InteractiveOracle (StateM σ)) {source : γ}
    (hdraws : StaysInRange s.parameters source) :
    SearchesOn [] (max 1 s.rule.iterationLimit) (s.run oracle source)
      (s.run (logged oracle) source) := by
  have hlimit : max 1 s.rule.iterationLimit = s.rule.iterationLimit - 1 + 1 := by omega
  obtain ⟨c, rest, hdraw, hrest⟩ := exists_drawCandidate hdraws
  rw [run, run, hdraw, hlimit]
  exact searchesOn_check fun raw => searchesOn_proceed (incumbency_begin c raw rest) hrest _

/-! ### Runs -/

theorem directRun_of_searchEnds {queries : List Query} {searched : Except Failure SearchOutcome}
    {direction : Direction} (hlimit : queries.length ≤ limit) (h : SearchEnds queries searched)
    (stopped : Except Failure Unit) :
    DirectRun limit direction (startedCalls queries stopped)
      ((conclude searched stopped).map fun outcome => ⟨direction, outcome⟩) := by
  cases searched with
  | error e => exact .searchFailed hlimit h stopped
  | ok outcome =>
    cases stopped with
    | error e => exact .stopFailed hlimit h e
    | ok => exact .finished hlimit h

theorem exists_calls_of_bracket (oracle : InteractiveOracle (StateM σ)) {source : γ}
    (hdraws : StaysInRange s.parameters source) (direction : Direction) (state : σ) :
    ∃ log, s.bracket (logged oracle) source ([], state) =
        ((s.bracket oracle source state).1, log, (s.bracket oracle source state).2) ∧
      DirectRun (max 1 s.rule.iterationLimit) direction log
        ((s.bracket oracle source state).1.map fun outcome => ⟨direction, outcome⟩) := by
  simp only [bracket, bind, StateT.bind]
  cases hstart : oracle.start state with
  | mk started running =>
    have hlogged : (logged oracle).start ([], state) = (started, [.start started], running) := by
      simp only [logged, hstart]
      rfl
    rw [hlogged]
    match started with
    | .error e => exact ⟨_, rfl, .notStarted e⟩
    | .ok () =>
      obtain ⟨queries, hlog, hends, hlimit⟩ :=
        searchesOn_run oracle hdraws [.start (.ok ())] running
      simp only [StateT.bind, hlog]
      exact ⟨_, rfl, directRun_of_searchEnds hlimit hends _⟩

theorem makeSearch_eq_ok {settings : Settings} {parameters : List Parameter}
    (hparameters : settings.parameterSpace = .ok parameters) (hne : parameters ≠ []) :
    settings.makeSearch = .ok ⟨parameters, settings.search.direction, settings.search.exploration,
      settings.search.exploitationLimit, .ofSettings settings.search⟩ := by
  have hnonempty : ¬parameters.isEmpty = true := fun h => hne (List.isEmpty_iff.1 h)
  refine bind_eq_ok.2 ⟨parameters, hparameters, ?_⟩
  rw [Search.make, if_neg hnonempty]

/-- For all settings over parameters that can be drawn, and for every oracle: a run calls the oracle
as it should and returns what the calls ask for. The log changes nothing. -/
theorem optimize_follows_protocol {settings : Settings} {parameters : List Parameter}
    (hparameters : settings.parameterSpace = .ok parameters) (hne : parameters ≠ [])
    {source : γ} (hdraws : StaysInRange parameters source)
    (oracle : InteractiveOracle (StateM σ)) (state : σ) :
    ∃ log result after,
      settings.optimizeWith oracle source state = (result, after) ∧
      settings.optimizeWith (logged oracle) source ([], state) = (result, log, after) ∧
      DirectRun
        (max 1 (settings.search.iterationLimit.getD StoppingRule.defaultIterationLimit))
        settings.search.direction log result := by
  obtain ⟨log, hlogged, hrun⟩ := exists_calls_of_bracket
    (s := ⟨parameters, settings.search.direction, settings.search.exploration,
      settings.search.exploitationLimit, .ofSettings settings.search⟩)
    oracle hdraws settings.search.direction state
  rw [Settings.optimizeWith, Settings.optimizeWith, makeSearch_eq_ok hparameters hne]
  refine ⟨log, _, _, rfl, ?_, hrun⟩
  simp only [bind, StateT.bind]
  rw [hlogged]
  rfl

/-- An optimum over the unit interval is searched with three queries at most. -/
def threeQueries : Settings where
  parameters := [⟨"p", .zero, .one⟩]
  search := { exploration := Double.ofNat 1, iterationLimit := some 3 }

/-- The parameters of `threeQueries`. -/
def unitInterval : List Parameter := (Parameter.make "p" .zero .one).toOption.toList

/-- An oracle that counts its answers: the first one is a number, the others are infinite. It cannot
be stopped. -/
def stubborn : InteractiveOracle (StateM ℕ) where
  start := pure (.ok ())
  check _ := fun count => (.ok (if count = 0 then .finite .one else .infinite), count + 1)
  stop := pure (.error (.oracleState .notStarted))

/-- The second answer ends the search, and the failure to stop is what is returned. -/
theorem stubborn_follows_protocol :
    let log := [.start (.ok ()), .check ⟨[⟨"p", "0"⟩], .ok (.finite .one)⟩,
      .check ⟨[⟨"p", "0"⟩], .ok .infinite⟩, .stop (.error (.oracleState .notStarted))]
    threeQueries.parameterSpace = .ok unitInterval ∧ unitInterval ≠ [] ∧
      StaysInRange unitInterval (⟨fun _ => 0, 0⟩ : Tape) ∧
      threeQueries.optimizeWith (logged stubborn) (⟨fun _ => 0, 0⟩ : Tape) ([], 0) =
        (.error (.oracleState .notStarted), log, 2) ∧
      DirectRun 3 .min log (.error (.oracleState .notStarted)) := by
  intro log
  have hparameters : threeQueries.parameterSpace = .ok unitInterval := rfl
  have hdraws : StaysInRange unitInterval (⟨fun _ => 0, 0⟩ : Tape) :=
    staysInRange_of_drawsFit (by decide +kernel) _
  have hcalls : threeQueries.optimizeWith (logged stubborn) (⟨fun _ => 0, 0⟩ : Tape) ([], 0) =
      (.error (.oracleState .notStarted), log, 2) := rfl
  obtain ⟨log', result, after, -, hlogged, hrun⟩ :=
    optimize_follows_protocol hparameters nofun hdraws stubborn 0
  cases hcalls.symm.trans hlogged
  exact ⟨hparameters, nofun, hdraws, hcalls, hrun⟩

end MarkovFit.Proofs
