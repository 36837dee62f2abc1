import MarkovFit.Search.Direct
import MarkovFit.Proofs.DecimalToDouble
import MarkovFit.Proofs.DecimalValue

/-!
# Runs of a search

An oracle may answer each query as it likes, also by what was asked before. A run that ends with an
optimum has asked some queries with finite answers. The best point is the first one whose answer has
the greatest double in the direction of the search. It is therefore the first of the best answers
whenever doubles tell the answers of the run apart as decimals do, and need not be where they do not.
-/

namespace MarkovFit.Proofs

open Search

/-! ### Recorded queries -/

/-- A query with a finite answer. -/
structure Exchange where
  point : List Constant
  answer : Decimal
deriving DecidableEq

/-- An oracle that answers by what was asked before, and records the queries with finite answers. -/
def recording (reply : List Exchange → List Constant → Except Failure Answer) :
    InteractiveOracle (StateM (List Exchange)) where
  start := pure (.ok ())
  check point := fun history =>
    match reply history point with
    | .ok (.finite answer) => (.ok (.finite answer), history ++ [⟨point, answer⟩])
    | other => (other, history)
  stop := pure (.ok ())

variable {γ : Type} {s : Search} {reply : List Exchange → List Constant → Except Failure Answer}
  {history final : List Exchange} {state : SearchState γ}

/-! ### The first of the best answers -/

/-- The answer to the query is better than all before it, and none is better than it. -/
structure IsFirstBest (better : Decimal → Decimal → Prop) (answers : List Decimal) (query : Nat)
    (value : Decimal) : Prop where
  answered : answers[query]? = some value
  first : ∀ earlier < query, ∀ answer, answers[earlier]? = some answer → better value answer
  best : ∀ answer ∈ answers, ¬better answer value

/-- The double of the first answer is greater, in the sign that makes greater values better. -/
def worthMore (s : Search) (a b : Decimal) : Prop := s.worth b < s.worth a

/-- The first answer is better as a decimal. -/
def Exceeds : Direction → Decimal → Decimal → Prop
  | .max, a, b => b.toRat < a.toRat
  | .min, a, b => a.toRat < b.toRat

theorem signed_worth (s : Search) (a : Decimal) : ∃ sign, Signed sign (s.worth a) := by
  obtain ⟨sign, ha⟩ := signed_toFloat a
  rw [worth]
  split
  · exact ⟨sign, ha⟩
  · exact ⟨_, ha.neg⟩

theorem worthMore_iff {a b : Decimal} :
    worthMore s a b ↔ rank (datum (s.worth b)) < rank (datum (s.worth a)) := by
  obtain ⟨_, ha⟩ := signed_worth s a
  obtain ⟨_, hb⟩ := signed_worth s b
  exact hb.lt_iff ha

theorem worthMore.irrefl (a : Decimal) : ¬worthMore s a a := by
  rw [worthMore_iff]
  exact lt_irrefl _

theorem worthMore.trans_not {a b c : Decimal} (hab : worthMore s a b) (hcb : ¬worthMore s c b) :
    worthMore s a c := by
  rw [worthMore_iff] at *
  exact lt_of_le_of_lt (not_lt.1 hcb) hab

theorem worthMore.asymm {a b : Decimal} (hab : worthMore s a b) : ¬worthMore s b a := by
  rw [worthMore_iff] at *
  exact lt_asymm hab

/-- Answers that no comparison tells apart from decimals have the same first best. -/
theorem IsFirstBest.congr {better better' : Decimal → Decimal → Prop} {answers : List Decimal}
    {query : Nat} {value : Decimal} (h : IsFirstBest better answers query value)
    (hbetter : ∀ a ∈ answers, ∀ b ∈ answers, better' a b ↔ better a b) :
    IsFirstBest better' answers query value where
  answered := h.answered
  first earlier hlt answer hanswer :=
    (hbetter value (List.mem_of_getElem? h.answered) answer (List.mem_of_getElem? hanswer)).2
      (h.first earlier hlt answer hanswer)
  best answer hmem hworse :=
    h.best answer hmem ((hbetter answer hmem value (List.mem_of_getElem? h.answered)).1 hworse)

/-! ### One answer after another -/

/-- The state holds the first best of the answers so far, and where it was found. -/
structure Incumbency (s : Search) (history : List Exchange) (state : SearchState γ) : Prop where
  queries : state.queries = history.length
  value : state.best.value = s.worth state.best.raw
  point : (history.map Exchange.point)[state.best.iteration]? = some state.best.sample.toConstants
  firstBest : IsFirstBest (worthMore s) (history.map Exchange.answer) state.best.iteration
    state.best.raw

theorem incumbency_begin (c : Candidate) (raw : Decimal) (source : γ) :
    Incumbency s [⟨c.sample.toConstants, raw⟩] (s.begin c raw source) where
  queries := rfl
  value := rfl
  point := rfl
  firstBest :=
    { answered := rfl
      first := fun _ hlt => absurd hlt (Nat.not_lt_zero _)
      best := by
        intro answer hmem
        obtain rfl := List.mem_singleton.1 hmem
        exact worthMore.irrefl _ }

/-- A new answer takes the lead exactly if it is better than the best one before. -/
theorem IsFirstBest.append {answers : List Decimal} {query : Nat} {value : Decimal}
    (h : IsFirstBest (worthMore s) answers query value) (answer : Decimal) :
    (worthMore s answer value →
      IsFirstBest (worthMore s) (answers ++ [answer]) answers.length answer) ∧
    (¬worthMore s answer value →
      IsFirstBest (worthMore s) (answers ++ [answer]) query value) := by
  have hlt : query < answers.length := (List.getElem?_eq_some_iff.1 h.answered).1
  constructor
  · intro hbetter
    refine ⟨?_, ?_, ?_⟩
    · simp
    · intro earlier hearlier other hother
      rw [List.getElem?_append_left hearlier] at hother
      exact hbetter.trans_not (h.best other (List.mem_of_getElem? hother))
    · intro other hmem
      rcases List.mem_append.1 hmem with hmem | hmem
      · exact (hbetter.trans_not (h.best other hmem)).asymm
      · obtain rfl := List.mem_singleton.1 hmem
        exact worthMore.irrefl _
  · intro hworse
    refine ⟨?_, ?_, ?_⟩
    · rw [List.getElem?_append_left hlt, h.answered]
    · intro earlier hearlier other hother
      rw [List.getElem?_append_left (hearlier.trans hlt)] at hother
      exact h.first earlier hearlier other hother
    · intro other hmem
      rcases List.mem_append.1 hmem with hmem | hmem
      · exact h.best other hmem
      · obtain rfl := List.mem_singleton.1 hmem
        exact hworse

theorem Incumbency.record (h : Incumbency s history state) (c : Candidate) (raw : Decimal)
    (source : γ) :
    Incumbency s (history ++ [⟨c.sample.toConstants, raw⟩]) (s.record state c raw source) := by
  obtain ⟨hnew, hold⟩ := h.firstBest.append raw
  rw [worthMore, ← h.value] at hnew hold
  have hlt : state.best.iteration < (history.map Exchange.point).length :=
    (List.getElem?_eq_some_iff.1 h.point).1
  by_cases himproved : state.best.value < s.worth raw
  · have hbest : (s.record state c raw source).best = s.incumbent c raw state.queries :=
      if_pos himproved
    refine ⟨?_, ?_, ?_, ?_⟩
    · rw [List.length_append, ← h.queries]
      rfl
    · rw [hbest]
      rfl
    · rw [hbest, List.map_append]
      simp [incumbent, h.queries]
    · have hbest' := hnew himproved
      rw [List.length_map, ← h.queries] at hbest'
      rw [hbest, List.map_append]
      exact hbest'
  · have hbest : (s.record state c raw source).best = state.best := if_neg himproved
    refine ⟨?_, ?_, ?_, ?_⟩
    · rw [List.length_append, ← h.queries]
      rfl
    · rw [hbest]
      exact h.value
    · rw [hbest, List.map_append, List.getElem?_append_left hlt, h.point]
    · rw [hbest, List.map_append]
      exact hold himproved

/-! ### Whole runs -/

/-- What a query with a finite answer adds to the record. -/
theorem history_of_check {point : List Constant} {answer : Decimal}
    (h : (recording reply).check point history = (.ok (.finite answer), final)) :
    final = history ++ [⟨point, answer⟩] := by
  simp only [recording] at h
  cases hreply : reply history point with
  | error e =>
    rw [hreply] at h
    cases h
  | ok result =>
    rw [hreply] at h
    cases result with
    | infinite => cases h
    | finite value =>
      cases h
      rfl

/-- The outcome is the first best of the recorded answers, counted by the record. -/
structure Reports (s : Search) (history : List Exchange) (value : Decimal) (point : List Constant)
    (iteration evaluations : Nat) : Prop where
  evaluations : evaluations = history.length
  point : (history.map Exchange.point)[iteration]? = some point
  firstBest : IsFirstBest (worthMore s) (history.map Exchange.answer) iteration value

variable {value : Decimal} {point : List Constant} {iteration evaluations : Nat}

theorem Incumbency.reports (h : Incumbency s history state)
    (houtcome : Search.outcome state = .optimum value point iteration evaluations) :
    Reports s history value point iteration evaluations := by
  cases houtcome
  exact ⟨h.queries, h.point, h.firstBest⟩

/-- A run that ends with an optimum has had a finite answer to each of its queries. -/
theorem exists_answer_of_check
    {next : Decimal → StateM (List Exchange) (Except Failure SearchOutcome)} {query : List Constant}
    (hrun : (do
        match ← (recording reply).check query with
        | .error e => return .error e
        | .ok .infinite => return .ok (.infinite query)
        | .ok (.finite raw) => next raw : StateM (List Exchange) _) history =
      (.ok (.optimum value point iteration evaluations), final)) :
    ∃ raw, next raw (history ++ [⟨query, raw⟩]) =
      (.ok (.optimum value point iteration evaluations), final) := by
  simp only [bind, StateT.bind] at hrun
  cases hcheck : (recording reply).check query history with
  | mk answer after =>
    rw [hcheck] at hrun
    match answer with
    | .error e => cases hrun
    | .ok .infinite => cases hrun
    | .ok (.finite raw) =>
      rw [history_of_check hcheck] at hrun
      exact ⟨raw, hrun⟩

variable [RandomSource γ] {source : γ}

/-- Every query of a run keeps the incumbency, so that it holds where the run ends. -/
theorem reports_of_proceed {queries : Nat} (h : Incumbency s history state)
    (hrun : s.proceed (recording reply) queries state history =
      (.ok (.optimum value point iteration evaluations), final)) :
    Reports s final value point iteration evaluations := by
  induction queries generalizing state history with
  | zero =>
    obtain ⟨houtcome, rfl⟩ := Prod.mk.inj hrun
    exact h.reports (Except.ok.inj houtcome)
  | succ queries ih =>
    rw [proceed] at hrun
    by_cases hgoesOn : s.rule.canImprove state.queries state.best state.second = true
    · rw [if_pos hgoesOn] at hrun
      cases hnext : s.next state with
      | error e =>
        rw [hnext] at hrun
        cases hrun
      | ok drawn =>
        rw [hnext] at hrun
        obtain ⟨raw, hrun⟩ := exists_answer_of_check hrun
        exact ih (h.record drawn.1 raw drawn.2) hrun
    · rw [if_neg hgoesOn] at hrun
      obtain ⟨houtcome, rfl⟩ := Prod.mk.inj hrun
      exact h.reports (Except.ok.inj houtcome)

theorem reports_of_run (hrun : s.run (recording reply) source [] =
      (.ok (.optimum value point iteration evaluations), final)) :
    Reports s final value point iteration evaluations := by
  rw [run] at hrun
  cases hdraw : drawCandidate s.parameters source with
  | error e =>
    rw [hdraw] at hrun
    cases hrun
  | ok drawn =>
    rw [hdraw] at hrun
    obtain ⟨raw, hrun⟩ := exists_answer_of_check hrun
    exact reports_of_proceed (incumbency_begin drawn.1 raw drawn.2) hrun

/-! ### Answers that doubles tell apart -/

/-- Doubles order the decimals as their values do. -/
def DoublesTellApart (answers : List Decimal) : Prop :=
  ∀ a ∈ answers, ∀ b ∈ answers, a.toFloat < b.toFloat ↔ a.toRat < b.toRat

theorem doublesTellApart_of_isSmallWhole {answers : List Decimal}
    (hanswers : ∀ a ∈ answers, IsSmallWhole a) : DoublesTellApart answers :=
  fun a ha b hb => toFloat_lt_iff (hanswers a ha) (hanswers b hb)

theorem exceeds_iff_worthMore {answers : List Decimal} (h : DoublesTellApart answers) :
    ∀ a ∈ answers, ∀ b ∈ answers, Exceeds s.direction a b ↔ worthMore s a b := by
  intro a ha b hb
  obtain ⟨_, hsigned⟩ := signed_toFloat a
  obtain ⟨_, hsigned'⟩ := signed_toFloat b
  simp only [worthMore, worth]
  cases s.direction with
  | max => exact (h b hb a ha).symm
  | min =>
    rw [Exceeds, neg_lt_neg_iff_of_signed hsigned' hsigned]
    exact (h a ha b hb).symm

/-- For every search, oracle and stream of draws: the optimum of a run is the first of its answers
with the greatest double in the direction of the search, and if doubles tell the answers of the run
apart, it is the first of those that are best as exact decimals. -/
theorem optimum_is_first_best (s : Search)
    (reply : List Exchange → List Constant → Except Failure Answer) (source : γ)
    (final : List Exchange) (value : Decimal) (point : List Constant) (iteration evaluations : Nat)
    (hrun : s.run (recording reply) source [] =
      (.ok (.optimum value point iteration evaluations), final)) :
    Reports s final value point iteration evaluations ∧
      (DoublesTellApart (final.map Exchange.answer) →
        IsFirstBest (Exceeds s.direction) (final.map Exchange.answer) iteration value) := by
  have hreports := reports_of_run hrun
  refine ⟨hreports, fun hapart => ?_⟩
  exact hreports.firstBest.congr (exceeds_iff_worthMore hapart)

/-! ### Two queries -/

/-- A search of the maximum over the unit interval with two queries. -/
def twoQueries : Search :=
  { parameters := (Parameter.make "p" .zero .one).toOption.toList
    direction := .max
    exploration := Double.ofNat 1
    exploitationLimit := 0
    rule := ⟨2, none, none, none, none⟩ }

/-- An oracle that answers one after another with these decimals, wherever it is asked. -/
def answering (answers : List Decimal) (history : List Exchange) (_ : List Constant) :
    Except Failure Answer :=
  .ok (.finite (answers.getD history.length .zero))

/-- The whole decimal with this mantissa. -/
def whole (n : Nat) : Decimal := (Decimal.ofNat? n).getD .zero

/-- Doubles tell one and three apart. -/
theorem twoQueries_find_optimum : ∃ final,
    twoQueries.run (recording (answering [whole 1, whole 3])) (⟨fun _ => 0, 0⟩ : Tape) [] =
      (.ok (.optimum (whole 3) [⟨"p", "0"⟩] 1 2), final) ∧
    Reports twoQueries final (whole 3) [⟨"p", "0"⟩] 1 2 ∧
      IsFirstBest (Exceeds .max) (final.map Exchange.answer) 1 (whole 3) := by
  have hrun : twoQueries.run (recording (answering [whole 1, whole 3])) (⟨fun _ => 0, 0⟩ : Tape) [] =
      (.ok (.optimum (whole 3) [⟨"p", "0"⟩] 1 2),
        [⟨[⟨"p", "0"⟩], whole 1⟩, ⟨[⟨"p", "0"⟩], whole 3⟩]) := rfl
  obtain ⟨hreports, hbest⟩ := optimum_is_first_best twoQueries _ _ _ _ _ _ _ hrun
  refine ⟨_, hrun, hreports, hbest (doublesTellApart_of_isSmallWhole ?_)⟩
  intro a ha
  simp only [List.map_cons, List.map_nil, List.mem_cons, List.not_mem_nil, or_false] at ha
  rcases ha with rfl | rfl
  · exact ⟨rfl, by decide⟩
  · exact ⟨rfl, by decide⟩

/-- The second answer exceeds the first one, and the double of both is `2 ^ 53`. -/
theorem twoQueries_miss_optimum : ∃ final,
    twoQueries.run (recording (answering [whole 9007199254740992, whole 9007199254740993]))
        (⟨fun _ => 0, 0⟩ : Tape) [] =
      (.ok (.optimum (whole 9007199254740992) [⟨"p", "0"⟩] 0 2), final) ∧
    ¬IsFirstBest (Exceeds .max) (final.map Exchange.answer) 0 (whole 9007199254740992) := by
  refine ⟨_, rfl, fun h => ?_⟩
  have hmem : whole 9007199254740993 ∈
      [whole 9007199254740992, whole 9007199254740993] := by simp
  apply h.best _ hmem
  change (whole 9007199254740992).toRat < (whole 9007199254740993).toRat
  decide +kernel

end MarkovFit.Proofs
