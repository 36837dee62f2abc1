import MarkovFit.Oracle.Synthetic
import MarkovFit.Proofs.FailureKinds
import MarkovFit.Proofs.ReplyOrigin

/-!
# Stages of a session

An interactive oracle only moves forward, whatever it is called for and whatever its server does. A
call that the stage does not allow changes nothing. The synthetic oracle allows the same calls as a
client whose server always starts.
-/

namespace MarkovFit.Proofs

open Oracle

/-! ### Runs of calls -/

/-- A call, whether it ends well, and the sessions around it. -/
structure SessionStep where
  before : Session
  call : Call
  result : Except Failure Unit
  after : Session

/-- Whether a call of an oracle ends well, and the session after it. -/
def perform (oracle : InteractiveOracle SessionM) (s : Session) :
    Call → Except Failure Unit × Session
  | .start => oracle.start s
  | .check sample => ((oracle.check sample s).1.map fun _ => (), (oracle.check sample s).2)
  | .stop => oracle.stop s

def stepOf (oracle : InteractiveOracle SessionM) (s : Session) (call : Call) : SessionStep :=
  ⟨s, call, (perform oracle s call).1, (perform oracle s call).2⟩

/-- One call after another, each in the world that it meets. -/
def stepsFrom (s : Session) : List (InteractiveOracle SessionM × Call) → List SessionStep
  | [] => []
  | (oracle, call) :: rest => stepOf oracle s call :: stepsFrom (stepOf oracle s call).after rest

/-- What holds of a session and makes for a good step holds all along a run. -/
theorem forall_stepsFrom {I : Session → Prop} {P : SessionStep → Prop}
    {calls : List (InteractiveOracle SessionM × Call)}
    (h : ∀ s, ∀ x ∈ calls, I s → P (stepOf x.1 s x.2) ∧ I (stepOf x.1 s x.2).after)
    {s : Session} (hs : I s) : ∀ x ∈ stepsFrom s calls, P x := by
  induction calls generalizing s with
  | nil => exact fun _ hx => absurd hx List.not_mem_nil
  | cons call calls ih =>
    obtain ⟨hgood, hafter⟩ := h s call List.mem_cons_self hs
    intro x hx
    obtain rfl | hx := List.mem_cons.1 hx
    · exact hgood
    · exact ih (fun s x hx => h s x (List.mem_cons_of_mem _ hx)) hafter x hx

/-! ### Steps of a client -/

/-- There is a connection exactly while the oracle is started. -/
def ConnectedWhileStarted (s : Session) : Prop := s.connection.isSome = true ↔ s.stage = .started

/-- A failure that is no refusal for the stage of the oracle. -/
def IsOther (e : Failure) : Prop := ∀ cause, e ≠ .oracleState cause

variable {m : Type → Type} {host : Host m} {spec : ModelSpec}

/-- Everything that a call of a client can do. -/
inductive ClientStep (host : Host m) (spec : ModelSpec) : SessionStep → Prop
  | startRefused {s : Session} (hstage : s.stage ≠ .initial) :
      ClientStep host spec ⟨s, .start, .error (.oracleState .notInitial), s⟩
  | startFailed {s : Session} (hstage : s.stage = .initial) {e : Failure}
      (hconnect : Client.connect host spec = .error e) :
      ClientStep host spec ⟨s, .start, .error e, s⟩
  | started {s : Session} (hstage : s.stage = .initial) {call : Invocation} {c : Connection}
      (hconnect : Client.connect host spec = .ok (call, c)) :
      ClientStep host spec ⟨s, .start, .ok (), ⟨.started, some c, some call⟩⟩
  | refused {s : Session} {call : Call} (hcall : call ≠ .start) (hstage : s.stage ≠ .started) :
      ClientStep host spec ⟨s, call, .error (.oracleState .notStarted), s⟩
  | checked {s : Session} (hstage : s.stage = .started) (sample : List Constant)
      {result : Except Failure Unit} (hresult : FailsOnly IsOther result) (c : Connection)
      (call : Option Invocation) :
      ClientStep host spec ⟨s, .check sample, result, ⟨.started, some c, call⟩⟩
  | stopped {s : Session} (hstage : s.stage = .started) {result : Except Failure Unit}
      (hresult : FailsOnly IsOther result) (call : Option Invocation) :
      ClientStep host spec ⟨s, .stop, result, ⟨.stopped, none, call⟩⟩

theorem isOther_io (context reason : String) : IsOther (.io context reason) := nofun

theorem isOther_oracleProtocol (cause : ProtocolCause) : IsOther (.oracleProtocol cause) := nofun

theorem isOther_lateness (timeout : Option Nat) : IsOther (lateness timeout) := nofun

theorem failsOnly_readReply (sequence : Nat) (line : String) :
    FailsOnly IsOther (Connection.readReply sequence line) := by
  intro e he
  obtain ⟨cause, rfl⟩ := readReply_eq_error he
  exact isOther_oracleProtocol cause

theorem failsOnly_roundTrip (c : Connection) (timeout : Option Nat) (sample : List Constant) :
    FailsOnly IsOther (c.roundTrip timeout sample).1 := by
  simp only [Connection.roundTrip]
  cases c.send? (requestLine c.sequence sample) with
  | none => exact failsOnly_error (isOther_io _ _)
  | some sent =>
    rcases hreceive : (sent.await timeout).receive with ⟨received, c'⟩
    cases received with
    | late => simpa only [hreceive] using failsOnly_error (isOther_lateness timeout)
    | garbled => simpa only [hreceive] using failsOnly_error (isOther_io _ _)
    | closed => simpa only [hreceive] using failsOnly_error (isOther_oracleProtocol _)
    | line line =>
      have hreply := failsOnly_readReply c'.sequence line
      simp only [hreceive]
      cases hvalue : Connection.readReply c'.sequence line with
      | ok value => exact failsOnly_ok value
      | error e => exact failsOnly_error (hreply e hvalue)

theorem failsOnly_shutdown (c : Connection) (timeout : Option Nat) :
    FailsOnly IsOther (c.shutdown timeout).1 := by
  rw [Connection.shutdown]
  split
  · exact failsOnly_error (isOther_io _ _)
  · dsimp only
    split
    · exact failsOnly_error (isOther_io _ _)
    · split
      · exact failsOnly_ok ()
      · exact failsOnly_error (isOther_lateness timeout)

theorem clientStep_start (host : Host m) (spec : ModelSpec) (s : Session) :
    ClientStep host spec
      ⟨s, .start, (Client.start host spec s).1, (Client.start host spec s).2⟩ := by
  rw [Client.start]
  split
  · rename_i hstage
    exact .startRefused hstage
  · rename_i hstage
    cases hconnect : Client.connect host spec with
    | error e => exact .startFailed (not_not.1 hstage) hconnect
    | ok opened => exact .started (not_not.1 hstage) hconnect

theorem check_ne_start (sample : List Constant) : Call.check sample ≠ .start := by
  intro h
  cases h

theorem stop_ne_start : Call.stop ≠ .start := by
  intro h
  cases h

theorem clientStep_check (sample : List Constant) {s : Session} (h : ConnectedWhileStarted s) :
    ClientStep host spec ⟨s, .check sample, (Client.check spec sample s).1.map fun _ => (),
      (Client.check spec sample s).2⟩ := by
  rw [Client.check]
  split
  · rename_i c hstage hc
    have hresult := (failsOnly_roundTrip c spec.timeout sample).map fun _ => ()
    dsimp only
    rw [Session.note, hstage]
    exact .checked hstage sample hresult _ _
  · rename_i hnone
    refine .refused (check_ne_start sample) fun hstage => ?_
    obtain ⟨c, hc⟩ := Option.isSome_iff_exists.1 (h.2 hstage)
    exact hnone c hstage hc

theorem clientStep_stop {s : Session} (h : ConnectedWhileStarted s) :
    ClientStep host spec ⟨s, .stop, (Client.stop spec s).1, (Client.stop spec s).2⟩ := by
  rw [Client.stop]
  split
  · rename_i hstage
    exact .refused stop_ne_start hstage
  · rename_i hstage
    obtain ⟨c, hc⟩ := Option.isSome_iff_exists.1 (h.2 (not_not.1 hstage))
    rw [hc]
    exact .stopped (not_not.1 hstage) (failsOnly_shutdown c spec.timeout) _

theorem clientStep_stepOf {s : Session} (h : ConnectedWhileStarted s) (call : Call) :
    ClientStep host spec (stepOf (Client.oracle host spec) s call) := by
  cases call with
  | start => exact clientStep_start host spec s
  | check sample => exact clientStep_check sample h
  | stop => exact clientStep_stop h

/-- What a call may do to the stage and to the connection, and what it has to leave alone. -/
structure MovesForward (x : SessionStep) : Prop where
  forward : x.after.stage = x.before.stage ∨
    (x.before.stage = .initial ∧ x.after.stage = .started) ∨
    (x.before.stage = .started ∧ x.after.stage = .stopped)
  connectedBefore : ConnectedWhileStarted x.before
  connectedAfter : ConnectedWhileStarted x.after
  startSucceeds : x.call = .start → x.result = .ok () →
    x.before.stage = .initial ∧ x.after.stage = .started
  startFails : x.call = .start → x.before.stage = .initial → x.result ≠ .ok () → x.after = x.before
  checkStays : ∀ sample, x.call = .check sample → x.before.stage = .started →
    x.after.stage = .started
  stopStops : x.call = .stop → x.before.stage = .started → x.after.stage = .stopped
  startRefused : x.call = .start → x.before.stage ≠ .initial →
    x.result = .error (.oracleState .notInitial) ∧ x.after = x.before
  refused : x.call ≠ .start → x.before.stage ≠ .started →
    x.result = .error (.oracleState .notStarted) ∧ x.after = x.before

theorem ClientStep.connected {x : SessionStep} (h : ClientStep host spec x)
    (hbefore : ConnectedWhileStarted x.before) : ConnectedWhileStarted x.after := by
  cases h with
  | startRefused | startFailed | refused => exact hbefore
  | started | checked => exact iff_of_true rfl rfl
  | stopped => exact iff_of_false nofun nofun

theorem ClientStep.movesForward {x : SessionStep} (h : ClientStep host spec x)
    (hbefore : ConnectedWhileStarted x.before) : MovesForward x := by
  have hafter := h.connected hbefore
  -- Each kind of step says what it finds and what it leaves.
  cases h <;> constructor <;> simp_all

/-! ### Runs of a client -/

/-- The calls of one client, each in the world that it meets. -/
def clientCalls (spec : ModelSpec) (calls : List (Host m × Call)) :
    List (InteractiveOracle SessionM × Call) :=
  calls.map fun x => (Client.oracle x.1 spec, x.2)

/-- Every call in the run of a client is a step of the client. -/
theorem forall_clientSteps {P : SessionStep → Prop} {calls : List (Host m × Call)}
    (h : ∀ x, ∀ c ∈ calls, ClientStep c.1 spec x → ConnectedWhileStarted x.before → P x)
    {s : Session} (hs : ConnectedWhileStarted s) :
    ∀ x ∈ stepsFrom s (clientCalls spec calls), P x := by
  refine forall_stepsFrom ?_ hs
  rintro s _ hx hs
  obtain ⟨c, hc, rfl⟩ := List.mem_map.1 hx
  have hstep : ClientStep c.1 spec (stepOf (Client.oracle c.1 spec) s c.2) :=
    clientStep_stepOf hs c.2
  exact ⟨h _ c hc hstep hs, hstep.connected hs⟩

/-- Whether the call has started a server. -/
def opens : SessionStep → Bool
  | ⟨_, .start, .ok (), _⟩ => true
  | _ => false

theorem of_opens {x : SessionStep} (h : opens x = true) : x.call = .start ∧ x.result = .ok () := by
  unfold opens at h
  split at h
  · exact ⟨rfl, rfl⟩
  · cases h

/-- A client that has left its initial stage does not return to it. -/
theorem MovesForward.ne_initial {x : SessionStep} (h : MovesForward x)
    (hbefore : x.before.stage ≠ .initial) : x.after.stage ≠ .initial := by
  obtain hstays | ⟨hinitial, -⟩ | ⟨-, hstopped⟩ := h.forward
  · rwa [hstays]
  · exact absurd hinitial hbefore
  · rw [hstopped]
    exact nofun

theorem countP_opens_eq_zero (spec : ModelSpec) {s : Session} (hs : ConnectedWhileStarted s)
    (hleft : s.stage ≠ .initial) (calls : List (Host m × Call)) :
    (stepsFrom s (clientCalls spec calls)).countP opens = 0 := by
  have hcalls : ∀ s, ∀ x ∈ clientCalls spec calls,
      ConnectedWhileStarted s ∧ s.stage ≠ .initial → ¬opens (stepOf x.1 s x.2) = true ∧
        ConnectedWhileStarted (stepOf x.1 s x.2).after ∧
          (stepOf x.1 s x.2).after.stage ≠ .initial := by
    rintro s _ hx ⟨hs, hleft⟩
    obtain ⟨c, -, rfl⟩ := List.mem_map.1 hx
    have hstep : ClientStep c.1 spec (stepOf (Client.oracle c.1 spec) s c.2) :=
      clientStep_stepOf hs c.2
    have hmoves := hstep.movesForward hs
    refine ⟨fun hopens => ?_, hstep.connected hs, hmoves.ne_initial hleft⟩
    obtain ⟨hcall, hresult⟩ := of_opens hopens
    exact hleft (hmoves.startSucceeds hcall hresult).1
  exact List.countP_eq_zero.2 (forall_stepsFrom hcalls ⟨hs, hleft⟩)

theorem countP_opens_le_one (spec : ModelSpec) {s : Session} (hs : ConnectedWhileStarted s)
    (calls : List (Host m × Call)) :
    (stepsFrom s (clientCalls spec calls)).countP opens ≤ 1 := by
  induction calls generalizing s with
  | nil => exact Nat.zero_le 1
  | cons c calls ih =>
    have hstep : ClientStep c.1 spec (stepOf (Client.oracle c.1 spec) s c.2) :=
      clientStep_stepOf hs c.2
    have hafter := hstep.connected hs
    rw [clientCalls, List.map_cons, stepsFrom]
    by_cases hopens : opens (stepOf (Client.oracle c.1 spec) s c.2) = true
    · obtain ⟨hcall, hresult⟩ := of_opens hopens
      have hstarted := ((hstep.movesForward hs).startSucceeds hcall hresult).2
      have hleft : (stepOf (Client.oracle c.1 spec) s c.2).after.stage ≠ .initial := by
        rw [hstarted]
        exact nofun
      have hrest := countP_opens_eq_zero spec hafter hleft calls
      rw [List.countP_cons_of_pos hopens]
      exact Nat.succ_le_succ (Nat.le_of_eq hrest)
    · rw [List.countP_cons_of_neg hopens]
      exact ih hafter

/-! ### Stages without a server -/

/-- Why a call is refused in a stage, if it is. -/
def refusal? : Stage → Call → Option StateCause
  | .initial, .start => none
  | _, .start => some .notInitial
  | .started, _ => none
  | _, _ => some .notStarted

/-- The stage after a call, if a start succeeds. -/
def stageAfter : Stage → Call → Stage
  | .initial, .start => .started
  | .started, .stop => .stopped
  | stage, _ => stage

theorem refusal?_start {stage : Stage} (h : stage ≠ .initial) :
    (refusal? stage .start, stageAfter stage .start) = (some .notInitial, stage) := by
  cases stage with
  | initial => exact absurd rfl h
  | started | stopped => rfl

theorem refusal?_of_ne_start {stage : Stage} {call : Call} (hcall : call ≠ .start)
    (h : stage ≠ .started) :
    (refusal? stage call, stageAfter stage call) = (some .notStarted, stage) := by
  cases stage with
  | started => exact absurd rfl h
  | initial | stopped =>
    cases call with
    | start => exact absurd rfl hcall
    | check | stop => rfl

namespace SessionStep

/-- Why the call was refused, if it was. -/
def refused? (x : SessionStep) : Option StateCause :=
  match x.result with
  | .error (.oracleState cause) => some cause
  | _ => none

/-- The refusal, if there is one, and the stage after it. -/
def verdict (x : SessionStep) : Option StateCause × Stage := (x.refused?, x.after.stage)

end SessionStep

theorem refused?_eq_none {x : SessionStep} (h : FailsOnly IsOther x.result) : x.refused? = none := by
  rw [SessionStep.refused?]
  split
  · rename_i cause hresult
    exact absurd rfl (h _ hresult cause)
  · rfl

/-- The verdicts on some calls by their stages alone. -/
def verdicts : Stage → List Call → List (Option StateCause × Stage)
  | _, [] => []
  | stage, call :: calls =>
    (refusal? stage call, stageAfter stage call) :: verdicts (stageAfter stage call) calls

theorem map_verdict_stepsFrom {calls : List (InteractiveOracle SessionM × Call)} {s : Session}
    (h : ∀ x ∈ stepsFrom s calls,
      x.verdict = (refusal? x.before.stage x.call, stageAfter x.before.stage x.call)) :
    (stepsFrom s calls).map SessionStep.verdict = verdicts s.stage (calls.map Prod.snd) := by
  induction calls generalizing s with
  | nil => rfl
  | cons x calls ih =>
    have hfirst : (stepOf x.1 s x.2).verdict = (refusal? s.stage x.2, stageAfter s.stage x.2) :=
      h _ List.mem_cons_self
    have hstage : (stepOf x.1 s x.2).after.stage = stageAfter s.stage x.2 := congrArg Prod.snd hfirst
    have hrest := ih fun y hy => h y (List.mem_cons_of_mem _ hy)
    rw [stepsFrom, List.map_cons, List.map_cons, verdicts, hfirst, hrest, hstage]

/-- Where every server starts, the stages alone decide. -/
theorem ClientStep.verdict_eq {x : SessionStep} (h : ClientStep host spec x)
    (hconnect : ∃ opened, Client.connect host spec = .ok opened) :
    x.verdict = (refusal? x.before.stage x.call, stageAfter x.before.stage x.call) := by
  cases h with
  | startRefused hstage => exact (refusal?_start hstage).symm
  | startFailed hstage hfails =>
    obtain ⟨opened, hopened⟩ := hconnect
    cases hopened.symm.trans hfails
  | started hstage =>
    dsimp only
    rw [hstage]
    rfl
  | refused hcall hstage => exact (refusal?_of_ne_start hcall hstage).symm
  | checked hstage sample hresult | stopped hstage hresult =>
    rw [SessionStep.verdict, refused?_eq_none hresult]
    dsimp only
    rw [hstage]
    rfl

/-! ### The synthetic oracle -/

theorem isOther_of_expressionFailure {e : Failure} (h : ExpressionFailure e) : IsOther e := by
  rintro cause rfl
  exact h

theorem failsOnly_assign (values : Valuation) (sample : List Constant) :
    FailsOnly IsOther (Synthetic.assign values sample) := by
  induction sample generalizing values with
  | nil => exact failsOnly_ok values
  | cons c sample ih =>
    have hread : FailsOnly IsOther (readDecimal c.value) := by
      rw [readDecimal]
      cases Decimal.read c.value with
      | error text => exact failsOnly_error (isOther_oracleProtocol _)
      | ok value => exact failsOnly_ok value
    exact hread.bind fun value _ => ih _

theorem synthetic_verdict_eq (o : Synthetic) (s : Session) (call : Call) :
    (stepOf o.interactive s call).verdict = (refusal? s.stage call, stageAfter s.stage call) := by
  cases call with
  | start =>
    change SessionStep.verdict ⟨s, .start, (Synthetic.start s).1, (Synthetic.start s).2⟩ = _
    rw [Synthetic.start]
    split
    · rename_i hstage
      exact (refusal?_start hstage).symm
    · rename_i hstage
      rw [not_not.1 hstage]
      rfl
  | check sample =>
    have hresult : FailsOnly IsOther ((o.evaluate sample).map fun _ => ()) :=
      ((failsOnly_assign _ _).bind fun values _ =>
        ((failsOnly_evaluate _ _).mono fun _ => isOther_of_expressionFailure).bind fun value _ =>
          failsOnly_ok _).map _
    change SessionStep.verdict ⟨s, .check sample, (o.check sample s).1.map fun _ => (),
      (o.check sample s).2⟩ = _
    rw [Synthetic.check]
    split
    · rename_i hstage
      exact (refusal?_of_ne_start (check_ne_start sample) hstage).symm
    · rename_i hstage
      rw [SessionStep.verdict, refused?_eq_none hresult, not_not.1 hstage]
      rfl
  | stop =>
    change SessionStep.verdict ⟨s, .stop, (Synthetic.stop s).1, (Synthetic.stop s).2⟩ = _
    rw [Synthetic.stop]
    split
    · rename_i hstage
      exact (refusal?_of_ne_start stop_ne_start hstage).symm
    · rename_i hstage
      rw [not_not.1 hstage]
      rfl

/-- For every model and every sequence of calls, each in a world of its own: a client only moves
forward, and starts one server at most. Where every server starts, the synthetic oracle gives the
same verdicts. -/
theorem interactive_oracles_move_forward (spec : ModelSpec) (calls : List (Host m × Call)) :
    (∀ x ∈ stepsFrom {} (clientCalls spec calls), MovesForward x) ∧
      (stepsFrom {} (clientCalls spec calls)).countP opens ≤ 1 ∧
      ((∀ x ∈ calls, ∃ opened, Client.connect x.1 spec = .ok opened) → ∀ o : Synthetic,
        (stepsFrom {} (calls.map fun x => (o.interactive, x.2))).map SessionStep.verdict =
          (stepsFrom {} (clientCalls spec calls)).map SessionStep.verdict) := by
  have hfresh : ConnectedWhileStarted {} := iff_of_false nofun nofun
  refine ⟨?_, countP_opens_le_one spec hfresh calls, ?_⟩
  · exact forall_clientSteps (fun x c _ hstep hbefore => hstep.movesForward hbefore) hfresh
  · intro hconnect o
    have hclient : ∀ x ∈ stepsFrom {} (clientCalls spec calls),
        x.verdict = (refusal? x.before.stage x.call, stageAfter x.before.stage x.call) :=
      forall_clientSteps (fun x c hc hstep _ => hstep.verdict_eq (hconnect c hc)) hfresh
    have hsynthetic : ∀ x ∈ stepsFrom {} (calls.map fun x => (o.interactive, x.2)),
        x.verdict = (refusal? x.before.stage x.call, stageAfter x.before.stage x.call) := by
      refine forall_stepsFrom (I := fun _ => True) ?_ trivial
      intro s x hx _
      obtain ⟨c, -, rfl⟩ := List.mem_map.1 hx
      exact ⟨synthetic_verdict_eq o s c.2, trivial⟩
    rw [map_verdict_stepsFrom hclient, map_verdict_stepsFrom hsynthetic, clientCalls,
      List.map_map, List.map_map]
    rfl

/-- A server that answers its first request with garbage, and calls in and out of turn. -/
def strayCalls : List (Host Id × Call) :=
  [.stop, .start, .check [⟨"p", "0.1"⟩], .start, .stop, .check []].map fun call =>
    (strayHost, call)

theorem strayCalls_move_forward :
    (∀ x ∈ strayCalls, ∃ opened, Client.connect x.1 straySpec = .ok opened) ∧
      (∀ x ∈ stepsFrom {} (clientCalls straySpec strayCalls), MovesForward x) ∧
      (stepsFrom {} (clientCalls straySpec strayCalls)).countP opens ≤ 1 ∧
      (stepsFrom {} (clientCalls straySpec strayCalls)).map SessionStep.verdict =
        [(some .notStarted, .initial), (none, .started), (none, .started),
          (some .notInitial, .started), (none, .stopped), (some .notStarted, .stopped)] ∧
      ∀ o : Synthetic,
        (stepsFrom {} (strayCalls.map fun x => (o.interactive, x.2))).map SessionStep.verdict =
          (stepsFrom {} (clientCalls straySpec strayCalls)).map SessionStep.verdict := by
  have hconnect : ∀ x ∈ strayCalls, ∃ opened, Client.connect x.1 straySpec = .ok opened := by
    intro x hx
    obtain ⟨call, -, rfl⟩ := List.mem_map.1 hx
    exact ⟨_, rfl⟩
  obtain ⟨hforward, hopens, hsynthetic⟩ := interactive_oracles_move_forward straySpec strayCalls
  exact ⟨hconnect, hforward, hopens, by decide +kernel, hsynthetic hconnect⟩

end MarkovFit.Proofs
