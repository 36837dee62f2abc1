import MarkovFit.Oracle.Client

/-!
# Runs of an interactive client

The session of a run is what a sequence of calls makes of a fresh one. A call opens a fresh
connection, sends one request over the connection there is, or drops it. What a round trip preserves
therefore holds of the connection of every run, also where it depends on how many checks were late.
-/

namespace MarkovFit.Proofs

open Oracle

/-- A call of an interactive client. -/
inductive Call where
  | start
  | check (sample : List Constant)
  | stop

/-- Whether the time was up before there was an answer. -/
def wasLate : Except Failure Answer → Bool
  | .error (.timeout _) => true
  | _ => false

section

variable {m : Type → Type} (host : Host m) (spec : ModelSpec)

/-- The session after a call, whether or not the call fails. -/
def callStep (s : Session) : Call → Session
  | .start => (Client.start host spec s).2
  | .check sample => (Client.check spec sample s).2
  | .stop => (Client.stop spec s).2

/-- The session after a sequence of calls. -/
def sessionAfter (calls : List Call) : Session := calls.foldl (callStep host spec) {}

/-- Whether the call is a check for which the time is not enough. -/
def isLate (s : Session) : Call → Bool
  | .check sample => wasLate (Client.check spec sample s).1
  | _ => false

/-- The number of late checks in a run that goes on from a session. -/
def lateFrom (s : Session) : List Call → Nat
  | [] => 0
  | call :: calls => (isLate spec s call).toNat + lateFrom (callStep host spec s call) calls

/-- The number of late checks in a run. -/
def lateChecks (calls : List Call) : Nat := lateFrom host spec {} calls

end

variable {m : Type → Type} {host : Host m} {spec : ModelSpec}

/-- A server that was started has a connection with nothing on it. -/
theorem connect_eq_ok {invocation : Invocation} {c : Connection}
    (h : Client.connect host spec = .ok (invocation, c)) :
    ∃ server, host.serve invocation = .ok server ∧ c = { server := server } := by
  unfold Client.connect at h
  cases hmodel : spec.require host.readable with
  | error e =>
    rw [hmodel] at h
    cases h
  | ok model =>
    rw [hmodel] at h
    cases hserve : host.serve (Client.invocation spec model) with
    | error reason =>
      simp only [bind, Except.bind, hserve] at h
      cases h
    | ok server =>
      simp only [bind, Except.bind, hserve] at h
      cases h
      exact ⟨server, hserve, rfl⟩

/-- What a call can do to a session, and whether it is a late check. -/
inductive CallEffect (host : Host m) (spec : ModelSpec) (s : Session) : Call → Session → Bool → Prop
  | nothing {call : Call} : CallEffect host spec s call s false
  | opened {invocation : Invocation} {server : Server} {after : Session}
      (before : s.stage = .initial) (stage : after.stage = .started)
      (serves : host.serve invocation = .ok server)
      (connection : after.connection = some { server := server }) :
      CallEffect host spec s .start after false
  | sent {sample : List Constant} {c : Connection} {after : Session}
      (stage : after.stage = .started) (connected : s.connection = some c)
      (connection : after.connection = some (c.roundTrip spec.timeout sample).2) :
      CallEffect host spec s (.check sample) after (wasLate (c.roundTrip spec.timeout sample).1)
  | closed {after : Session} (stage : after.stage = .stopped) (connection : after.connection = none) :
      CallEffect host spec s .stop after false

theorem callEffect (host : Host m) (spec : ModelSpec) (s : Session) (call : Call) :
    CallEffect host spec s call (callStep host spec s call) (isLate spec s call) := by
  cases call with
  | start =>
    simp only [callStep, isLate, Client.start]
    split
    · exact .nothing
    · rename_i hstage
      cases hconnect : Client.connect host spec with
      | error e => exact .nothing
      | ok opened =>
        obtain ⟨server, hserve, hfresh⟩ := connect_eq_ok hconnect
        exact .opened (Decidable.not_not.1 hstage) rfl hserve (congrArg some hfresh)
  | check sample =>
    simp only [callStep, isLate, Client.check]
    split
    · rename_i c hstage hc
      exact .sent hstage hc rfl
    · exact .nothing
  | stop =>
    simp only [callStep, isLate, Client.stop]
    split
    · exact .nothing
    · split
      · exact .closed rfl rfl
      · rename_i hnone
        exact .closed rfl hnone

/-- What holds of fresh connections, and survives the round trips of a run with the number of those
that were late, holds of the connection after it. -/
theorem connection_of_sessionAfter {P : Connection → Nat → Prop} {calls : List Call}
    (hfresh : ∀ invocation server, host.serve invocation = .ok server → P { server := server } 0)
    (hroundTrip : ∀ sample c late, .check sample ∈ calls → P c late →
      P (c.roundTrip spec.timeout sample).2
        (late + (wasLate (c.roundTrip spec.timeout sample).1).toNat))
    {c : Connection} (hc : (sessionAfter host spec calls).connection = some c) :
    P c (lateChecks host spec calls) := by
  -- No check is late before the start, so that the count of a fresh connection is zero.
  have hfrom : ∀ (s : Session) (late : Nat), (∀ c, s.connection = some c → P c late) →
      (s.stage = .initial → late = 0) →
        ∀ c, (calls.foldl (callStep host spec) s).connection = some c →
          P c (late + lateFrom host spec s calls) := by
    clear hc
    induction calls with
    | nil => exact fun s late hs _ => hs
    | cons call calls ih =>
      intro s late hs hinitial
      have hcalls := ih fun sample c late hmem =>
        hroundTrip sample c late (List.mem_cons_of_mem _ hmem)
      have heffect := callEffect host spec s call
      rw [lateFrom, ← Nat.add_assoc, List.foldl_cons]
      generalize callStep host spec s call = after at heffect ⊢
      generalize isLate spec s call = overdue at heffect ⊢
      refine hcalls after _ ?_ ?_
      · intro c hc
        cases heffect with
        | nothing => exact hs c hc
        | opened before _ serves connection =>
          obtain rfl := Option.some.inj (connection.symm.trans hc)
          rw [hinitial before]
          exact hfresh _ _ serves
        | sent _ connected connection =>
          obtain rfl := Option.some.inj (connection.symm.trans hc)
          exact hroundTrip _ _ _ List.mem_cons_self (hs _ connected)
        | closed _ connection => exact absurd (connection.symm.trans hc) nofun
      · intro hstage
        cases heffect with
        | nothing => exact hinitial hstage
        | opened _ stage => exact absurd (stage.symm.trans hstage) nofun
        | sent stage => exact absurd (stage.symm.trans hstage) nofun
        | closed stage => exact absurd (stage.symm.trans hstage) nofun
  have hresult := hfrom {} 0 (fun c hc => by cases hc) (fun _ => rfl) c hc
  rwa [Nat.zero_add] at hresult

/-- A check with an answer has made a round trip. -/
theorem check_eq_ok {sample : List Constant} {s s' : Session} {v : Answer}
    (h : Client.check spec sample s = (.ok v, s')) :
    ∃ c c', s.stage = .started ∧ s.connection = some c ∧
      c.roundTrip spec.timeout sample = (.ok v, c') ∧ s'.connection = some c' := by
  unfold Client.check at h
  split at h
  · rename_i c hstage hc
    obtain ⟨hanswer, rfl⟩ := Prod.mk.inj h
    exact ⟨c, _, hstage, hc, Prod.ext hanswer rfl, rfl⟩
  · cases h

/-- A round trip with an answer has sent its request and read a good line. -/
theorem roundTrip_eq_ok {c c' : Connection} {timeout : Option Nat} {sample : List Constant} {v : Answer}
    (h : c.roundTrip timeout sample = (.ok v, c')) :
    ∃ sent received line, c.send? (requestLine c.sequence sample) = some sent ∧
      (sent.await timeout).receive = (.line line, received) ∧
      Connection.readReply received.sequence line = .ok v ∧
      c' = { received with sequence := received.sequence + 1 } := by
  simp only [Connection.roundTrip] at h
  cases hsent : c.send? (requestLine c.sequence sample) with
  | none =>
    rw [hsent] at h
    cases h
  | some sent =>
    rw [hsent] at h
    rcases hreceive : (sent.await timeout).receive with ⟨result, received⟩
    simp only [hreceive] at h
    cases result with
    | line line =>
      cases hreply : Connection.readReply received.sequence line with
      | error e =>
        simp only [hreply] at h
        cases h
      | ok value =>
        simp only [hreply] at h
        cases h
        exact ⟨sent, received, line, rfl, hreceive, hreply, rfl⟩
    | garbled => cases h
    | closed => cases h
    | late => cases h

/-- A line that is no good answer breaks the protocol. -/
theorem readReply_eq_error {sequence : Nat} {line : String} {e : Failure}
    (h : Connection.readReply sequence line = .error e) : ∃ cause, e = .oracleProtocol cause := by
  rw [Connection.readReply] at h
  cases hresult : readResult? exactTag line with
  | none =>
    rw [hresult] at h
    cases h
    exact ⟨_, rfl⟩
  | some result =>
    obtain ⟨rest, -, hread⟩ := Option.map_eq_some_iff.1 hresult
    rw [hresult] at h
    cases hfields : readFields? rest with
    | none =>
      rw [hfields] at hread
      cases hread
      cases h
      exact ⟨_, rfl⟩
    | some fields =>
      rw [hfields] at hread
      cases hread
      dsimp only at h
      split at h
      · cases h
      · cases h
        exact ⟨_, rfl⟩

theorem wasLate_readReply (sequence : Nat) (line : String) :
    wasLate (Connection.readReply sequence line) = false := by
  cases hreply : Connection.readReply sequence line with
  | ok value => rfl
  | error e =>
    obtain ⟨cause, rfl⟩ := readReply_eq_error hreply
    rfl

/-- A round trip over a connection that cannot be written to does nothing. Any other one writes its
request and tries to read a line, and is late if there is none. -/
theorem roundTrip_cases (c : Connection) (timeout : Option Nat) (sample : List Constant) :
    (c.send? (requestLine c.sequence sample) = none ∧ (c.roundTrip timeout sample).2 = c ∧
        wasLate (c.roundTrip timeout sample).1 = false) ∨
      ∃ sent n, c.send? (requestLine c.sequence sample) = some sent ∧
        (c.roundTrip timeout sample).2 = { (sent.await timeout).receive.2 with sequence := n } ∧
        (wasLate (c.roundTrip timeout sample).1 = true ↔ (sent.await timeout).receive.1 = .late) := by
  simp only [Connection.roundTrip]
  cases hsent : c.send? (requestLine c.sequence sample) with
  | none => exact .inl ⟨rfl, rfl, rfl⟩
  | some sent =>
    refine .inr ⟨sent, ?_⟩
    rcases hreceive : (sent.await timeout).receive with ⟨result, received⟩
    cases result with
    | line line =>
      have hlate := wasLate_readReply received.sequence line
      cases hreply : Connection.readReply received.sequence line with
      | error e =>
        rw [hreply] at hlate
        refine ⟨received.sequence, rfl, by simp only [hreceive, hreply], ?_⟩
        simp only [hreceive, hreply, hlate, reduceCtorEq]
      | ok value =>
        refine ⟨received.sequence + 1, rfl, by simp only [hreceive, hreply], ?_⟩
        simp only [hreceive, hreply, wasLate, reduceCtorEq]
    | garbled | closed | late =>
      refine ⟨received.sequence, rfl, by simp only [hreceive], ?_⟩
      simp only [hreceive, wasLate, lateness, reduceCtorEq]

end MarkovFit.Proofs
