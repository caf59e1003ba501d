/-
# `Muduo.Client.Control` — do the calls of a client have an effect?

`Shutdown` and `Stop` are guarded by the same flag, which `Connect` sets and
either of them clears.  The first of them after a `Connect` finds it set; the
next one does nothing, whatever it was called for.

    call          with                    needs            should lead to
    Shutdown()    a connected connection  doConnect_       disconnecting
    Stop()        no connection           doConnect_, or   connect_ = false
    ~TcpClient()  no connection            connect_ clear   connect_ = false

`Effective` is what the calls are for, as a property of a state.  It holds in
every state of a run exactly if every call of the run finds what it needs
(`effective_iff`).
-/
import Muduo.Client.Model
import Muduo.Connector.Sockets

namespace Muduo

open Runs

/-- While `connect_` is clear a connector that nobody starts neither begins an
attempt nor delivers a descriptor. -/
theorem Connector.stopped_step {s s' : Connector} {a : ConnectorAct} (hc : s.connect = false)
    (ha : a.ofLoop = true) (h : Connector.Steps s a s') :
    s'.connect = false ∧ s'.sockets = s.sockets ∧ s'.delivered = s.delivered := by
  cases h with
  | startInline | startOther | stop | restart => exact nomatch ha
  | connecting r e fs hf ho hcon | refused r e fs hf ho hcon | failed r e fs hf ho hcon
  | succeeded r e h hs fs ch hf ho hch hcon => exact absurd (hc.symm.trans hcon) nofun
  | _ => exact ⟨hc, rfl, rfl⟩

theorem TcpConnection.shutdown_state (c : TcpConnection) : c.shutdown.1.state ≠ .connected := by
  unfold TcpConnection.shutdown
  split
  next => exact nofun
  next hs => exact hs

namespace TcpClient

variable {s s' : TcpClient} {a : ClientAct}

/-- No `Shutdown` has left a connection connected; after a `Stop` without a
connection, and until the next `Connect`, `connect_` is clear, no attempt has
begun and no descriptor has been delivered. -/
def Effective (s : TcpClient) : Prop :=
  s.missed = false ∧ ∀ q ∈ s.atStop,
    s.connector.connect = false ∧ (s.connector.sockets, s.connector.delivered) = q

instance (s : TcpClient) : Decidable s.Effective := inferInstanceAs (Decidable (_ ∧ _))

/-- The call finds the flag it needs. -/
def FlagUp (s : TcpClient) : ClientAct → Prop
  | .shutdown => isConnected s.connection = true → s.doConnect = true
  | .stop | .destroy =>
      s.connection.isNone = true → s.doConnect = true ∨ s.connector.connect = false
  | _ => True

instance (s : TcpClient) : (a : ClientAct) → Decidable (s.FlagUp a)
  | .shutdown | .stop | .destroy => inferInstanceAs (Decidable (_ → _))
  | .connect _ | .enableRetry | .connector _ | .conn _ | .reconnect =>
      inferInstanceAs (Decidable True)

/-- A client that has been stopped does not reconnect. -/
def StaysStopped (s : TcpClient) : Prop := s.atStop ≠ none → s.doConnect = false

/-! ## What a step can do -/

/-- The fields that tell of the calls. -/
structure SameCalls (s s' : TcpClient) : Prop where
  doConnect : s'.doConnect = s.doConnect
  missed : s'.missed = s.missed
  atStop : s'.atStop = s.atStop

theorem handleConnectSuccessfully_calls {sockfd : ℤ}
    (h : s.handleConnectSuccessfully sockfd = some s') :
    s'.connector = s.connector ∧ SameCalls s s' := by
  simp only [handleConnectSuccessfully, Option.bind_eq_bind, Option.bind_eq_some_iff] at h
  obtain ⟨c, -, ⟨c', effects⟩, -, h⟩ := h
  obtain rfl := Option.some.inj h
  exact ⟨rfl, rfl, rfl, rfl⟩

theorem connectorStep_cases {a : ConnectorAct} (h : s.connectorStep a = some s') :
    Connector.Steps s.connector a s'.connector ∧ SameCalls s s' := by
  simp only [connectorStep, Option.bind_eq_bind, Option.bind_eq_some_iff] at h
  obtain ⟨connector, hst, h⟩ := h
  have hsteps := Connector.steps_of_step hst
  split at h
  · obtain rfl := Option.some.inj h
    exact ⟨hsteps, rfl, rfl, rfl⟩
  · split at h
    · obtain ⟨hc, hcalls⟩ := handleConnectSuccessfully_calls h
      exact ⟨hc ▸ hsteps, hcalls.doConnect, hcalls.missed, hcalls.atStop⟩
    · obtain rfl := Option.some.inj h
      exact ⟨hsteps, rfl, rfl, rfl⟩

theorem connStep_cases {op : ConnOp} (h : s.connStep op = some s') :
    s'.connector = s.connector ∧ SameCalls s s' := by
  simp only [connStep, Option.bind_eq_bind, Option.bind_eq_some_iff] at h
  obtain ⟨c, -, ⟨c', effects⟩, -, h⟩ := h
  split at h
  · obtain rfl := Option.some.inj h
    exact ⟨rfl, rfl, rfl, rfl⟩
  · obtain rfl := Option.some.inj h
    exact ⟨rfl, rfl, rfl, rfl⟩

theorem connect_cases {onLoop : Bool} (h : s.connect onLoop = some s') :
    s'.missed = s.missed ∧ s'.atStop = none := by
  simp only [connect, Option.bind_eq_bind, Option.bind_eq_some_iff] at h
  obtain ⟨connector, -, h⟩ := h
  obtain rfl := Option.some.inj h
  exact ⟨rfl, rfl⟩

/-- The end of `HandleRemoveConnection` restarts the connector only if `doConnect_` is set. -/
theorem reconnect_cases (h : s.reconnect = some s') :
    (s.doConnect = true ∨ s'.connector = s.connector) ∧ SameCalls s s' := by
  simp only [reconnect, Option.bind_eq_bind, Option.bind_eq_some_iff] at h
  obtain ⟨c, -, -, -, h⟩ := h
  split at h
  next hd =>
    obtain rfl := Option.some.inj h
    exact ⟨.inl ((Bool.and_eq_true _ _).mp hd).1, rfl, rfl, rfl⟩
  next =>
    obtain rfl := Option.some.inj h
    exact ⟨.inr rfl, rfl, rfl, rfl⟩

theorem StaysStopped.of_same (h : s.StaysStopped) (hs : SameCalls s s') : s'.StaysStopped := by
  intro hne
  rw [hs.doConnect]
  exact h (hs.atStop ▸ hne)

theorem stop_doConnect (s : TcpClient) : s.stop.doConnect = false := by
  unfold stop
  cases hd : s.doConnect with
  | true => rfl
  | false => simp

theorem shutdown_doConnect (s : TcpClient) : s.shutdown.doConnect = false := by
  unfold shutdown
  cases hd : s.doConnect with
  | true => rfl
  | false => simp

theorem StaysStopped.step (h : s.StaysStopped) (hst : s.step a = some s') : s'.StaysStopped := by
  cases a with
  | connect onLoop =>
      obtain ⟨-, hst⟩ := guard_bind_eq_some_iff.mp hst
      exact fun hne => absurd (connect_cases hst).2 hne
  | shutdown =>
      obtain ⟨-, hst⟩ := guard_bind_eq_some_iff.mp hst
      obtain rfl := Option.some.inj hst
      exact fun _ => s.shutdown_doConnect
  | stop =>
      obtain ⟨-, hst⟩ := guard_bind_eq_some_iff.mp hst
      obtain rfl := Option.some.inj hst
      exact fun _ => s.stop_doConnect
  | enableRetry =>
      obtain ⟨-, hst⟩ := guard_bind_eq_some_iff.mp hst
      exact Option.some.inj hst ▸ h
  | destroy =>
      obtain ⟨-, hst⟩ := guard_bind_eq_some_iff.mp hst
      obtain rfl := Option.some.inj hst
      unfold destroy
      split
      next => exact h
      next => exact fun _ => s.stop_doConnect
  | connector a =>
      obtain ⟨-, hst⟩ := guard_bind_eq_some_iff.mp hst
      exact h.of_same (connectorStep_cases hst).2
  | conn op =>
      obtain ⟨-, hst⟩ := guard_bind_eq_some_iff.mp hst
      exact h.of_same (connStep_cases hst).2
  | reconnect =>
      obtain ⟨-, hst⟩ := guard_bind_eq_some_iff.mp hst
      exact h.of_same (reconnect_cases hst).2

/-! ## The calls -/

theorem isConnected_map_shutdown (o : Option TcpConnection) :
    isConnected (o.map fun c => c.shutdown.1) = false := by
  cases o with
  | none => rfl
  | some c => simpa [isConnected] using c.shutdown_state

/-- A `Shutdown` moves a connected connection exactly if it finds `doConnect_` set. -/
theorem effective_shutdown (h : s.Effective) : s.FlagUp .shutdown ↔ s.shutdown.Effective := by
  unfold shutdown
  cases hd : s.doConnect with
  | true =>
      refine iff_of_true (fun _ => hd) ⟨?_, h.2⟩
      simp only [if_true, h.1, isConnected_map_shutdown, Bool.or_self]
  | false =>
      cases hc : isConnected s.connection with
      | true =>
          refine iff_of_false (fun hg => absurd (hd.symm.trans (hg hc)) nofun) fun h' => ?_
          exact absurd h'.1 (by simp)
      | false =>
          refine iff_of_true (fun hc' => absurd (hc.symm.trans hc') nofun) ⟨?_, h.2⟩
          simp [h.1]

/-- A `Stop` without a connection clears `connect_` exactly if it finds
`doConnect_` set, or `connect_` clear already. -/
theorem effective_stop (h : s.Effective) : s.FlagUp .stop ↔ s.stop.Effective := by
  unfold stop
  cases hn : s.connection.isNone with
  | false =>
      refine iff_of_true (fun hn' => absurd (hn.symm.trans hn') nofun) ?_
      cases s.doConnect with
      | true => exact ⟨h.1, fun q hq => ⟨rfl, (h.2 q hq).2⟩⟩
      | false => exact h
  | true =>
      cases hd : s.doConnect with
      | true =>
          refine iff_of_true (fun _ => .inl hd) ⟨h.1, fun q hq => ⟨rfl, ?_⟩⟩
          exact Option.some.inj hq
      | false =>
          constructor
          · intro hg
            refine ⟨h.1, fun q hq => ⟨?_, Option.some.inj hq⟩⟩
            exact (hg hn).resolve_left fun hd' => absurd (hd.symm.trans hd') nofun
          · intro h' _
            exact .inr (h'.2 _ rfl).1

/-- What the other steps leave alone. -/
theorem Effective.of_same (h : s.Effective) (hs : SameCalls s s')
    (hc : s.connector.connect = false → s'.connector.connect = false ∧
      s'.connector.sockets = s.connector.sockets ∧
      s'.connector.delivered = s.connector.delivered) : s'.Effective := by
  refine ⟨hs.missed.trans h.1, fun q hq => ?_⟩
  obtain ⟨hcon, heq⟩ := h.2 q (hs.atStop ▸ hq)
  obtain ⟨hcon', hn, hd⟩ := hc hcon
  exact ⟨hcon', by rw [hn, hd, heq]⟩

/-- From a state in which all calls have had their effect a step leads to
another one if and only if it finds the flag it needs. -/
theorem effective_step (hs : s.StaysStopped) (h : s.Effective) (hst : s.step a = some s') :
    s.FlagUp a ↔ s'.Effective := by
  cases a with
  | connect onLoop =>
      obtain ⟨-, hst⟩ := guard_bind_eq_some_iff.mp hst
      obtain ⟨hm, hat⟩ := connect_cases hst
      refine iff_of_true trivial ⟨hm.trans h.1, fun q hq => ?_⟩
      rw [hat] at hq
      exact nomatch hq
  | shutdown =>
      obtain ⟨-, hst⟩ := guard_bind_eq_some_iff.mp hst
      exact Option.some.inj hst ▸ effective_shutdown h
  | stop =>
      obtain ⟨-, hst⟩ := guard_bind_eq_some_iff.mp hst
      exact Option.some.inj hst ▸ effective_stop h
  | enableRetry =>
      obtain ⟨-, hst⟩ := guard_bind_eq_some_iff.mp hst
      exact Option.some.inj hst ▸ iff_of_true trivial h
  | destroy =>
      obtain ⟨-, hst⟩ := guard_bind_eq_some_iff.mp hst
      obtain rfl := Option.some.inj hst
      unfold destroy
      cases hc : s.connection with
      | some c => exact iff_of_true (fun hn => by simp [hc] at hn) h
      | none => exact effective_stop h
  | connector a =>
      obtain ⟨⟨ha, -⟩, hst⟩ := guard_bind_eq_some_iff.mp hst
      obtain ⟨hsteps, hsame⟩ := connectorStep_cases hst
      exact iff_of_true trivial (h.of_same hsame fun hc => Connector.stopped_step hc ha hsteps)
  | conn op =>
      obtain ⟨-, hst⟩ := guard_bind_eq_some_iff.mp hst
      obtain ⟨hcon, hsame⟩ := connStep_cases hst
      refine iff_of_true trivial (h.of_same hsame fun hc => ?_)
      rw [hcon]
      exact ⟨hc, rfl, rfl⟩
  | reconnect =>
      obtain ⟨-, hst⟩ := guard_bind_eq_some_iff.mp hst
      obtain ⟨hcon, hsame⟩ := reconnect_cases hst
      refine iff_of_true trivial ⟨hsame.missed.trans h.1, fun q hq => ?_⟩
      rw [hsame.atStop] at hq
      rcases hcon with hd | hcon
      · -- a client that has been stopped does not get here with `doConnect_` set
        have hne : s.atStop ≠ none := fun hnone => nomatch hnone.symm.trans hq
        exact absurd (hd.symm.trans (hs hne)) nofun
      · rw [hcon]
        exact h.2 q hq

/-- All calls of a run have had their effect, in every state, if and only if
each of them found the flag it needs. -/
theorem effective_iff {writeCompleteCb : Bool} {tr : List (TcpClient × ClientAct)}
    (hr : Run (stepOf step) (init writeCompleteCb) tr s) :
    (∀ p ∈ tr, FlagUp p.1 p.2) ↔ (∀ p ∈ tr, Effective p.1) ∧ s.Effective :=
  hr.forall_iff_of_step (I := StaysStopped) (P := Effective) (G := FlagUp)
    (fun h => absurd rfl h) ⟨rfl, fun _ hq => nomatch hq⟩ (fun h hst => h.step hst)
    fun hs h hst => effective_step hs h hst

/-- A client that is stopped while its first attempt is under way, and shut down
when the second one has succeeded. -/
def stoppedOnce : List ClientAct :=
  [.connect true, .connector (.loop .EINPROGRESS 0), .stop, .connector (.event POLLOUT),
    .connector (.loop .ok 0), .connector (.loop .ok 0), .connector .task, .connect true,
    .connector (.loop .EINPROGRESS 0), .connector (.event POLLOUT), .connector (.loop .ok 0),
    .connector (.loop .ok 0), .connector (.loop .ok 0), .shutdown]

theorem stoppedOnce_effective :
    ∃ tr s, runAll step (init false) stoppedOnce = some (tr, s) ∧
      s.connector.closed = [0] ∧ s.connector.delivered = [1] ∧
      (∀ p ∈ tr, Effective p.1) ∧ s.Effective := by
  obtain ⟨tr, s, hrun, hok, hc, hd⟩ : ∃ tr s,
      runAll step (init false) stoppedOnce = some (tr, s) ∧ (∀ p ∈ tr, FlagUp p.1 p.2) ∧
        s.connector.closed = [0] ∧ s.connector.delivered = [1] :=
    exists_computed (by decide +kernel)
  exact ⟨tr, s, hrun, hc, hd, (effective_iff (run_of_runAll hrun)).mp hok⟩

/-- `Stop` on a connection that is up clears the flag that `Shutdown` needs. -/
def stopThenShutdown : List ClientAct :=
  [.connect true, .connector (.loop .EINPROGRESS 0), .connector (.event POLLOUT),
    .connector (.loop .ok 0), .connector (.loop .ok 0), .connector (.loop .ok 0), .stop, .shutdown]

/-- `Shutdown` without a connection clears the flag that `Stop` needs. -/
def shutdownThenStop : List ClientAct :=
  [.connect true, .connector (.loop .EINPROGRESS 0), .shutdown, .stop,
    .connector (.event POLLOUT), .connector (.loop .ok 0)]

theorem calls_without_effect :
    (∃ tr s, runAll step (init false) stopThenShutdown = some (tr, s) ∧
      isConnected s.connection = true ∧ ¬ s.Effective) ∧
    ∃ tr s, runAll step (init false) shutdownThenStop = some (tr, s) ∧
      s.atStop = some (1, []) ∧ s.connector.connect = true ∧ s.connector.delivered = [0] ∧
        ¬ s.Effective :=
  ⟨exists_computed (by decide +kernel),
    exists_computed (by decide +kernel)⟩

end TcpClient

end Muduo
