/-
# `Muduo.Client.Restart` — a `Stop` while the client reconnects

`Client.Model` takes a call of `Stop` and the end of `HandleRemoveConnection` as one
step each.  Here `Stop` is called in another thread, and both go from one access
of an atomic flag to the next.

    stop         Stop                      compare_exchange of doConnect_, store of connect_
    close op     TcpConnection             the operation that loses the connection
    remove r     HandleRemoveConnection    loads of doConnect_ and retry_, and Restart:
                                           its store of connect_, and StartInLoop

`Restart` stores `true` without asking again, so the order of the two stores decides.

    doConnect_ is loaded          the stores                  connect_ in the end
    after Stop has cleared it     Stop                        false
    before                        Restart, Stop               false
    before                        Stop, Restart               true
-/
import Muduo.Client.Control

namespace Muduo

open Runs

/-- Where the thread that calls `Stop` is. -/
inductive StopPoint
  | calling
  /-- in `connector_->Stop()` -/
  | storing
  | returned
deriving DecidableEq, Repr

/-- Where the loop thread is. -/
inductive RemovePoint
  /-- the connection is there -/
  | connected
  /-- in `HandleRemoveConnection`, before the load of `doConnect_` -/
  | testing
  /-- before the load of `retry_` -/
  | testingRetry
  /-- in `Restart`, before the store of `connect_` -/
  | restarting
  /-- in the `StartInLoop` of `Restart` -/
  | starting
  | returned
deriving DecidableEq, Repr

/-- A client whose connection is lost, and a thread that stops it. -/
structure Reconnect where
  client : TcpClient
  stopper : StopPoint
  remover : RemovePoint

inductive ReconnectAct
  | stop
  | close (op : ConnOp)
  | remove (r : ConnectResult)

namespace Reconnect

def init (client : TcpClient) : Reconnect :=
  { client, stopper := .calling, remover := .connected }

/-- The next step of `Stop`. -/
def stop (s : Reconnect) : Option Reconnect :=
  match s.stopper with
  | .calling =>
      if s.client.doConnect then
        some { s with client := { s.client with doConnect := false }, stopper := .storing }
      else some { s with stopper := .returned }
  | .storing =>
      let connector := { s.client.connector with connect := false }
      some { s with client := { s.client with connector }, stopper := .returned }
  | .returned => none

/-- The connection is closed, up to the `StepIntoDestroyed` of `HandleRemoveConnection`. -/
def close (s : Reconnect) (op : ConnOp) : Option Reconnect := do
  guard (s.remover = .connected)
  let client ← s.client.step (.conn op)
  guard (client.removing.isSome = true)
  some { s with client, remover := .testing }

/-- The next step of `HandleRemoveConnection`. -/
def remove (s : Reconnect) (r : ConnectResult) : Option Reconnect :=
  match s.remover with
  | .testing => do
      let c ← s.client.removing
      c.chan.remove
      if s.client.doConnect then some { s with remover := .testingRetry }
      else some { s with client := { s.client with removing := none }, remover := .returned }
  | .testingRetry =>
      if s.client.retry then some { s with remover := .restarting }
      else some { s with client := { s.client with removing := none }, remover := .returned }
  | .restarting =>
      let connector := s.client.connector.restart
      some { s with client := { s.client with removing := none, connector }, remover := .starting }
  | .starting => do
      let client ← s.client.step (.connector (.loop r 0))
      some { s with client,
                    remover := if client.connector.frames = [] then .returned else .starting }
  | .connected | .returned => none

def step (s : Reconnect) : ReconnectAct → Option Reconnect
  | .stop => s.stop
  | .close op => s.close op
  | .remove r => s.remove r

variable {s s' : Reconnect} {a : ReconnectAct}

/-- What `Stop` is for: when it has returned, `connect_` is clear. -/
def Stopped (s : Reconnect) : Prop :=
  s.stopper = .returned → s.client.connector.connect = false

/-- `Restart` does not set `connect_` when `Stop` has returned. -/
def InTime (s : Reconnect) : ReconnectAct → Prop
  | .remove _ => s.remover = .restarting → s.stopper ≠ .returned
  | .stop | .close _ => True

instance (s : Reconnect) : (a : ReconnectAct) → Decidable (s.InTime a)
  | .remove _ => inferInstanceAs (Decidable (_ → _))
  | .stop | .close _ => inferInstanceAs (Decidable True)

/-- No other call has cleared `doConnect_`. -/
def FirstCall (s : Reconnect) : Prop := s.stopper = .calling → s.client.doConnect = true

/-! ## What a step can do -/

/-- The loop's step leaves the two flags and the other thread alone. -/
structure SameFlags (s s' : Reconnect) : Prop where
  stopper : s'.stopper = s.stopper
  doConnect : s'.client.doConnect = s.client.doConnect
  connect : s'.client.connector.connect = s.client.connector.connect

theorem close_same {op : ConnOp} (h : s.close op = some s') : SameFlags s s' := by
  obtain ⟨-, h⟩ := guard_bind_eq_some_iff.mp h
  obtain ⟨client, hc, h⟩ := Option.bind_eq_some_iff.mp h
  obtain ⟨-, h⟩ := guard_bind_eq_some_iff.mp h
  obtain rfl := Option.some.inj h
  obtain ⟨-, hc⟩ := guard_bind_eq_some_iff.mp hc
  obtain ⟨hcon, hcalls⟩ := TcpClient.connStep_cases hc
  exact ⟨rfl, hcalls.doConnect, congrArg Connector.connect hcon⟩

/-- `connect_` is only read by what the loop thread is in the middle of. -/
theorem loop_connect {c c' : Connector} {r : ConnectResult} {e : ℤ}
    (h : Connector.Steps c (.loop r e) c') : c'.connect = c.connect := by
  cases h with
  | _ => rfl

/-- `connect_` is set by the store of `Restart`, and by no other step of the loop thread. -/
theorem remove_cases {r : ConnectResult} (h : s.remove r = some s') :
    (s.remover = .restarting ∧ s'.stopper = s.stopper ∧
      s'.client.doConnect = s.client.doConnect ∧ s'.client.connector.connect = true) ∨
    (s.remover ≠ .restarting ∧ SameFlags s s') := by
  unfold remove at h
  cases hp : s.remover with
  | connected | returned => simp [hp] at h
  | testing =>
      simp only [hp, Option.bind_eq_bind, Option.bind_eq_some_iff] at h
      obtain ⟨c, -, ch, -, h⟩ := h
      refine .inr ⟨RemovePoint.noConfusion, ?_⟩
      split at h
      · exact Option.some.inj h ▸ ⟨rfl, rfl, rfl⟩
      · exact Option.some.inj h ▸ ⟨rfl, rfl, rfl⟩
  | testingRetry =>
      simp only [hp] at h
      refine .inr ⟨RemovePoint.noConfusion, ?_⟩
      split at h
      · exact Option.some.inj h ▸ ⟨rfl, rfl, rfl⟩
      · exact Option.some.inj h ▸ ⟨rfl, rfl, rfl⟩
  | restarting =>
      simp only [hp] at h
      exact Option.some.inj h ▸ .inl ⟨rfl, rfl, rfl, rfl⟩
  | starting =>
      simp only [hp] at h
      obtain ⟨client, hc, h⟩ := Option.bind_eq_some_iff.mp h
      obtain ⟨-, hc⟩ := guard_bind_eq_some_iff.mp hc
      obtain ⟨hsteps, hcalls⟩ := TcpClient.connectorStep_cases hc
      refine .inr ⟨RemovePoint.noConfusion, ?_⟩
      exact Option.some.inj h ▸ ⟨rfl, hcalls.doConnect, loop_connect hsteps⟩

/-- The first call after `Connect` goes on to its store. -/
theorem stop_cases (w : s.FirstCall) (h : s.stop = some s') :
    (s.stopper = .calling ∧ s'.stopper = .storing) ∨
      (s.stopper = .storing ∧ s'.stopper = .returned ∧ s'.client.connector.connect = false) := by
  unfold stop at h
  cases hp : s.stopper with
  | returned => simp [hp] at h
  | calling =>
      simp only [hp, if_pos (w hp)] at h
      exact Option.some.inj h ▸ .inl ⟨rfl, rfl⟩
  | storing =>
      simp only [hp] at h
      exact Option.some.inj h ▸ .inr ⟨rfl, rfl, rfl⟩

theorem SameFlags.firstCall (h : SameFlags s s') (w : s.FirstCall) : s'.FirstCall := by
  intro hp
  rw [h.doConnect]
  exact w (h.stopper ▸ hp)

theorem FirstCall.step (w : s.FirstCall) (h : s.step a = some s') : s'.FirstCall := by
  cases a with
  | close op => exact (close_same h).firstCall w
  | stop =>
      intro hp
      rcases stop_cases w h with ⟨-, hs⟩ | ⟨-, hs, -⟩
      · exact StopPoint.noConfusion (hs.symm.trans hp)
      · exact StopPoint.noConfusion (hs.symm.trans hp)
  | remove r =>
      rcases remove_cases h with ⟨-, hs, hd, -⟩ | ⟨-, hsame⟩
      · intro hp
        rw [hd]
        exact w (hs ▸ hp)
      · exact hsame.firstCall w

/-! ## Who stores last -/

theorem SameFlags.stopped_iff (h : SameFlags s s') : s'.Stopped ↔ s.Stopped := by
  unfold Stopped
  rw [h.stopper, h.connect]

/-- A step leads to a state in which `Stop` has its effect exactly from such a state,
and if it is no store of `Restart` behind that of `Stop`. -/
theorem stopped_step_iff (w : s.FirstCall) (h : s.step a = some s') :
    s'.Stopped ↔ s.Stopped ∧ s.InTime a := by
  cases a with
  | close op => rw [(close_same h).stopped_iff, InTime, and_true]
  | stop =>
      rcases stop_cases w h with ⟨hp, hs⟩ | ⟨hp, hs, hc⟩
      · refine iff_of_true (fun hr => ?_) ⟨fun hr => ?_, trivial⟩
        · exact StopPoint.noConfusion (hs.symm.trans hr)
        · exact StopPoint.noConfusion (hp.symm.trans hr)
      · refine iff_of_true (fun _ => hc) ⟨fun hr => ?_, trivial⟩
        exact StopPoint.noConfusion (hp.symm.trans hr)
  | remove r =>
      rcases remove_cases h with ⟨hp, hs, -, hc⟩ | ⟨hp, hsame⟩
      · constructor
        · intro hst
          have hnot : s.stopper ≠ .returned := by
            intro hr
            exact Bool.noConfusion (hc.symm.trans (hst (hs.trans hr)))
          exact ⟨fun hr => absurd hr hnot, fun _ => hnot⟩
        · rintro ⟨-, hin⟩ hr
          exact absurd (hs.symm.trans hr) (hin hp)
      · rw [hsame.stopped_iff]
        exact ⟨fun hst => ⟨hst, fun hr => absurd hr hp⟩, fun h => h.1⟩

variable {client : TcpClient} {tr : List (Reconnect × ReconnectAct)}

/-- When `Stop` has returned, so also when both have finished, it has won if and only if
`Restart` has not stored behind it. -/
theorem stop_wins_iff (hd : client.doConnect = true)
    (hr : Run (stepOf step) (init client) tr s) (hs : s.stopper = .returned) :
    s.client.connector.connect = false ↔ ∀ p ∈ tr, p.1.InTime p.2 := by
  have hrun : s.Stopped ↔ ∀ p ∈ tr, p.1.InTime p.2 :=
    hr.iff_forall_of_step (I := FirstCall) (P := Stopped) (G := InTime) (fun _ => hd)
      (fun hp => StopPoint.noConfusion hp) (fun w hst => w.step hst)
      fun w hst => stopped_step_iff w hst
  rw [← hrun]
  exact ⟨fun hc _ => hc, fun h => h hs⟩

/-- A client with retry whose connection is up. -/
def established : List ClientAct :=
  [.enableRetry, .connect true, .connector (.loop .EINPROGRESS 0), .connector (.event POLLOUT),
    .connector (.loop .ok 0), .connector (.loop .ok 0), .connector (.loop .ok 0), .connector .task]

/-- The store of `Restart` comes before that of `Stop`. -/
def stopLast : List ReconnectAct :=
  [.close .handleClose, .remove .EINPROGRESS, .remove .EINPROGRESS, .stop, .remove .EINPROGRESS,
    .stop, .remove .EINPROGRESS]

theorem stop_wins_after_restart :
    ∃ c ∈ runAll TcpClient.step (TcpClient.init false) established,
      ∃ q ∈ runAll step (init c.2) stopLast, q.2.remover = .returned ∧
        q.2.client.connector.connect = false ∧ q.2.client.connector.sockets = 1 := by
  obtain ⟨c, hc, hd, q, hq, hin, hs, hret, hn⟩ :
      ∃ c ∈ runAll TcpClient.step (TcpClient.init false) established, c.2.doConnect = true ∧
        ∃ q ∈ runAll step (init c.2) stopLast, (∀ p ∈ q.1, p.1.InTime p.2) ∧
          q.2.stopper = .returned ∧ q.2.remover = .returned ∧
          q.2.client.connector.sockets = 1 := by decide +kernel
  exact ⟨c, hc, q, hq, hret, (stop_wins_iff hd (run_of_runAll hq) hs).mpr hin, hn⟩

/-- `Stop` is called and returns between the loads of the loop thread and its store. -/
def stopBetween : List ReconnectAct :=
  [.close .handleClose, .remove .EINPROGRESS, .stop, .stop, .remove .EINPROGRESS,
    .remove .EINPROGRESS, .remove .EINPROGRESS]

/-- The client makes another attempt, and the next `Stop` does not end it. -/
theorem restart_overwrites_stop :
    ∃ c ∈ runAll TcpClient.step (TcpClient.init false) established,
      c.2.doConnect = true ∧ c.2.retry = true ∧
      ∃ q ∈ runAll step (init c.2) stopBetween, q.2.stopper = .returned ∧
        q.2.remover = .returned ∧ q.2.client.connector.connect = true ∧
        q.2.client.connector.opState = .kConnecting ∧
        q.2.client.stop.connector.connect = true := by
  decide +kernel

/-! ## The calls as one step -/

/-- A `Stop` that nothing comes between is the one of `TcpClient`. -/
theorem stop_run (hs : s.stopper = .calling) :
    ∃ tr, (∀ q ∈ tr, q.2 = .stop) ∧
      Run (stepOf step) s tr
        { s with client := { s.client.stop with atStop := s.client.atStop },
                 stopper := .returned } := by
  cases hd : s.client.doConnect with
  | true =>
      have hcas : s.step .stop =
          some { s with client := { s.client with doConnect := false }, stopper := .storing } := by
        simp [step, stop, hs, hd]
      refine ⟨_, by simp, (Run.single hcas).snoc (a := .stop) ?_⟩
      simp [stepOf, step, stop, TcpClient.stop, hd]
  | false =>
      have hsame : ({ s.client.stop with atStop := s.client.atStop } : TcpClient) = s.client := by
        unfold TcpClient.stop
        rw [if_neg (by simp [hd])]
      rw [hsame]
      refine ⟨_, by simp, Run.single (a := .stop) ?_⟩
      simp [stepOf, step, stop, hs, hd]

/-- When nothing comes between, the loop thread gets from its loads to `StartInLoop`, or
to the end, as `TcpClient.reconnect` does. -/
theorem reconnect_run {client' : TcpClient} (hp : s.remover = .testing)
    (h : s.client.reconnect = some client') :
    ∃ tr p, (∀ q ∈ tr, q.2 = .remove .ok) ∧
      Run (stepOf step) s tr { s with client := client', remover := p } := by
  simp only [TcpClient.reconnect, Option.bind_eq_bind, Option.bind_eq_some_iff] at h
  obtain ⟨c, hc, u, hch, h⟩ := h
  cases hd : s.client.doConnect with
  | false =>
      have hif : (s.client.doConnect && s.client.retry) = false := by rw [hd, Bool.false_and]
      rw [hif, if_neg Bool.false_ne_true] at h
      refine ⟨_, .returned, by simp, Run.single (a := .remove .ok) ?_⟩
      simp [stepOf, step, remove, hp, hc, hch, hd, ← Option.some.inj h]
  | true =>
      have htest : s.step (.remove .ok) = some { s with remover := .testingRetry } := by
        simp [step, remove, hp, hc, hch, hd]
      cases ht : s.client.retry with
      | false =>
          have hif : (s.client.doConnect && s.client.retry) = false := by rw [ht, Bool.and_false]
          rw [hif, if_neg Bool.false_ne_true] at h
          refine ⟨_, .returned, by simp, (Run.single htest).snoc (a := .remove .ok) ?_⟩
          simp [stepOf, step, remove, ht, ← Option.some.inj h]
      | true =>
          have hif : (s.client.doConnect && s.client.retry) = true := by rw [hd, ht, Bool.and_self]
          rw [hif, if_pos rfl] at h
          have hretry : ({ s with remover := .testingRetry } : Reconnect).step (.remove .ok) =
              some { s with remover := .restarting } := by
            simp [step, remove, ht]
          refine ⟨_, .starting, by simp,
            ((Run.single htest).snoc hretry).snoc (a := .remove .ok) ?_⟩
          simp [stepOf, step, remove, ← Option.some.inj h]

end Reconnect

end Muduo
