/-
# `Muduo.Connector.Model` — Connector.h, Connector.cpp

A connector works in the thread of its loop; `Start` and `Stop` may be called
from any thread.  A step is what one thread does between two places where the
other threads or code of the user can come in: `connect_` is atomic and read in
three places, the loop runs its other handlers between two events, and `cb_` is
code of the user.

    start b     Start(), in the loop thread (b) or in another one
    enqueue     the EnqueueEventLoop of a Start() in another thread
    stop        Stop()
    restart     Restart(), when a connection that was delivered is lost
    event m     the loop dispatches m to the channel
    timer i     the i-th retry timer expires
    task        the loop runs the next callback queued for the connector
    loop r e    the loop thread goes on with what it is in the middle of

`frames` is what the loop thread is in the middle of, the innermost first; `r`
and `e` are what connect(2) and `SO_ERROR` come back with if they are asked.
Events, timers and callbacks come in any order, a channel that has been disabled
may still be in the batch that poll(2) returned, and `frames` must be empty for
the loop to turn to the next of them.

A descriptor is known by the number of its creation.  `sockets`, `delivered`
and `closed` are no fields of the source: they record what has happened.
-/
import Mathlib.Data.Nat.Notation
import Muduo.Lib.Runs
import Muduo.Poller.Channel

namespace Muduo

/-- `enum State` of a connector. -/
inductive OpState
  | kDisconnected | kConnecting | kConnected
deriving DecidableEq, Repr

/-- What connect(2) comes back with: 0, or an `errno`. -/
inductive ConnectResult
  | ok
  | EINPROGRESS | EINTR | EISCONN
  | EAGAIN | EADDRINUSE | EADDRNOTAVAIL | ECONNREFUSED | ENETUNREACH
  | EACCES | EPERM | EAFNOSUPPORT | EBADF | EFAULT | ENOTSOCK
  | other (errno : ℤ)
deriving DecidableEq, Repr

namespace ConnectResult

/-- The first four cases of the switch in `DoConnect`: a channel waits for the connection. -/
def pending : ConnectResult → Bool
  | ok | EINPROGRESS | EINTR | EISCONN => true
  | _ => false

/-- The five cases that call `Retry`. -/
def retried : ConnectResult → Bool
  | EAGAIN | EADDRINUSE | EADDRNOTAVAIL | ECONNREFUSED | ENETUNREACH => true
  | _ => false

end ConnectResult

/-- The callbacks that a connector queues in its loop. -/
inductive ConnectorTask
  /-- of `Start` -/
  | startInLoop
  /-- `chan_.reset()`, queued for the channel of this descriptor -/
  | resetChan (fd : ℤ)
deriving DecidableEq, Repr

/-- What the loop thread is in the middle of. -/
inductive ConnectorFrame
  /-- before `StartInLoop` -/
  | startInLoop
  /-- in `Retry`, before the test of `connect_` -/
  | retry
  /-- in `cb_(sockfd)` -/
  | delivering (fd : ℤ)
  /-- in `HandleEventsWithGuard`, before these callbacks -/
  | handlers (hs : List Handler)
deriving DecidableEq, Repr

def kInitRetryDelayMs : ℕ := 500
def kMaxRetryDelayMs : ℕ := 30 * 1000

/-- `class Connector`, with what the loop holds of it. -/
structure Connector where
  opState : OpState
  connect : Bool
  chan : Option Channel
  retryDelayMs : ℕ
  frames : List ConnectorFrame
  tasks : List ConnectorTask
  /-- calls of `Start` in other threads that have still to queue `StartInLoop` -/
  starts : ℕ
  /-- the delays of the retry timers that have not expired -/
  timers : List ℕ
  sockets : ℕ
  delivered : List ℤ
  closed : List ℤ
deriving DecidableEq

inductive ConnectorAct
  | start (onLoop : Bool)
  | enqueue
  | stop
  | restart
  | event (revents : BitVec 32)
  | timer (i : ℕ)
  | task
  | loop (r : ConnectResult) (soError : ℤ)
deriving DecidableEq, Repr

namespace Connector

/-- A connector as it is constructed. -/
def init : Connector :=
  { opState := .kDisconnected, connect := false, chan := none, retryDelayMs := kInitRetryDelayMs,
    frames := [], tasks := [], starts := 0, timers := [], sockets := 0, delivered := [],
    closed := [] }

/-- The loop thread runs code of the user: another handler or callback, or `cb_`. -/
def userCode (s : Connector) : Bool :=
  match s.frames with
  | [] | .delivering _ :: _ => true
  | _ => false

/-- `sockets::close`. -/
def close (s : Connector) (fd : ℤ) : Connector := { s with closed := s.closed ++ [fd] }

/-- `Retry`, up to the test of `connect_`. -/
def retry (s : Connector) : Connector :=
  { s with opState := .kDisconnected, frames := .retry :: s.frames }

/-- `Retry` from the test on. -/
def runAfter (s : Connector) : Connector :=
  if s.connect then
    { s with timers := s.timers ++ [s.retryDelayMs],
             retryDelayMs := min (s.retryDelayMs * 2) kMaxRetryDelayMs }
  else s

def initConnectOp (s : Connector) (sockfd : ℤ) : Option Connector := do
  assert (s.chan = none)
  some { s with opState := .kConnecting, chan := some (Channel.new sockfd).enableWriting }

def doConnect (s : Connector) (r : ConnectResult) : Option Connector :=
  let sockfd : ℤ := s.sockets
  let s := { s with sockets := s.sockets + 1 }
  match r with
  | .ok | .EINPROGRESS | .EINTR | .EISCONN => s.initConnectOp sockfd
  | .EAGAIN | .EADDRINUSE | .EADDRNOTAVAIL | .ECONNREFUSED | .ENETUNREACH => some s.retry
  | .EACCES | .EPERM | .EAFNOSUPPORT | .EBADF | .EFAULT | .ENOTSOCK => some (s.close sockfd)
  | .other _ => some (s.close sockfd)

def startInLoop (s : Connector) (r : ConnectResult) : Option Connector := do
  assert (s.opState = .kDisconnected)
  if s.connect then s.doConnect r else some s

/-- The channel gives its descriptor back; it is deleted by a queued callback. -/
def removeAndResetChannel (s : Connector) : Option (Connector × ℤ) := do
  let ch ← s.chan
  let ch := ch.disableAllEvents
  ch.remove
  some ({ s with chan := some ch, tasks := s.tasks ++ [.resetChan ch.fd] }, ch.fd)

/-- `HandleWrite`, up to the call of `cb_`. -/
def handleWrite (s : Connector) (soError : ℤ) : Option Connector :=
  if s.opState = .kConnecting then do
    let (s, sockfd) ← s.removeAndResetChannel
    if soError ≠ 0 then some (s.close sockfd).retry
    else if s.connect then
      some { s with delivered := s.delivered ++ [sockfd], frames := .delivering sockfd :: s.frames }
    else some { s.close sockfd with opState := .kDisconnected }
  else some s

def handleAsyncError (s : Connector) : Option Connector :=
  if s.opState = .kConnecting then do
    let (s, sockfd) ← s.removeAndResetChannel
    some (s.close sockfd).retry
  else some s

/-- One callback of the channel; it has neither a read nor a close callback. -/
def handle (s : Connector) (soError : ℤ) : Handler → Option Connector
  | .error => s.handleAsyncError
  | .write => s.handleWrite soError
  | .read | .close => some s

/-- `Restart`, up to the call of `StartInLoop`. -/
def restart (s : Connector) : Connector :=
  { s with retryDelayMs := kInitRetryDelayMs, opState := .kDisconnected, connect := true,
           frames := .startInLoop :: s.frames }

/-- The loop thread goes on with the innermost frame. -/
def next (s : Connector) (r : ConnectResult) (soError : ℤ) : Option Connector :=
  match s.frames with
  | [] => none
  | .startInLoop :: fs => { s with frames := fs }.startInLoop r
  | .retry :: fs => some { s with frames := fs }.runAfter
  | .delivering _ :: fs => some { s with frames := fs, opState := .kConnected }
  | .handlers [] :: fs => some { s with frames := fs }
  | .handlers (h :: hs) :: fs => { s with frames := .handlers hs :: fs }.handle soError h

/-- The loop runs the next queued callback. -/
def runTask (s : Connector) : Option Connector :=
  match s.tasks with
  | [] => none
  | .startInLoop :: ts => some { s with frames := [.startInLoop], tasks := ts }
  | .resetChan _ :: ts => some { s with chan := none, tasks := ts }

def step (s : Connector) : ConnectorAct → Option Connector
  | .start true => do
      guard (s.userCode = true)
      some { s with connect := true, frames := .startInLoop :: s.frames }
  | .start false => some { s with connect := true, starts := s.starts + 1 }
  | .enqueue => do
      guard (0 < s.starts)
      some { s with starts := s.starts - 1, tasks := s.tasks ++ [.startInLoop] }
  | .stop => some { s with connect := false }
  | .restart => do
      guard (s.frames = [] ∧ s.opState = .kConnected)
      some s.restart
  | .event revents => do
      guard (s.frames = [] ∧ s.chan ≠ none)
      some { s with frames := [.handlers (Channel.handlers revents)] }
  | .timer i => do
      guard (s.frames = [] ∧ i < s.timers.length)
      some { s with timers := s.timers.eraseIdx i, frames := [.startInLoop] }
  | .task => do
      guard (s.frames = [])
      s.runTask
  | .loop r soError => s.next r soError

/-! ## What a step can do -/

variable {s s' : Connector} {a : ConnectorAct}

/-- The steps, with what is known of the state they are taken from. -/
inductive Steps (s : Connector) : ConnectorAct → Connector → Prop
  | startInline (hu : s.userCode = true) :
      Steps s (.start true) { s with connect := true, frames := .startInLoop :: s.frames }
  | startOther : Steps s (.start false) { s with connect := true, starts := s.starts + 1 }
  | enqueue (h : 0 < s.starts) :
      Steps s .enqueue { s with starts := s.starts - 1, tasks := s.tasks ++ [.startInLoop] }
  | stop : Steps s .stop { s with connect := false }
  | restart (hf : s.frames = []) (ho : s.opState = .kConnected) :
      Steps s .restart s.restart
  | event (revents : BitVec 32) (hf : s.frames = []) (hc : s.chan ≠ none) :
      Steps s (.event revents) { s with frames := [.handlers (Channel.handlers revents)] }
  | timer (i : ℕ) (hf : s.frames = []) (hi : i < s.timers.length) :
      Steps s (.timer i) { s with timers := s.timers.eraseIdx i, frames := [.startInLoop] }
  | runStart (ts : List ConnectorTask) (hf : s.frames = []) (ht : s.tasks = .startInLoop :: ts) :
      Steps s .task { s with frames := [.startInLoop], tasks := ts }
  | runReset (fd : ℤ) (ts : List ConnectorTask) (hf : s.frames = [])
      (ht : s.tasks = .resetChan fd :: ts) : Steps s .task { s with chan := none, tasks := ts }
  | givenUp (r : ConnectResult) (e : ℤ) (fs : List ConnectorFrame)
      (hf : s.frames = .startInLoop :: fs) (ho : s.opState = .kDisconnected)
      (hc : s.connect = false) : Steps s (.loop r e) { s with frames := fs }
  | connecting (r : ConnectResult) (e : ℤ) (fs : List ConnectorFrame)
      (hf : s.frames = .startInLoop :: fs) (ho : s.opState = .kDisconnected)
      (hc : s.connect = true) (hr : r.pending = true) (hch : s.chan = none) :
      Steps s (.loop r e)
        { s with sockets := s.sockets + 1, opState := .kConnecting,
                 chan := some (Channel.new s.sockets).enableWriting, frames := fs }
  | refused (r : ConnectResult) (e : ℤ) (fs : List ConnectorFrame)
      (hf : s.frames = .startInLoop :: fs) (ho : s.opState = .kDisconnected)
      (hc : s.connect = true) (hr : r.retried = true) :
      Steps s (.loop r e)
        { s with sockets := s.sockets + 1, opState := .kDisconnected, frames := .retry :: fs }
  | failed (r : ConnectResult) (e : ℤ) (fs : List ConnectorFrame)
      (hf : s.frames = .startInLoop :: fs) (ho : s.opState = .kDisconnected)
      (hc : s.connect = true) (hr : r.pending = false) (hr' : r.retried = false) :
      Steps s (.loop r e)
        { s with sockets := s.sockets + 1, closed := s.closed ++ [(s.sockets : ℤ)], frames := fs }
  | armed (r : ConnectResult) (e : ℤ) (fs : List ConnectorFrame) (d : ℕ)
      (hf : s.frames = .retry :: fs) (hc : s.connect = true) :
      Steps s (.loop r e)
        { s with timers := s.timers ++ [s.retryDelayMs], retryDelayMs := d, frames := fs }
  | notArmed (r : ConnectResult) (e : ℤ) (fs : List ConnectorFrame)
      (hf : s.frames = .retry :: fs) (hc : s.connect = false) :
      Steps s (.loop r e) { s with frames := fs }
  | delivered (r : ConnectResult) (e fd : ℤ) (fs : List ConnectorFrame)
      (hf : s.frames = .delivering fd :: fs) :
      Steps s (.loop r e) { s with frames := fs, opState := .kConnected }
  | handled (r : ConnectResult) (e : ℤ) (fs : List ConnectorFrame)
      (hf : s.frames = .handlers [] :: fs) : Steps s (.loop r e) { s with frames := fs }
  | ignored (r : ConnectResult) (e : ℤ) (h : Handler) (hs : List Handler)
      (fs : List ConnectorFrame) (hf : s.frames = .handlers (h :: hs) :: fs) :
      Steps s (.loop r e) { s with frames := .handlers hs :: fs }
  | broken (r : ConnectResult) (e : ℤ) (h : Handler) (hs : List Handler)
      (fs : List ConnectorFrame) (ch : Channel) (hf : s.frames = .handlers (h :: hs) :: fs)
      (ho : s.opState = .kConnecting) (hc : s.chan = some ch) :
      Steps s (.loop r e)
        { s with chan := some ch.disableAllEvents, tasks := s.tasks ++ [.resetChan ch.fd],
                 closed := s.closed ++ [ch.fd], opState := .kDisconnected,
                 frames := .retry :: .handlers hs :: fs }
  | succeeded (r : ConnectResult) (e : ℤ) (h : Handler) (hs : List Handler)
      (fs : List ConnectorFrame) (ch : Channel) (hf : s.frames = .handlers (h :: hs) :: fs)
      (ho : s.opState = .kConnecting) (hc : s.chan = some ch) (hcon : s.connect = true) :
      Steps s (.loop r e)
        { s with chan := some ch.disableAllEvents, tasks := s.tasks ++ [.resetChan ch.fd],
                 delivered := s.delivered ++ [ch.fd],
                 frames := .delivering ch.fd :: .handlers hs :: fs }
  | stopped (r : ConnectResult) (e : ℤ) (h : Handler) (hs : List Handler)
      (fs : List ConnectorFrame) (ch : Channel) (hf : s.frames = .handlers (h :: hs) :: fs)
      (ho : s.opState = .kConnecting) (hc : s.chan = some ch) (hcon : s.connect = false) :
      Steps s (.loop r e)
        { s with chan := some ch.disableAllEvents, tasks := s.tasks ++ [.resetChan ch.fd],
                 closed := s.closed ++ [ch.fd], opState := .kDisconnected,
                 frames := .handlers hs :: fs }

theorem removeAndResetChannel_eq {ch : Channel} (hc : s.chan = some ch) :
    s.removeAndResetChannel =
      some ({ s with chan := some ch.disableAllEvents,
                     tasks := s.tasks ++ [.resetChan ch.fd] }, ch.fd) := by
  simp [removeAndResetChannel, hc, Channel.remove, Channel.isNoneEvent, Channel.disableAllEvents]

theorem steps_of_startInLoop {r : ConnectResult} {e : ℤ} {fs : List ConnectorFrame}
    (hf : s.frames = .startInLoop :: fs)
    (h : ({ s with frames := fs } : Connector).startInLoop r = some s') :
    Steps s (.loop r e) s' := by
  simp only [startInLoop, Option.bind_eq_bind, Option.bind_eq_some_iff, assert_eq_some_iff] at h
  obtain ⟨-, ho, h⟩ := h
  cases hc : s.connect with
  | false =>
      rw [if_neg (by simp [hc])] at h
      exact Option.some.inj h ▸ .givenUp r e fs hf ho hc
  | true =>
      rw [if_pos hc] at h
      cases r with
      | ok | EINPROGRESS | EINTR | EISCONN =>
          simp only [doConnect, initConnectOp, Option.bind_eq_bind, Option.bind_eq_some_iff,
            assert_eq_some_iff] at h
          obtain ⟨-, hch, h⟩ := h
          exact Option.some.inj h ▸ .connecting _ e fs hf ho hc rfl hch
      | EAGAIN | EADDRINUSE | EADDRNOTAVAIL | ECONNREFUSED | ENETUNREACH =>
          exact Option.some.inj h ▸ .refused _ e fs hf ho hc rfl
      | EACCES | EPERM | EAFNOSUPPORT | EBADF | EFAULT | ENOTSOCK | other errno =>
          exact Option.some.inj h ▸ .failed _ e fs hf ho hc rfl rfl

theorem handleAsyncError_cases (h : s.handleAsyncError = some s') :
    s' = s ∨ ∃ ch, s.opState = .kConnecting ∧ s.chan = some ch ∧
      s' = { s with chan := some ch.disableAllEvents, tasks := s.tasks ++ [.resetChan ch.fd],
                    closed := s.closed ++ [ch.fd], opState := .kDisconnected,
                    frames := .retry :: s.frames } := by
  unfold handleAsyncError at h
  by_cases ho : s.opState = .kConnecting
  · rw [if_pos ho] at h
    cases hc : s.chan with
    | none => simp [removeAndResetChannel, hc] at h
    | some ch =>
        rw [removeAndResetChannel_eq hc] at h
        exact .inr ⟨ch, ho, rfl, (Option.some.inj h).symm⟩
  · rw [if_neg ho] at h
    exact .inl (Option.some.inj h).symm

theorem handleWrite_cases {e : ℤ} (h : s.handleWrite e = some s') :
    s' = s ∨ ∃ ch, s.opState = .kConnecting ∧ s.chan = some ch ∧
      (s' = { s with chan := some ch.disableAllEvents, tasks := s.tasks ++ [.resetChan ch.fd],
                     closed := s.closed ++ [ch.fd], opState := .kDisconnected,
                     frames := .retry :: s.frames } ∨
        (s.connect = true ∧
          s' = { s with chan := some ch.disableAllEvents, tasks := s.tasks ++ [.resetChan ch.fd],
                        delivered := s.delivered ++ [ch.fd],
                        frames := .delivering ch.fd :: s.frames }) ∨
        (s.connect = false ∧
          s' = { s with chan := some ch.disableAllEvents, tasks := s.tasks ++ [.resetChan ch.fd],
                        closed := s.closed ++ [ch.fd], opState := .kDisconnected })) := by
  unfold handleWrite at h
  by_cases ho : s.opState = .kConnecting
  · rw [if_pos ho] at h
    cases hc : s.chan with
    | none => simp [removeAndResetChannel, hc] at h
    | some ch =>
        rw [removeAndResetChannel_eq hc] at h
        refine .inr ⟨ch, ho, rfl, ?_⟩
        simp only [Option.bind_eq_bind, Option.bind_some] at h
        by_cases he : e ≠ 0
        · rw [if_pos he] at h
          exact .inl (Option.some.inj h).symm
        · rw [if_neg he] at h
          cases hcon : s.connect with
          | true =>
              rw [if_pos hcon] at h
              exact .inr (.inl ⟨rfl, hcon ▸ (Option.some.inj h).symm⟩)
          | false =>
              rw [if_neg (by simp [hcon])] at h
              exact .inr (.inr ⟨rfl, hcon ▸ (Option.some.inj h).symm⟩)
  · rw [if_neg ho] at h
    exact .inl (Option.some.inj h).symm

theorem steps_of_handle {r : ConnectResult} {e : ℤ} {h : Handler} {hs : List Handler}
    {fs : List ConnectorFrame} (hf : s.frames = .handlers (h :: hs) :: fs)
    (hst : ({ s with frames := .handlers hs :: fs } : Connector).handle e h = some s') :
    Steps s (.loop r e) s' := by
  cases h with
  | close | read => exact Option.some.inj hst ▸ .ignored r e _ hs fs hf
  | error =>
      rcases handleAsyncError_cases hst with rfl | ⟨ch, ho, hc, rfl⟩
      · exact .ignored r e _ hs fs hf
      · exact .broken r e _ hs fs ch hf ho hc
  | write =>
      rcases handleWrite_cases hst with rfl | ⟨ch, ho, hc, rfl | ⟨hcon, rfl⟩ | ⟨hcon, rfl⟩⟩
      · exact .ignored r e _ hs fs hf
      · exact .broken r e _ hs fs ch hf ho hc
      · exact .succeeded r e _ hs fs ch hf ho hc hcon
      · exact .stopped r e _ hs fs ch hf ho hc hcon

theorem steps_of_next {r : ConnectResult} {e : ℤ} (h : s.next r e = some s') :
    Steps s (.loop r e) s' := by
  unfold next at h
  cases hf : s.frames with
  | nil => simp [hf] at h
  | cons f fs =>
      simp only [hf] at h
      cases f with
      | startInLoop => exact steps_of_startInLoop hf h
      | retry =>
          simp only [runAfter] at h
          cases hc : s.connect with
          | true =>
              rw [if_pos hc] at h
              exact Option.some.inj h ▸ .armed r e fs _ hf hc
          | false =>
              rw [if_neg (by simp [hc])] at h
              exact Option.some.inj h ▸ .notArmed r e fs hf hc
      | delivering fd => exact Option.some.inj h ▸ .delivered r e fd fs hf
      | handlers hs =>
          cases hs with
          | nil => exact Option.some.inj h ▸ .handled r e fs hf
          | cons h₀ hs => exact steps_of_handle hf h

theorem steps_of_step (h : s.step a = some s') : Steps s a s' := by
  cases a with
  | start onLoop =>
      cases onLoop with
      | true =>
          obtain ⟨hu, h⟩ := guard_bind_eq_some_iff.mp h
          exact Option.some.inj h ▸ .startInline hu
      | false => exact Option.some.inj h ▸ .startOther
  | enqueue =>
      obtain ⟨hn, h⟩ := guard_bind_eq_some_iff.mp h
      exact Option.some.inj h ▸ .enqueue hn
  | stop => exact Option.some.inj h ▸ .stop
  | restart =>
      obtain ⟨⟨hf, ho⟩, h⟩ := guard_bind_eq_some_iff.mp h
      exact Option.some.inj h ▸ .restart hf ho
  | event revents =>
      obtain ⟨⟨hf, hc⟩, h⟩ := guard_bind_eq_some_iff.mp h
      exact Option.some.inj h ▸ .event revents hf hc
  | timer i =>
      obtain ⟨⟨hf, hi⟩, h⟩ := guard_bind_eq_some_iff.mp h
      exact Option.some.inj h ▸ .timer i hf hi
  | task =>
      obtain ⟨hf, h⟩ := guard_bind_eq_some_iff.mp h
      unfold runTask at h
      cases ht : s.tasks with
      | nil => simp [ht] at h
      | cons t ts =>
          simp only [ht] at h
          cases t with
          | startInLoop => exact Option.some.inj h ▸ .runStart ts hf ht
          | resetChan fd => exact Option.some.inj h ▸ .runReset fd ts hf ht
  | loop r e => exact steps_of_next h

end Connector

end Muduo
