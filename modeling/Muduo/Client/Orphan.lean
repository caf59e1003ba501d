/-
# `Muduo.Client.Orphan` — a connection, and `~TcpClient`

One connection of a client, from `HandleConnectSuccessfully` to its last reference,
with the loop of the client and any number of other threads.  The destructor may run
in any of them.

    alive                 the weak_ptr in onCloseCb_ can be locked
    connection            connection_ refers to the connection
    stack                 what the loop thread is in
    active                the channel was reported by Poll, with these events
    calls                 what other threads are about to enqueue

The loop thread holds the client where it has locked the weak_ptr: in
`HandleConnectSuccessfully` and in `HandleRemoveConnection`.  When the user drops the
client meanwhile, the destructor runs at the end of that function (`release`).

    destroy               the last reference to the client is dropped
    destructor            the callback that closes is enqueued, and connection_ is gone
    poll, dispatch, swap, task, advance
                          what the loop thread does
    send, shutdown, retrieve, setHighWater
                          what the user's code calls, in the loop thread or in another one
    enqueue j             another thread comes to the end of EnqueueEventLoop

The callback of the destructor closes a connection that is connected, and passes over
one that is disconnecting.  From then on such a connection has no owner but the
references of the user and of what is queued for it: when they go, its destructor
finds it disconnecting, and its channel in the poller (`last_reference`).

Left out: the other channels of the loop, the other connections of the client, none of
which takes the place of one that is there (`Client.Attempts`), the mutex of the client
(`connection_` is read and written in one step), and the storage of the connection.
-/
import Muduo.Server.Release
import Muduo.Server.Project

namespace Muduo

open Runs

/-- What is queued in the loop for the connection. -/
inductive ClientTask
  /-- the callback of `~TcpClient` -/
  | forceClose
  | sendInLoop (buf : List Byte)
  | shutdownInLoop
  | writeComplete
  | highWater (size : ℕ)
deriving DecidableEq, Repr

/-- What the loop thread is in. -/
inductive ClientFrame
  /-- `HandleConnectSuccessfully`, in front of `StepIntoEstablished` -/
  | established
  /-- `HandleEventsWithGuard`, in front of these callbacks -/
  | handlers (hs : List Handler)
  /-- `onCloseCb_`, in front of `weak.lock()` -/
  | closed
  /-- in front of `StepIntoDestroyed`, and in it in front of `chan_->Remove()` -/
  | destroyed | remove
  | shutdownInLoop
  /-- a callback of the user -/
  | callback
  /-- the end of a function that holds the client -/
  | release
deriving DecidableEq, Repr

structure ClientConn where
  tcp : TcpConnection
  log : List ConnEvent
  alive : Bool
  connection : Bool
  stack : List ClientFrame
  eventHandling : Bool
  active : Option (BitVec 32)
  batch : List ClientTask
  queue : List ClientTask
  calls : List ClientTask
  /-- the callback of the destructor has found the connection disconnecting -/
  passed : Bool
  failed : Bool

inductive ClientConnAct
  | destroy | destructor
  | poll (revents : Option (BitVec 32))
  | dispatch
  | swap
  | task (r : SysResult)
  | advance (r : SysResult)
  | send (onLoop : Bool) (buf : List Byte) (w : WriteResult)
  | shutdown (onLoop : Bool)
  | enqueue (j : ℕ)
  | retrieve (n : ℕ)
  | setHighWater (mark : ℕ)

/-- What an effect leaves in the queue. -/
def ConnEffect.clientTasks : ConnEffect → List ClientTask
  | .queueWriteComplete => [.writeComplete]
  | .queueHighWater size => [.highWater size]
  | .runShutdownInLoop | .connectionCb | .onMessageCb | .onCloseCb | .write _ | .shutdownWrite
  | .logError => []

/-- What the loop thread is in by an effect. -/
def ConnEffect.clientFrames : ConnEffect → List ClientFrame
  | .runShutdownInLoop => [.shutdownInLoop]
  | .onCloseCb => [.closed]
  | .connectionCb | .onMessageCb => [.callback]
  | .queueWriteComplete | .queueHighWater _ | .write _ | .shutdownWrite | .logError => []

namespace ClientFrame

/-- The function has a `shared_ptr` to the connection. -/
def Owns : ClientFrame → Prop
  | established | handlers _ | closed | destroyed | remove | shutdownInLoop => True
  | callback | release => False

instance : DecidablePred Owns
  | established | handlers _ | closed | destroyed | remove | shutdownInLoop => .isTrue trivial
  | callback | release => .isFalse id

end ClientFrame

namespace ClientConn

/-- A connection that `HandleConnectSuccessfully` has put into `connection_`. -/
def init (tcp : TcpConnection) : ClientConn :=
  { tcp, log := [], alive := true, connection := true, stack := [.established, .release],
    eventHandling := true, active := none, batch := [], queue := [], calls := [], passed := false,
    failed := false }

/-- The user's code runs in the loop thread. -/
def InUser (s : ClientConn) : Prop := s.stack = [] ∨ s.stack.head? = some .callback

instance (s : ClientConn) : Decidable s.InUser := inferInstanceAs (Decidable (_ ∨ _))

/-- The loop thread calls a function of the connection, or its assertion fails. -/
def run (s : ClientConn) (op : LifeOp) (after : List ClientFrame) : ClientConn :=
  match op.run s.tcp with
  | none => { s with failed := true }
  | some (tcp, effs) =>
      { s with tcp,
               log := s.log ++ (op.noted ++ effs.flatMap (ConnEffect.calls tcp)),
               stack := effs.flatMap ConnEffect.clientFrames ++ (after ++ s.stack),
               queue := s.queue ++ effs.flatMap ConnEffect.clientTasks }

/-- `onCloseCb_`: `HandleRemoveConnection` of a client that is still there, up to
`StepIntoDestroyed`. -/
def onClose (s : ClientConn) : ClientConn :=
  if s.alive then
    if s.connection then { s with connection := false, stack := .destroyed :: .release :: s.stack }
    else { s with failed := true }
  else { s with stack := .destroyed :: s.stack }

/-- The callback of `~TcpClient`. -/
def forceClose (s : ClientConn) : ClientConn :=
  if s.tcp.state = .connected ∨ s.tcp.state = .connecting then s.run .close []
  else if s.tcp.state = .disconnecting then { s with passed := true } else s

/-- The loop thread calls what was queued. -/
def call (s : ClientConn) (r : SysResult) : ClientTask → ClientConn
  | .forceClose => s.forceClose
  | .sendInLoop buf => s.run (.send buf r.write) []
  | .shutdownInLoop => s.run .shutdownInLoop []
  | .writeComplete => s.run .writeComplete [.callback]
  | .highWater size => s.run (.highWater size) [.callback]

/-- The loop thread goes on with the function that it is in. -/
def perform (s : ClientConn) (r : SysResult) : ClientFrame → ClientConn
  | .established => s.run .established []
  | .handlers (h :: hs) => { s with stack := .handlers hs :: s.stack }.run (h.op r) []
  | .handlers [] => s
  | .closed => s.onClose
  | .destroyed => s.run .destroyed [.remove]
  | .remove => s.run .remove []
  | .shutdownInLoop => s.run .shutdownInLoop []
  | .callback | .release => s

/-- The system calls of a queued callback keep to their documentation. -/
def TaskAnswered (r : SysResult) : ClientTask → Prop
  | .sendInLoop buf => r.write.AtMost buf.length
  | .forceClose | .shutdownInLoop | .writeComplete | .highWater _ => True

instance (r : SysResult) : DecidablePred (TaskAnswered r)
  | .sendInLoop buf => inferInstanceAs (Decidable (r.write.AtMost buf.length))
  | .forceClose | .shutdownInLoop | .writeComplete | .highWater _ => .isTrue trivial

/-- So do those of a function that the loop thread is in. -/
def Answered (tcp : TcpConnection) (r : SysResult) : ClientFrame → Prop
  | .handlers (.write :: _) => r.write.AtMost tcp.outputBuffer.readableBytes
  | .handlers (.read :: _) =>
      r.readv.AtMost (Region.total (tcp.inputBuffer.iovecs r.extrabuf))
  | _ => True

instance (tcp : TcpConnection) (r : SysResult) (f : ClientFrame) :
    Decidable (Answered tcp r f) := by
  unfold Answered
  split <;> infer_instance

/-- What `Poll` may report of the channel. -/
def Reported (s : ClientConn) (revents : BitVec 32) : Prop :=
  (revents &&& (POLLRDHUP ||| POLLPRI) ≠ 0 → revents &&& POLLIN ≠ 0) ∧
    s.tcp.chan.isNoneEvent = false

instance (s : ClientConn) (revents : BitVec 32) : Decidable (s.Reported revents) :=
  inferInstanceAs (Decidable (_ ∧ _))

def step (s : ClientConn) : ClientConnAct → Option ClientConn
  | .destroy => do
      guard (s.alive = true ∧ .release ∉ s.stack)
      some { s with alive := false }
  | .destructor => do
      guard (s.alive = false ∧ s.connection = true)
      some { s with connection := false, queue := s.queue ++ [.forceClose] }
  | .poll revents => do
      guard (s.stack = [] ∧ s.eventHandling = false ∧ s.batch = [])
      guard (∀ r ∈ revents, s.Reported r)
      some { s with eventHandling := true, active := revents }
  | .dispatch => do
      guard (s.stack = [] ∧ s.eventHandling = true)
      let revents ← s.active
      some { s with active := none, stack := [.handlers (Channel.handlers revents)] }
  | .swap => do
      guard (s.stack = [] ∧ s.eventHandling = true ∧ s.active = none)
      some { s with eventHandling := false, batch := s.queue, queue := [] }
  | .task r => do
      guard (s.stack = [])
      match s.batch with
      | [] => none
      | t :: batch =>
          guard (TaskAnswered r t)
          some ({ s with batch }.call r t)
  | .advance r =>
      match s.stack with
      | [] => none
      | f :: stack => do
          guard (Answered s.tcp r f)
          some ({ s with stack }.perform r f)
  | .send onLoop buf w =>
      if onLoop then do
        guard (s.InUser ∧ w.AtMost buf.length)
        some (if s.tcp.state = .connected then s.run (.send buf w) [] else s)
      else
        some (if s.tcp.state = .connected then { s with calls := s.calls ++ [.sendInLoop buf] }
          else s)
  | .shutdown onLoop =>
      if onLoop then do
        guard s.InUser
        some (s.run .shutdown [])
      else
        some (if s.tcp.state = .connected then
          { s with tcp := s.tcp.shutdown.1, calls := s.calls ++ [.shutdownInLoop] } else s)
  | .enqueue j => do
      let t ← s.calls[j]?
      some { s with calls := s.calls.eraseIdx j, queue := s.queue ++ [t] }
  | .retrieve n => do
      guard (s.InUser ∧ n ≤ s.tcp.inputBuffer.readableBytes)
      some (s.run (.retrieve n) [])
  | .setHighWater mark => do
      guard s.InUser
      some (s.run (.setHighWater mark) [])

/-! ## What is due -/

end ClientConn

/-- What a callback is to the connection: that of the destructor is nothing it waits for. -/
def ClientTask.due : ClientTask → List Due
  | .forceClose => []
  | .sendInLoop _ => [.send]
  | .shutdownInLoop => [.shutdown]
  | .writeComplete | .highWater _ => [.called]

def ClientFrame.due : ClientFrame → List Due
  | .established => [.established]
  | .handlers hs => List.replicate (hs.countP Handler.mayClose) .event
  | .closed => [.removal]
  | .destroyed => [.destroyed]
  | .remove => [.remove]
  | .shutdownInLoop => [.shutdown]
  | .callback | .release => []

namespace ClientConn

variable {s s' u : ClientConn} {a : ClientConnAct} {op : LifeOp} {d : Due → ℕ}
  {after : List ClientFrame}

def dues (s : ClientConn) : List Due :=
  s.stack.flatMap ClientFrame.due ++
    s.active.toList.flatMap (fun r => (ClientFrame.handlers (Channel.handlers r)).due) ++
    s.calls.flatMap ClientTask.due ++ s.batch.flatMap ClientTask.due ++
    s.queue.flatMap ClientTask.due

/-- How much of `x` is due to the connection. -/
def due (s : ClientConn) (x : Due) : ℕ := s.dues.count x

/-- The effects leave due in the loop what they leave due. -/
theorem count_effects (effs : List ConnEffect) (x : Due) :
    ((effs.flatMap ConnEffect.clientFrames).flatMap ClientFrame.due).count x +
      ((effs.flatMap ConnEffect.clientTasks).flatMap ClientTask.due).count x =
      (effs.flatMap ConnEffect.due).count x := by
  induction effs with
  | nil => rfl
  | cons e effs ih =>
      simp only [List.flatMap_cons, List.flatMap_append, List.count_append, ← ih]
      have he : ((e.clientFrames).flatMap ClientFrame.due).count x +
          ((e.clientTasks).flatMap ClientTask.due).count x = e.due.count x := by
        cases e with
        | queueWriteComplete | queueHighWater => exact Nat.zero_add _
        | runShutdownInLoop | onCloseCb | connectionCb | onMessageCb | write | shutdownWrite
        | logError => rfl
      omega

/-- What an operation leaves due. -/
theorem due_run {tcp : TcpConnection} {effs : List ConnEffect}
    (h : op.run s.tcp = some (tcp, effs)) (hafter : after.flatMap ClientFrame.due = op.after)
    (x : Due) : (s.run op after).due x = s.due x + (op.leaves effs).count x := by
  have heffs := count_effects effs x
  simp only [due, dues, run, h, LifeOp.leaves, List.flatMap_append, List.count_append, hafter]
  omega

end ClientConn

/-! ## The state goes forward -/

/-- The state of a connection in an operation: it stays, goes on by one, or ends. -/
def ConnState.Forward (st st' : ConnState) : Prop :=
  st' = st ∨ st' = .disconnected ∨ st = .connecting ∧ st' = .connected ∨
    st = .connected ∧ st' = .disconnecting

/-- A connection that has not ended had not, and goes on being disconnecting. -/
theorem ConnState.Forward.before {st st' : ConnState} (h : st.Forward st')
    (hne : st' ≠ .disconnected) :
    st ≠ .disconnected ∧ (st = .disconnecting → st' = .disconnecting) := by
  rcases h with rfl | hst | ⟨rfl, rfl⟩ | ⟨rfl, rfl⟩
  · exact ⟨hne, id⟩
  · exact absurd hst hne
  · exact ⟨nofun, nofun⟩
  · exact ⟨nofun, nofun⟩

theorem TcpConnection.forward_handleClose {c c' : TcpConnection} {effs : List ConnEffect}
    (h : c.handleClose = some (c', effs)) : c'.state = .disconnected := by
  obtain ⟨_, -, h⟩ := Option.bind_eq_some_iff.mp h
  obtain ⟨rfl, rfl⟩ := Prod.mk.inj (Option.some.inj h)
  rfl

theorem TcpConnection.forward_handleRead {c c' : TcpConnection} {effs : List ConnEffect}
    {extrabuf : Vector Byte Buffer.extrabufSize} {r : ReadvResult}
    (h : c.handleRead extrabuf r = some (c', effs)) :
    c'.state = c.state ∨ c'.state = .disconnected := by
  obtain ⟨⟨b, ret⟩, -, h⟩ := Option.bind_eq_some_iff.mp h
  cases ret with
  | error e =>
      obtain ⟨rfl, rfl⟩ := Prod.mk.inj (Option.some.inj h)
      exact .inl rfl
  | ok n =>
      dsimp only at h
      split at h
      · exact .inr (forward_handleClose h)
      · obtain ⟨rfl, rfl⟩ := Prod.mk.inj (Option.some.inj h)
        exact .inl rfl

theorem LifeOp.forward {tcp tcp' : TcpConnection} {op : LifeOp} {effs : List ConnEffect}
    (h : op.run tcp = some (tcp', effs)) : tcp.state.Forward tcp'.state := by
  cases op with
  | established =>
      obtain ⟨_, hst, h⟩ := Option.bind_eq_some_iff.mp h
      obtain ⟨rfl, rfl⟩ := Prod.mk.inj (Option.some.inj h)
      exact .inr (.inr (.inl ⟨assert_eq_some_iff.mp hst, rfl⟩))
  | destroyed =>
      have he : tcp.stepIntoDestroyed = (tcp', effs) := Option.some.inj h
      unfold TcpConnection.stepIntoDestroyed at he
      split at he
      · obtain ⟨rfl, -⟩ := Prod.mk.inj he
        exact .inr (.inl rfl)
      · obtain ⟨rfl, -⟩ := Prod.mk.inj he
        exact .inl rfl
  | remove | retrieve =>
      obtain ⟨_, -, h⟩ := Option.bind_eq_some_iff.mp h
      obtain ⟨rfl, rfl⟩ := Prod.mk.inj (Option.some.inj h)
      exact .inl rfl
  | close => exact .inr (.inl (TcpConnection.forward_handleClose h))
  | read => exact (TcpConnection.forward_handleRead h).imp_right .inl
  | write => exact .inl (TcpConnection.quiet_handleWrite h).1
  | send => exact .inl (TcpConnection.quiet_sendInLoop h).1
  | shutdown =>
      have he : tcp.shutdown = (tcp', effs) := Option.some.inj h
      unfold TcpConnection.shutdown at he
      split at he
      · next hst =>
          obtain ⟨rfl, -⟩ := Prod.mk.inj he
          exact .inr (.inr (.inr ⟨hst, rfl⟩))
      · obtain ⟨rfl, -⟩ := Prod.mk.inj he
        exact .inl rfl
  | shutdownInLoop =>
      obtain ⟨rfl, rfl⟩ := Prod.mk.inj (Option.some.inj h)
      exact .inl (congrArg _ TcpConnection.quiet_shutdownInLoop.1)
  | error | writeComplete | highWater | setHighWater =>
      obtain ⟨rfl, rfl⟩ := Prod.mk.inj (Option.some.inj h)
      exact .inl rfl

/-- A connection that is up, and to which no event is due, may be closed. -/
theorem Lives.called {tcp : TcpConnection} {log : List ConnEvent} {d d' : Due → ℕ}
    (h : Lives tcp log d) (hup : tcp.IsUp) (hevent : d .event = 0)
    (hd : ∀ x, d' x = d x + [Due.event].count x) : Lives tcp log d' := by
  have hoff := Hosted.isUp_iff.mp hup
  have hnone : log.count .close = 0 := h.closed.trans (if_neg hoff.2)
  have hsame : ∀ x, x ≠ .event → d' x = d x := by
    intro x hx
    rw [hd x, List.count_singleton, if_neg fun he => hx (eq_of_beq he).symm, Nat.add_zero]
  exact
    { sound := h.sound
      fresh := fun h' => absurd h' hoff.1
      begun := fun _ =>
        ⟨(hsame .established fun h => Due.noConfusion h).trans (h.begun hoff.1).1,
          (h.begun hoff.1).2⟩
      closing := by
        rw [hsame .removal fun h => Due.noConfusion h,
          hsame .destroyed fun h => Due.noConfusion h]
        exact h.closing
      closed := h.closed
      events := by
        rw [hd .event, hevent, hnone]
        exact Nat.le_refl _
      removing := by
        rw [hsame .remove fun h => Due.noConfusion h]
        exact h.removing
      silent := h.silent
      untorn := (hsame .torn fun h => Due.noConfusion h).trans h.untorn }

namespace ClientConn

variable {s s' u : ClientConn} {a : ClientConnAct} {op : LifeOp} {d d' : Due → ℕ}
  {after : List ClientFrame}

/-! ## What every step keeps -/

/-- Something will close the connection, or its callback has passed over it. -/
def Kept (s : ClientConn) : Prop :=
  s.connection = true ∨ .forceClose ∈ s.batch ++ s.queue ∨
    s.tcp.state = .disconnecting ∧ s.passed = true

/-- `d x` is how much of `x` is due. -/
structure Holds (s : ClientConn) (d : Due → ℕ) : Prop where
  lives : Lives s.tcp s.log d
  calling : s.eventHandling = false → s.active = none
  handling : s.eventHandling = true → s.batch = []
  linked : s.alive = true → s.connection = true ∨ 0 < d .destroyed + s.log.count .down
  sane : s.failed = false

structure Inv (s : ClientConn) : Prop where
  holds : s.Holds s.due
  kept : s.tcp.state ≠ .disconnected → s.Kept

theorem inv_init {tcp : TcpConnection} (hs : tcp.Sound) (hst : tcp.state = .connecting) :
    (init tcp).Inv where
  holds :=
    { lives := lives_new hs hst fun x => by cases x <;> rfl
      calling := fun h => Bool.noConfusion h
      handling := fun _ => rfl
      linked := fun _ => .inl rfl
      sane := rfl }
  kept := fun _ => .inl rfl

theorem Kept.mono (h : s.Kept) (hc : s.connection = true → s'.connection = true)
    (ht : .forceClose ∈ s.batch ++ s.queue → .forceClose ∈ s'.batch ++ s'.queue)
    (hst : s.tcp.state = .disconnecting ∧ s.passed = true →
      s'.tcp.state = .disconnecting ∧ s'.passed = true) : s'.Kept :=
  h.imp hc fun h => h.imp ht hst

/-- What is due is due elsewhere. -/
theorem Holds.moved (h : s.Holds d) (hd : ∀ x, d' x = d x) : s.Holds d' := by
  obtain rfl : d' = d := funext hd
  exact h

/-! ### The functions of the connection -/

/-- An operation of which what it uses is due comes back. -/
theorem Holds.run (h : s.Holds d) (op : LifeOp) (hd : ∀ x, s.due x + op.uses.count x = d x)
    (hfit : op.Fits s.tcp) (hafter : after.flatMap ClientFrame.due = op.after) :
    (s.run op after).Holds (s.run op after).due := by
  have hdue : ∀ x ∈ op.uses, 0 < d x := by
    intro x hx
    have hpos := List.count_pos_iff.mpr hx
    have hx := hd x
    omega
  obtain ⟨tcp, effs, e, hlives⟩ := h.lives.ran hfit hdue
  have hdue' : ∀ x, (s.run op after).due x + op.uses.count x = d x + (op.leaves effs).count x := by
    intro x
    rw [due_run e hafter, ← hd x]
    omega
  have hnext := hlives _ hdue'
  have hdestroyed := hdue' .destroyed
  rw [op.count_leaves effs (.inl rfl), ← op.count_down effs] at hdestroyed
  revert hnext hdestroyed
  generalize (s.run op after).due = d'
  intro hnext hdestroyed
  simp only [ClientConn.run, e, LifeOp.calls_run e]
  refine ⟨hnext, h.calling, h.handling, fun ha => ?_, h.sane⟩
  refine (h.linked ha).imp_right fun hpos => ?_
  rw [List.count_append]
  omega

/-- It takes nothing from what will close the connection. -/
theorem kept_run (hk : s.tcp.state ≠ .disconnected → s.Kept)
    (hne : (s.run op after).tcp.state ≠ .disconnected) : (s.run op after).Kept := by
  cases e : op.run s.tcp with
  | none =>
      simp only [run, e] at hne ⊢
      exact hk hne
  | some r =>
      obtain ⟨tcp, effs⟩ := r
      simp only [run, e] at hne ⊢
      obtain ⟨hopen, hdis⟩ := (LifeOp.forward e).before hne
      refine (hk hopen).mono id (fun ht => ?_) fun hp => ⟨hdis hp.1, hp.2⟩
      rw [← List.append_assoc]
      exact List.mem_append_left _ ht

theorem Inv.run (h : s.Holds d) (hk : s.tcp.state ≠ .disconnected → s.Kept) (op : LifeOp)
    (hd : ∀ x, s.due x + op.uses.count x = d x) (hfit : op.Fits s.tcp)
    (hafter : after.flatMap ClientFrame.due = op.after) : (s.run op after).Inv :=
  ⟨h.run op hd hfit hafter, kept_run hk⟩

/-! ### The functions of the client -/

/-- `onCloseCb_`: the client that is still there has the connection in `connection_`. -/
theorem Inv.onClose (h : s.Holds d) (hd : ∀ x, s.due x + [Due.removal].count x = d x) :
    s.onClose.Inv := by
  have hremoval : 0 < d .removal := by
    have hx := hd .removal
    rw [List.count_singleton_self] at hx
    omega
  have hclosing := h.lives.closing
  have hevents := h.lives.events
  have hdis : s.tcp.state = .disconnected := h.lives.disconnected (by omega)
  have hlives : ∀ d', (∀ x, d' x = s.due x + [Due.destroyed].count x) →
      Lives s.tcp s.log d' ∧ 0 < d' .destroyed := by
    intro d' hd'
    refine ⟨h.lives.removal hremoval fun x => ?_, ?_⟩
    · rw [hd', ← hd x]
      omega
    · rw [hd' .destroyed, List.count_singleton_self]
      omega
  unfold ClientConn.onClose
  split
  · next ha =>
      have hc : s.connection = true := (h.linked ha).resolve_right fun hpos => by omega
      rw [if_pos hc]
      obtain ⟨hl, hpos⟩ := hlives
        ({ s with connection := false, stack := .destroyed :: .release :: s.stack } :
          ClientConn).due fun x => by
        simp only [due, dues, List.flatMap_cons, List.count_append, ClientFrame.due, List.count_nil]
        omega
      exact ⟨⟨hl, h.calling, h.handling, fun _ => .inr (Nat.add_pos_left hpos _), h.sane⟩,
        fun hne => absurd hdis hne⟩
  · next ha =>
      obtain ⟨hl, -⟩ := hlives ({ s with stack := .destroyed :: s.stack } : ClientConn).due
        fun x => by
        simp only [due, dues, List.flatMap_cons, List.count_append, ClientFrame.due]
        omega
      exact ⟨⟨hl, h.calling, h.handling, fun ha' => absurd ha' ha, h.sane⟩,
        fun hne => absurd hdis hne⟩

/-- The callback of the destructor, when nothing else is due in the loop thread. -/
theorem Inv.forceClose (h : s.Holds s.due) (hcon : s.tcp.state ≠ .connecting)
    (hevent : s.due .event = 0) : s.forceClose.Inv := by
  unfold ClientConn.forceClose
  split
  · next hst =>
      have hup : s.tcp.IsUp := .inl (hst.resolve_right hcon)
      have hcalled : s.Holds fun x => s.due x + [Due.event].count x :=
        { lives := h.lives.called hup hevent fun _ => rfl
          calling := h.calling
          handling := h.handling
          linked := h.linked
          sane := h.sane }
      refine ⟨hcalled.run .close (fun _ => rfl) trivial rfl, fun hne => absurd ?_ hne⟩
      obtain ⟨tcp, e, -, hst'⟩ := h.lives.sound.handleClose hup
      have e' : LifeOp.run s.tcp .close = some (tcp, [.onCloseCb]) := e
      simp only [ClientConn.run, e']
      exact hst'
  · next hst =>
      have hst := not_or.mp hst
      split
      · next hdis => exact ⟨⟨h.lives, h.calling, h.handling, h.linked, h.sane⟩,
          fun _ => .inr (.inr ⟨hdis, rfl⟩)⟩
      · next hdis =>
          refine ⟨h, fun hne => absurd ?_ hne⟩
          cases hs : s.tcp.state with
          | connecting => exact absurd hs hst.2
          | connected => exact absurd hs hst.1
          | disconnecting => exact absurd hs hdis
          | disconnected => rfl

/-! ### The steps -/

/-- The loop thread leaves the function that it is in, or the callback. -/
theorem due_pop {f : ClientFrame} {stack : List ClientFrame} (hs : s.stack = f :: stack) (x : Due) :
    ({ s with stack } : ClientConn).due x + f.due.count x = s.due x := by
  simp only [due, dues, hs, List.flatMap_cons, List.count_append]
  omega

theorem due_take {t : ClientTask} {batch : List ClientTask} (hb : s.batch = t :: batch) (x : Due) :
    ({ s with batch } : ClientConn).due x + t.due.count x = s.due x := by
  simp only [due, dues, hb, List.flatMap_cons, List.count_append]
  omega

/-- A callback of `HandleEventsWithGuard` uses up what it may close. -/
theorem count_handlers (r : SysResult) (h : Handler) (hs : List Handler) (x : Due) :
    (ClientFrame.handlers (h :: hs)).due.count x =
      (ClientFrame.handlers hs).due.count x + (h.op r).uses.count x := by
  cases h with
  | close | read =>
      rw [ClientFrame.due, List.countP_cons_of_pos rfl, List.replicate_succ', List.count_append]
      rfl
  | error | write =>
      rw [ClientFrame.due, List.countP_cons_of_neg Bool.false_ne_true]
      rfl

/-- Nothing but the destructor's callback, and what is due to the connection, is queued. -/
theorem due_of_stack (hs : s.stack = []) (ha : s.active = none) {x : Due} (hx : ¬ x.Minor) :
    s.due x = 0 := by
  have htask : ∀ l : List ClientTask, (l.flatMap ClientTask.due).count x = 0 := by
    intro l
    refine List.count_eq_zero.mpr fun hmem => hx ?_
    obtain ⟨t, -, hmem⟩ := List.mem_flatMap.mp hmem
    cases t with
    | forceClose => exact absurd hmem List.not_mem_nil
    | sendInLoop | shutdownInLoop | writeComplete | highWater =>
        exact List.mem_singleton.mp hmem ▸ trivial
  simp only [due, dues, hs, ha, List.count_append, htask, Option.toList_none, List.flatMap_nil,
    List.count_nil]

/-- What is queued is called, when the loop thread is in nothing else. -/
theorem Inv.call {r : SysResult} {t : ClientTask} {batch : List ClientTask} (h : s.Inv)
    (hs : s.stack = []) (hb : s.batch = t :: batch) (hans : TaskAnswered r t) :
    (({ s with batch } : ClientConn).call r t).Inv := by
  have hev : s.eventHandling = false := by
    refine Bool.eq_false_iff.mpr fun he => ?_
    exact absurd (hb.symm.trans (h.holds.handling he)) (List.cons_ne_nil t batch)
  have hrest : ({ s with batch } : ClientConn).Holds s.due :=
    { lives := h.holds.lives
      calling := h.holds.calling
      handling := fun he => Bool.noConfusion (he.symm.trans hev)
      linked := h.holds.linked
      sane := h.holds.sane }
  have hzero : ∀ x : Due, ¬ x.Minor → s.due x = 0 := fun x =>
    due_of_stack hs (h.holds.calling hev)
  have hcon : s.tcp.state ≠ .connecting := by
    intro hst
    have hone := (h.holds.lives.fresh hst).2 .established
    rw [hzero .established id, if_pos rfl] at hone
    exact absurd hone Nat.zero_ne_one
  have hd := due_take hb
  have hkept : t ≠ .forceClose → s.tcp.state ≠ .disconnected →
      ({ s with batch } : ClientConn).Kept := by
    intro ht hne
    refine (h.kept hne).mono id (fun hmem => ?_) id
    rw [hb] at hmem
    exact (List.mem_cons.mp hmem).resolve_left fun he => ht he.symm
  cases t with
  | forceClose =>
      exact .forceClose (hrest.moved hd) hcon ((hd .event).trans (hzero .event id))
  | sendInLoop buf => exact .run hrest (hkept nofun) (.send buf r.write) hd hans rfl
  | shutdownInLoop => exact .run hrest (hkept nofun) .shutdownInLoop hd trivial rfl
  | writeComplete => exact .run hrest (hkept nofun) .writeComplete hd trivial rfl
  | highWater size => exact .run hrest (hkept nofun) (.highWater size) hd trivial rfl

/-- The loop thread goes on with the function that it is in. -/
theorem Inv.perform {r : SysResult} {f : ClientFrame} {stack : List ClientFrame} (h : s.Inv)
    (hs : s.stack = f :: stack) (hans : Answered s.tcp r f) :
    (({ s with stack } : ClientConn).perform r f).Inv := by
  have hl := h.holds
  have hrest : ∀ stack, ({ s with stack } : ClientConn).Holds s.due := fun _ =>
    ⟨hl.lives, hl.calling, hl.handling, hl.linked, hl.sane⟩
  have hkept : ∀ stack, s.tcp.state ≠ .disconnected → ({ s with stack } : ClientConn).Kept :=
    fun _ hne => h.kept hne
  have hd := due_pop hs
  cases f with
  | established => exact .run (hrest stack) (hkept stack) .established hd trivial rfl
  | handlers hs' =>
      cases hs' with
      | nil => exact ⟨(hrest stack).moved hd, hkept stack⟩
      | cons h hs' =>
          refine .run (hrest (.handlers hs' :: stack)) (hkept _) (h.op r) (fun x => ?_) ?_ ?_
          · rw [← hd x, count_handlers r]
            simp only [due, dues, List.flatMap_cons, List.count_append]
            omega
          · cases h with
            | close | error => trivial
            | read | write => exact hans
          · cases h with
            | close | error | read | write => rfl
  | closed => exact .onClose (hrest stack) hd
  | destroyed => exact .run (hrest stack) (hkept stack) .destroyed hd trivial rfl
  | remove => exact .run (hrest stack) (hkept stack) .remove hd trivial rfl
  | shutdownInLoop => exact .run (hrest stack) (hkept stack) .shutdownInLoop hd trivial rfl
  | callback | release => exact ⟨(hrest stack).moved hd, hkept stack⟩

/-- The user's code calls a function that nothing has to be due for. -/
theorem Inv.user (h : s.Inv) (op : LifeOp) (hu : op.uses = []) (ha : op.after = [])
    (hfit : op.Fits s.tcp) : (s.run op []).Inv :=
  .run h.holds h.kept op (fun x => by rw [hu]; exact Nat.add_zero _) hfit ha.symm

/-- `Send` in the loop thread. -/
theorem Inv.sendInLoop {buf : List Byte} {w : WriteResult} (h : s.Inv)
    (hst : s.tcp.state = .connected) (hw : w.AtMost buf.length) :
    (s.run (.send buf w) []).Inv := by
  have hl := h.holds
  have hsent : s.Holds fun x => s.due x + [Due.send].count x :=
    ⟨hl.lives.loaded hst fun _ => rfl, hl.calling, hl.handling, hl.linked, hl.sane⟩
  exact .run hsent h.kept (.send buf w) (fun _ => rfl) hw rfl

theorem due_calls (t : ClientTask) (x : Due) :
    ({ s with calls := s.calls ++ [t] } : ClientConn).due x = s.due x + t.due.count x := by
  simp only [due, dues, List.flatMap_append, List.flatMap_singleton, List.count_append]
  omega

/-- `Send` in another thread, up to `EnqueueEventLoop`. -/
theorem Inv.sendElsewhere (h : s.Inv) (buf : List Byte) (hst : s.tcp.state = .connected) :
    ({ s with calls := s.calls ++ [.sendInLoop buf] } : ClientConn).Inv := by
  have hl := h.holds
  refine ⟨⟨hl.lives.loaded hst (due_calls _), hl.calling, hl.handling, fun ha => ?_, hl.sane⟩,
    h.kept⟩
  rw [due_calls]
  exact hl.linked ha

/-- `Shutdown` in another thread, up to `EnqueueEventLoop`. -/
theorem Inv.shutdownElsewhere (h : s.Inv) (hst : s.tcp.state = .connected) :
    ({ s with tcp := s.tcp.shutdown.1,
              calls := s.calls ++ [.shutdownInLoop] } : ClientConn).Inv := by
  have hl := h.holds
  have he : s.tcp.shutdown = ({ s.tcp with state := .disconnecting }, [.runShutdownInLoop]) :=
    if_pos hst
  have hlog : s.log ++ s.tcp.shutdown.2.flatMap ConnEffect.event = s.log := by
    rw [he]
    exact List.append_nil s.log
  have hlives : Lives s.tcp.shutdown.1 (s.log ++ s.tcp.shutdown.2.flatMap ConnEffect.event)
      ({ s with calls := s.calls ++ [.shutdownInLoop] } : ClientConn).due :=
    hl.lives.shutdown fun x => by
      rw [due_calls, he]
      rfl
  rw [hlog] at hlives
  refine ⟨⟨hlives, hl.calling, hl.handling, fun ha => ?_, hl.sane⟩, fun _ => ?_⟩
  · show _ ∨ 0 < ({ s with calls := s.calls ++ [.shutdownInLoop] } : ClientConn).due _ + _
    rw [due_calls]
    exact hl.linked ha
  · refine (h.kept (by rw [hst]; exact nofun)).mono id id fun hp => ?_
    exact absurd (hst.symm.trans hp.1) nofun

/-- `~TcpClient` enqueues the callback that closes. -/
theorem Inv.destructor (h : s.Inv) (ha : s.alive = false) :
    ({ s with connection := false, queue := s.queue ++ [.forceClose] } : ClientConn).Inv := by
  have hl := h.holds
  have hd : ∀ x, ({ s with connection := false, queue := s.queue ++ [.forceClose] } :
      ClientConn).due x = s.due x := by
    intro x
    simp only [due, dues, List.flatMap_append, List.flatMap_singleton, List.count_append,
      ClientTask.due, List.count_nil, Nat.add_zero]
  refine ⟨Holds.moved ⟨hl.lives, hl.calling, hl.handling, fun ha' => ?_, hl.sane⟩ hd, fun _ => ?_⟩
  · exact Bool.noConfusion (ha'.symm.trans ha)
  · exact .inr (.inl (List.mem_append_right _ (List.mem_append_right _ List.mem_cons_self)))

/-- `Poll` reports the channel, or not. -/
theorem Inv.poll {revents : Option (BitVec 32)} (h : s.Inv) (hs : s.stack = [])
    (hev : s.eventHandling = false) (hb : s.batch = []) (hrep : ∀ r ∈ revents, s.Reported r) :
    ({ s with eventHandling := true, active := revents } : ClientConn).Inv := by
  have hl := h.holds
  have ha := hl.calling hev
  have hlives : Lives s.tcp s.log
      ({ s with eventHandling := true, active := revents } : ClientConn).due ∧
      ({ s with eventHandling := true, active := revents } : ClientConn).due .destroyed =
        s.due .destroyed := by
    cases revents with
    | none =>
        have hd : ({ s with eventHandling := true, active := none } : ClientConn).due = s.due := by
          funext x
          simp only [due, dues, ha]
        exact ⟨hd ▸ hl.lives, congrFun hd _⟩
    | some r =>
        obtain ⟨hmask, hon⟩ := hrep r rfl
        have hd : ∀ x, ({ s with eventHandling := true, active := some r } : ClientConn).due x =
            s.due x + (List.replicate ((Channel.handlers r).countP Handler.mayClose)
              Due.event).count x := by
          intro x
          simp only [due, dues, ha, Option.toList_some, Option.toList_none, List.flatMap_singleton,
            List.flatMap_nil, List.count_append, List.count_nil, ClientFrame.due]
          omega
        refine ⟨hl.lives.polled hon (countP_handlers hmask)
          (due_of_stack hs ha id) hd, ?_⟩
        rw [hd, List.count_replicate]
        rfl
  refine ⟨⟨hlives.1, fun he => Bool.noConfusion he, fun _ => hb, fun hal => ?_, hl.sane⟩, h.kept⟩
  rw [hlives.2]
  exact hl.linked hal

/-- `HandleActiveChannels` turns to the channel. -/
theorem Inv.dispatch {revents : BitVec 32} (h : s.Inv) (hs : s.stack = [])
    (ha : s.active = some revents) :
    ({ s with active := none, stack := [.handlers (Channel.handlers revents)] } :
      ClientConn).Inv := by
  have hl := h.holds
  refine ⟨Holds.moved ⟨hl.lives, fun _ => rfl, hl.handling, hl.linked, hl.sane⟩ fun x => ?_, h.kept⟩
  simp only [due, dues, hs, ha, Option.toList_some, Option.toList_none, List.flatMap_singleton,
    List.flatMap_nil, List.count_append, List.count_nil]
  omega

/-- `HandlePendingCallbacks` swaps the queue out. -/
theorem Inv.swap (h : s.Inv) (hev : s.eventHandling = true) (ha : s.active = none) :
    ({ s with eventHandling := false, batch := s.queue, queue := [] } : ClientConn).Inv := by
  have hl := h.holds
  have hb := hl.handling hev
  refine ⟨Holds.moved ⟨hl.lives, fun _ => ha, fun he => Bool.noConfusion he, hl.linked, hl.sane⟩
    fun x => ?_, fun hne => (h.kept hne).mono id (fun ht => ?_) id⟩
  · simp only [due, dues, hb, List.flatMap_nil, List.count_append, List.count_nil]
    omega
  · rw [hb] at ht
    exact List.mem_append_left _ ht

/-- Another thread comes to the end of `EnqueueEventLoop`. -/
theorem Inv.enqueue {j : ℕ} {t : ClientTask} (h : s.Inv) (ht : s.calls[j]? = some t) :
    ({ s with calls := s.calls.eraseIdx j, queue := s.queue ++ [t] } : ClientConn).Inv := by
  have hl := h.holds
  obtain ⟨hj, rfl⟩ := List.getElem?_eq_some_iff.mp ht
  refine ⟨Holds.moved ⟨hl.lives, hl.calling, hl.handling, hl.linked, hl.sane⟩ fun x => ?_,
    fun hne => (h.kept hne).mono id (fun hmem => ?_) id⟩
  · have hperm := ((List.getElem_cons_eraseIdx_perm hj).flatMap_right ClientTask.due).count_eq x
    rw [List.flatMap_cons, List.count_append] at hperm
    simp only [due, dues, List.flatMap_append, List.flatMap_singleton, List.count_append, ← hperm]
    omega
  · rw [← List.append_assoc]
    exact List.mem_append_left _ hmem

/-- Every step keeps the invariant. -/
theorem Inv.step (h : s.Inv) (hst : s.step a = some s') : s'.Inv := by
  cases a with
  | destroy =>
      obtain ⟨-, hst⟩ := guard_bind_eq_some_iff.mp hst
      obtain rfl := Option.some.inj hst
      have hl := h.holds
      exact ⟨⟨hl.lives, hl.calling, hl.handling, fun ha => Bool.noConfusion ha, hl.sane⟩, h.kept⟩
  | destructor =>
      obtain ⟨⟨ha, -⟩, hst⟩ := guard_bind_eq_some_iff.mp hst
      exact Option.some.inj hst ▸ h.destructor ha
  | poll revents =>
      obtain ⟨⟨hs, hev, hb⟩, hst⟩ := guard_bind_eq_some_iff.mp hst
      obtain ⟨hrep, hst⟩ := guard_bind_eq_some_iff.mp hst
      exact Option.some.inj hst ▸ h.poll hs hev hb hrep
  | dispatch =>
      obtain ⟨⟨hs, -⟩, hst⟩ := guard_bind_eq_some_iff.mp hst
      obtain ⟨revents, ha, hst⟩ := Option.bind_eq_some_iff.mp hst
      exact Option.some.inj hst ▸ h.dispatch hs ha
  | swap =>
      obtain ⟨⟨-, hev, ha⟩, hst⟩ := guard_bind_eq_some_iff.mp hst
      exact Option.some.inj hst ▸ h.swap hev ha
  | task r =>
      obtain ⟨hs, hst⟩ := guard_bind_eq_some_iff.mp hst
      cases hb : s.batch with
      | nil =>
          rw [hb] at hst
          exact absurd hst.symm (Option.some_ne_none s')
      | cons t batch =>
          rw [hb] at hst
          obtain ⟨hans, hst⟩ := guard_bind_eq_some_iff.mp hst
          exact Option.some.inj hst ▸ h.call hs hb hans
  | advance r =>
      cases hs : s.stack with
      | nil =>
          simp only [ClientConn.step, hs] at hst
          exact absurd hst.symm (Option.some_ne_none s')
      | cons f stack =>
          simp only [ClientConn.step, hs] at hst
          obtain ⟨hans, hst⟩ := guard_bind_eq_some_iff.mp hst
          exact Option.some.inj hst ▸ h.perform hs hans
  | send onLoop buf w =>
      cases onLoop with
      | true =>
          obtain ⟨⟨-, hw⟩, hst⟩ := guard_bind_eq_some_iff.mp hst
          obtain rfl := Option.some.inj hst
          split
          · next hc => exact h.sendInLoop hc hw
          · exact h
      | false =>
          obtain rfl := Option.some.inj hst
          split
          · next hc => exact h.sendElsewhere buf hc
          · exact h
  | shutdown onLoop =>
      cases onLoop with
      | true =>
          obtain ⟨-, hst⟩ := guard_bind_eq_some_iff.mp hst
          exact Option.some.inj hst ▸ h.user .shutdown rfl rfl trivial
      | false =>
          obtain rfl := Option.some.inj hst
          split
          · next hc => exact h.shutdownElsewhere hc
          · exact h
  | enqueue j =>
      obtain ⟨t, ht, hst⟩ := Option.bind_eq_some_iff.mp hst
      exact Option.some.inj hst ▸ h.enqueue ht
  | retrieve n =>
      obtain ⟨⟨-, hn⟩, hst⟩ := guard_bind_eq_some_iff.mp hst
      exact Option.some.inj hst ▸ h.user (.retrieve n) rfl rfl hn
  | setHighWater mark =>
      obtain ⟨-, hst⟩ := guard_bind_eq_some_iff.mp hst
      exact Option.some.inj hst ▸ h.user (.setHighWater mark) rfl rfl trivial

/-! ## The last reference -/

/-- `connection_`, the loop thread, or something that is queued keeps the connection alive. -/
def Owned (s : ClientConn) : Prop :=
  s.connection = true ∨ (∃ f ∈ s.stack, f.Owns) ∨ s.calls ≠ [] ∨ s.batch ≠ [] ∨ s.queue ≠ []

instance (s : ClientConn) : Decidable s.Owned :=
  inferInstanceAs (Decidable (_ ∨ _ ∨ _ ∨ _ ∨ _))

/-- UP, HandleClose, DOWN and Channel::Remove, each once. -/
structure Through (s : ClientConn) : Prop where
  state : s.tcp.state = .disconnected
  silent : s.tcp.chan.isNoneEvent = true
  once : ∀ e ∈ [ConnEvent.up, .close, .down, .removed], s.log.count e = 1

/-- The destructor's callback has passed over it, and it has not been closed since. -/
structure Abandoned (s : ClientConn) : Prop where
  state : s.tcp.state = .disconnecting
  passed : s.passed = true
  untold : ∀ e ∈ [ConnEvent.close, .down, .removed], s.log.count e = 0

theorem inv_of_run {sockfd : ℤ} {wc : Bool} {tcp : TcpConnection}
    {tr : List (ClientConn × ClientConnAct)} (hnew : TcpConnection.new sockfd wc false 0 = some tcp)
    (hr : Run (stepOf step) (init tcp) tr s) : s.Inv := by
  obtain ⟨c, hc, hs, hst⟩ := TcpConnection.sound_new sockfd wc false 0
  obtain rfl := Option.some.inj (hnew.symm.trans hc)
  exact hr.invariant (inv_init hs hst) fun h hstep => h.step hstep

/-- To a connection without an owner nothing is due but an event. -/
theorem due_of_not_owned (h : ¬ s.Owned) {x : Due} (hx : x ≠ .event) : s.due x = 0 := by
  simp only [Owned, not_or, ne_eq, not_not] at h
  obtain ⟨-, hstack, hcalls, hbatch, hqueue⟩ := h
  have hframes : (s.stack.flatMap ClientFrame.due).count x = 0 := by
    refine List.count_eq_zero.mpr fun hmem => ?_
    obtain ⟨f, hf, hmem⟩ := List.mem_flatMap.mp hmem
    cases f with
    | callback | release => exact absurd hmem List.not_mem_nil
    | established | handlers | closed | destroyed | remove | shutdownInLoop =>
        exact hstack ⟨_, hf, trivial⟩
  have hactive : (s.active.toList.flatMap
      fun r => (ClientFrame.handlers (Channel.handlers r)).due).count x = 0 := by
    refine List.count_eq_zero.mpr fun hmem => hx ?_
    obtain ⟨r, -, hmem⟩ := List.mem_flatMap.mp hmem
    exact List.eq_of_mem_replicate hmem
  simp only [due, dues, hcalls, hbatch, hqueue, List.count_append, hframes, hactive,
    List.flatMap_nil, List.count_nil]

/-- In every run, with `~TcpClient` in any thread at any time: no assertion fails, DOWN comes
once at most and no message after it, and when the last owner of the connection goes it is
through, unless the destructor's callback has found it disconnecting. -/
theorem last_reference {sockfd : ℤ} {wc : Bool} {tcp : TcpConnection}
    {tr : List (ClientConn × ClientConnAct)} (hnew : TcpConnection.new sockfd wc false 0 = some tcp)
    (hr : Run (stepOf step) (init tcp) tr s) :
    s.failed = false ∧ s.log.count .down ≤ 1 ∧
      (s.log.Pairwise fun e e' => e = .down → e' ≠ .message) ∧
        (¬ s.Owned → s.Through ∨ s.Abandoned) := by
  have h := inv_of_run hnew hr
  have hl := h.holds.lives
  have hclosing := hl.closing
  have hclosed := hl.closed
  have hevents := hl.events
  refine ⟨h.holds.sane, by omega, hl.silent, fun hfree => ?_⟩
  by_cases hdis : s.tcp.state = .disconnected
  · rw [if_pos hdis] at hclosed
    have hremoval := due_of_not_owned hfree (x := .removal) nofun
    have hdestroyed := due_of_not_owned hfree (x := .destroyed) nofun
    have hremove := due_of_not_owned hfree (x := .remove) nofun
    exact .inl ⟨hdis, hl.sound.off (.inr hdis), (hl.once hremove (by omega)).2⟩
  · have hfree' := hfree
    simp only [Owned, not_or, ne_eq, not_not] at hfree'
    obtain ⟨hc, -, -, hb, hq⟩ := hfree'
    rcases h.kept hdis with hc' | hmem | ⟨hst, hp⟩
    · exact absurd hc' hc
    · rw [hb, hq] at hmem
      exact absurd hmem List.not_mem_nil
    · rw [if_neg hdis] at hclosed
      have hremoving := hl.removing
      refine .inr ⟨hst, hp, fun e he => ?_⟩
      rcases List.mem_cons.mp he with rfl | he
      · exact hclosed
      rcases List.mem_cons.mp he with rfl | he
      · omega
      · obtain rfl := List.mem_singleton.mp he
        omega

/-- The connection is set up, and another thread drops the client. -/
def dropped : List ClientConnAct :=
  List.replicate 3 (.advance TcpServer.nothing) ++
    [.destroy, .destructor, .swap, .task TcpServer.nothing] ++
    List.replicate 4 (.advance TcpServer.nothing)

/-- Before that it shuts the connection down. -/
def shutAndDropped : List ClientConnAct :=
  List.replicate 3 (.advance TcpServer.nothing) ++
    [.shutdown false, .enqueue 0, .destroy, .destructor, .swap, .task TcpServer.nothing,
      .task TcpServer.nothing]

/-- The run of a new connection over a list of actions. -/
def runNew (sockfd : ℤ) (as : List ClientConnAct) :
    Option (TcpConnection × (List (ClientConn × ClientConnAct) × ClientConn)) := do
  let tcp ← TcpConnection.new sockfd true false 0
  let r ← runAll step (init tcp) as
  some (tcp, r)

theorem run_of_runNew {sockfd : ℤ} {as : List ClientConnAct} {tcp : TcpConnection}
    {r : List (ClientConn × ClientConnAct) × ClientConn} (h : runNew sockfd as = some (tcp, r)) :
    TcpConnection.new sockfd true false 0 = some tcp ∧ Run (stepOf step) (init tcp) r.1 r.2 := by
  simp only [runNew, Option.bind_eq_bind, Option.bind_eq_some_iff, Option.some.injEq,
    Prod.mk.injEq] at h
  obtain ⟨tcp', hnew, r', hrun, rfl, rfl⟩ := h
  exact ⟨hnew, run_of_runAll hrun⟩

theorem dropped_and_shutAndDropped :
    (∃ tcp r, runNew 7 dropped = some (tcp, r) ∧ r.2.Through) ∧
      ∃ tcp r, runNew 7 shutAndDropped = some (tcp, r) ∧ r.2.Abandoned := by
  constructor
  · obtain ⟨tcp, r, h, hfree, hst⟩ : ∃ tcp r, runNew 7 dropped = some (tcp, r) ∧
        ¬ r.2.Owned ∧ r.2.tcp.state = .disconnected := exists_computed (by decide +kernel)
    obtain ⟨hnew, hrun⟩ := run_of_runNew h
    refine ⟨tcp, r, h, ((last_reference hnew hrun).2.2.2 hfree).resolve_right fun ha => ?_⟩
    exact nomatch hst.symm.trans ha.state
  · obtain ⟨tcp, r, h, hfree, hst⟩ : ∃ tcp r, runNew 7 shutAndDropped = some (tcp, r) ∧
        ¬ r.2.Owned ∧ r.2.tcp.state = .disconnecting := exists_computed (by decide +kernel)
    obtain ⟨hnew, hrun⟩ := run_of_runNew h
    refine ⟨tcp, r, h, ((last_reference hnew hrun).2.2.2 hfree).resolve_left fun ht => ?_⟩
    exact nomatch hst.symm.trans ht.state

end ClientConn

end Muduo
