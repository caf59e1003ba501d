/-
# `Muduo.Server.Model` — TcpServer.h, TcpServer.cpp, and the loops that it works in

A server, its connections and all threads.  Thread 0 is that of `loop_`, the
threads 1 .. poolSize are those of the loops of `ioThreadPool_`, the others run
no loop and only call `Send` and `Shutdown`.

A thread is what it still has to do: the functions it is in (`stack`), the
channels that are left of `activeChannels_`, the batch that
`HandlePendingCallbacks` has swapped out, and the queue of its loop.

    accept fd addr         Acceptor: HandleNewConnection
    poll l active          Poll comes back
    dispatch l             HandleActiveChannels turns to the next channel
    swap l                 HandlePendingCallbacks swaps the queue out
    task l                 it turns to the next callback
    advance i r            thread i goes on with the function that it is in; r is what a
                           system call in it comes back with
    send, shutdown, retrieve, setHighWater, destroy
                           what the user's code calls, in a callback or elsewhere

Two frames of the stack are calls across threads: `runInLoop` is `RunInEventLoop`,
which calls or enqueues, `enqueue` is `EnqueueEventLoop`.  They are steps of their
own, since other threads may come in between; what else a function does to its
connection is one step, as the other threads only look at `state_` and change it
with a compare-and-swap.

`poll` is what `poll(2)` does for TCP sockets: POLLRDHUP and POLLPRI come only
together with POLLIN; a channel without interest is not reported.

A failed assertion is recorded in `failed`, and the rest of its function is left
out.  `erased` are the results of `conns_.erase`; `stale` counts the calls of
`RemoveConnection` and `RemoveConnectionInLoop` on a server that is gone.  After
the destructor the loops go on, those of the pool as well.

Left out: the storage of the connections and when it is released, logging, and
how the threads of the pool are started and joined.
-/
import Muduo.Connection.Stream

namespace Muduo

/-- What a connection goes through: the calls of its callbacks, and `Channel::Remove`.
`up` and `down` are the calls of `connectionCb_` in `StepIntoEstablished` and in
`StepIntoDestroyed`, `close` is that of `onCloseCb_` in `HandleClose`. -/
inductive ConnEvent
  | up | down | message | writeComplete
  | highWater (size : ℕ)
  | close | removed
deriving DecidableEq, Repr

/-- A connection of the server, with its loop and what it has gone through. -/
structure ServerConn where
  tcp : TcpConnection
  loop : ℕ
  name : List Char
  log : List ConnEvent

/-- What is queued in a loop. -/
inductive ServerTask
  | stepIntoEstablished (c : ℕ) | stepIntoDestroyed (c : ℕ) | removeConnectionInLoop (c : ℕ)
  | sendInLoop (c : ℕ) (buf : List Byte) | shutdownInLoop (c : ℕ)
  | writeComplete (c : ℕ) | highWater (c : ℕ) (size : ℕ)
deriving DecidableEq, Repr

/-- What a thread is in. -/
inductive ServerFrame
  | call (t : ServerTask)
  | runInLoop (loop : ℕ) (t : ServerTask)
  | enqueue (loop : ℕ) (t : ServerTask)
  /-- `HandleEventsWithGuard`, in front of these callbacks -/
  | handlers (c : ℕ) (hs : List Handler)
  /-- `StepIntoDestroyed`, in front of `chan_->Remove()` -/
  | remove (c : ℕ)
  /-- a callback of the user -/
  | callback
  /-- `~TcpServer`, in front of these connections -/
  | destructor (rest : List ℕ)
deriving DecidableEq, Repr

structure ServerThread where
  stack : List ServerFrame
  eventHandling : Bool
  active : List (ℕ × BitVec 32)
  batch : List ServerTask
  queue : List ServerTask

/-- How far the destructor has come. -/
inductive ServerPhase
  | alive | destructing | gone
deriving DecidableEq, Repr

/-- `class TcpServer`, with its loops; `accepted` are all connections in the order in
which they were accepted. -/
structure TcpServer where
  name : List Char
  writeCompleteCb : Bool
  poolSize : ℕ
  nextLoopIdx : ℕ
  nextConnID : BitVec 64
  conns : List (List Char × ℕ)
  accepted : List ServerConn
  threads : List ServerThread
  phase : ServerPhase
  erased : List ℕ
  stale : ℕ
  failed : Bool

/-- What the system calls of a step come back with. -/
structure SysResult where
  write : WriteResult
  extrabuf : Vector Byte Buffer.extrabufSize
  readv : ReadvResult

inductive ServerAct
  | accept (connfd : ℤ) (ipPort : List Char)
  | poll (l : ℕ) (active : List (ℕ × BitVec 32))
  | dispatch (l : ℕ)
  | swap (l : ℕ)
  | task (l : ℕ)
  | advance (i : ℕ) (r : SysResult)
  | send (i c : ℕ) (buf : List Byte)
  | shutdown (i c : ℕ)
  | retrieve (i c n : ℕ)
  | setHighWater (i c mark : ℕ)
  | destroy (order : List ℕ)

/-- The callback that an effect is, other than `connectionCb_`. -/
def ConnEffect.event : ConnEffect → List ConnEvent
  | .onMessageCb => [.message]
  | .onCloseCb => [.close]
  | _ => []

/-- The callback that an effect of a function is which has left the connection as `tcp`: by
`connectionCb_` the user learns whether it is connected. -/
def ConnEffect.calls (tcp : TcpConnection) : ConnEffect → List ConnEvent
  | .connectionCb => [if tcp.state = .connected then .up else .down]
  | e => e.event

/-- `RemoveConnection`. -/
def removeConnection (c : ℕ) : ServerFrame := .runInLoop 0 (.removeConnectionInLoop c)

/-- What an effect of a function of connection `c` leaves its thread with. -/
def ConnEffect.frames (loop c : ℕ) : ConnEffect → List ServerFrame
  | .queueWriteComplete => [.enqueue loop (.writeComplete c)]
  | .queueHighWater size => [.enqueue loop (.highWater c size)]
  | .runShutdownInLoop => [.runInLoop loop (.shutdownInLoop c)]
  | .onCloseCb => [removeConnection c]
  | .connectionCb | .onMessageCb => [.callback]
  | .write _ | .shutdownWrite | .logError => []

namespace ReadvResult

/-- `readv(2)` of `len` bytes delivers no more than these. -/
def AtMost (len : ℕ) : ReadvResult → Prop
  | .delivered data => data.length ≤ len
  | .failed _ => True

instance (len : ℕ) : (r : ReadvResult) → Decidable (r.AtMost len)
  | .delivered _ => inferInstanceAs (Decidable (_ ≤ _))
  | .failed _ => inferInstanceAs (Decidable True)

end ReadvResult

namespace ServerThread

/-- A thread before its loop has begun. -/
def idle : ServerThread := ⟨[], false, [], [], []⟩

/-- The user's code runs: in a callback of a connection, or outside of them all. -/
def InUser (t : ServerThread) : Prop := t.stack = [] ∨ t.stack.head? = some .callback

instance (t : ServerThread) : Decidable t.InUser := inferInstanceAs (Decidable (_ ∨ _))

end ServerThread

namespace TcpServer

/-- A server that listens, with `users` threads besides those of the loops. -/
def init (name : List Char) (writeCompleteCb : Bool) (poolSize users : ℕ) : TcpServer :=
  { name, writeCompleteCb, poolSize, nextLoopIdx := 0, nextConnID := 0, conns := [],
    accepted := [], threads := List.replicate (1 + poolSize + users) .idle, phase := .alive,
    erased := [], stale := 0, failed := false }

def onThread (s : TcpServer) (i : ℕ) (f : ServerThread → ServerThread) : TcpServer :=
  { s with threads := s.threads.modify i f }

/-- Thread `i` enters these functions, the first one first. -/
def push (s : TcpServer) (i : ℕ) (fs : List ServerFrame) : TcpServer :=
  s.onThread i fun t => { t with stack := fs ++ t.stack }

def pop (s : TcpServer) (i : ℕ) : TcpServer :=
  s.onThread i fun t => { t with stack := t.stack.tail }

/-- `EnqueueEventLoop` of loop `l`. -/
def enqueue (s : TcpServer) (l : ℕ) (task : ServerTask) : TcpServer :=
  s.onThread l fun t => { t with queue := t.queue ++ [task] }

/-- What comes back, or a failed assertion. -/
def check (s : TcpServer) (o : Option TcpServer) : TcpServer := o.getD { s with failed := true }

/-! ## The functions of the connections -/

/-- What thread `i` is left with when a function of connection `c` has come back. -/
def effects (s : TcpServer) (i c : ℕ) (k : ServerConn) (ev : List ConnEvent)
    (r : TcpConnection × List ConnEffect) (after : List ServerFrame) : TcpServer :=
  let log := k.log ++ (ev ++ r.2.flatMap (ConnEffect.calls r.1))
  let stale := if s.phase = .gone then r.2.count .onCloseCb else 0
  let frames := r.2.flatMap (ConnEffect.frames k.loop c) ++ after
  { s with accepted := s.accepted.set c { k with tcp := r.1, log },
           stale := s.stale + stale }.push i frames

/-- Thread `i` calls a function of connection `c`. -/
def onConn (s : TcpServer) (i c : ℕ) (ev : List ConnEvent)
    (f : ServerConn → Option (TcpConnection × List ConnEffect)) (after : List ServerFrame) :
    TcpServer :=
  s.check do
    let k ← s.accepted[c]?
    let r ← f k
    some (s.effects i c k ev r after)

/-- `AssertInLoopThread`, in front of a function. -/
def inLoop (i : ℕ) (f : TcpConnection → Option (TcpConnection × List ConnEffect))
    (k : ServerConn) : Option (TcpConnection × List ConnEffect) := do
  assert (k.loop = i)
  f k.tcp

/-- One of the callbacks of `HandleEventsWithGuard`. -/
def handle (s : TcpServer) (i c : ℕ) (r : SysResult) : Handler → TcpServer
  | .close => s.onConn i c [] (inLoop i TcpConnection.handleClose) []
  | .error => s.onConn i c [] (inLoop i fun tcp => some tcp.handleError) []
  | .read => s.onConn i c [] (inLoop i fun tcp => tcp.handleRead r.extrabuf r.readv) []
  | .write => s.onConn i c [] (inLoop i fun tcp => tcp.handleWrite r.write) []

/-! ## The functions of the server -/

/-- `GetNextLoop`: the loop, and the index from then on. -/
def getNextLoop (s : TcpServer) : Option (ℕ × ℕ) :=
  if s.poolSize = 0 then some (0, s.nextLoopIdx)
  else do
    assert (s.nextLoopIdx < s.poolSize)
    let next := s.nextLoopIdx + 1
    some (1 + s.nextLoopIdx, if next ≥ s.poolSize then 0 else next)

/-- The name of a connection. -/
def connName (name ipPort : List Char) (id : BitVec 64) : List Char :=
  name ++ ipPort ++ '@' :: Nat.toDigits 10 id.toNat

/-- `conns_[name] = c`. -/
def assign (conns : List (List Char × ℕ)) (name : List Char) (c : ℕ) : List (List Char × ℕ) :=
  if name ∈ conns.map Prod.fst then
    conns.map fun p => if p.1 = name then (name, c) else p
  else conns ++ [(name, c)]

/-- `HandleNewConnection`. -/
def handleNewConnection (s : TcpServer) (connfd : ℤ) (ipPort : List Char) : TcpServer :=
  s.check do
    let (loop, nextLoopIdx) ← s.getNextLoop
    let tcp ← TcpConnection.new connfd s.writeCompleteCb false 0
    let name := connName s.name ipPort s.nextConnID
    let c := s.accepted.length
    let k : ServerConn := { tcp, loop, name, log := [] }
    let frames := [.runInLoop loop (.stepIntoEstablished c)]
    some ({ s with nextConnID := s.nextConnID + 1, nextLoopIdx, accepted := s.accepted ++ [k],
                   conns := assign s.conns name c }.push 0 frames)

/-- `conns_.erase(name)`; a failed `assert(ret == 1)` does not keep the server from going on. -/
def erase (s : TcpServer) (name : List Char) : TcpServer :=
  let conns := s.conns.filter fun p => p.1 ≠ name
  let ret := (s.conns.filter fun p => p.1 = name).length
  { s with conns, erased := s.erased ++ [ret], failed := s.failed || ret ≠ 1,
           stale := s.stale + if s.phase = .gone then 1 else 0 }

/-- `RemoveConnectionInLoop`. -/
def removeConnectionInLoop (s : TcpServer) (i c : ℕ) : TcpServer :=
  s.check do
    assert (i = 0)
    let k ← s.accepted[c]?
    some ((s.erase k.name).push i [.runInLoop k.loop (.stepIntoDestroyed c)])

/-- Thread `i` calls what was queued or handed to `RunInEventLoop`. -/
def call (s : TcpServer) (i : ℕ) (r : SysResult) : ServerTask → TcpServer
  | .stepIntoEstablished c => s.onConn i c [] (inLoop i TcpConnection.stepIntoEstablished) []
  | .stepIntoDestroyed c =>
      s.onConn i c [] (inLoop i fun tcp => some tcp.stepIntoDestroyed) [.remove c]
  | .removeConnectionInLoop c => s.removeConnectionInLoop i c
  | .sendInLoop c buf => s.onConn i c [] (inLoop i fun tcp => tcp.sendInLoop buf r.write) []
  | .shutdownInLoop c => s.onConn i c [] (inLoop i fun tcp => some tcp.shutdownInLoop) []
  | .writeComplete c => s.onConn i c [.writeComplete] (fun k => some (k.tcp, [])) [.callback]
  | .highWater c size => s.onConn i c [.highWater size] (fun k => some (k.tcp, [])) [.callback]

/-- Thread `i` goes on with the function that it is in. -/
def perform (s : TcpServer) (i : ℕ) (r : SysResult) : ServerFrame → TcpServer
  | .call t => s.call i r t
  | .runInLoop l t => if i = l then s.push i [.call t] else s.enqueue l t
  | .enqueue l t => s.enqueue l t
  | .handlers c (h :: hs) => (s.push i [.handlers c hs]).handle i c r h
  | .handlers _ [] => s
  | .remove c => s.onConn i c [.removed] (fun k => do k.tcp.chan.remove; some (k.tcp, [])) []
  | .callback => s
  | .destructor (c :: rest) =>
      s.check do
        let k ← s.accepted[c]?
        some (s.push i [.runInLoop k.loop (.stepIntoDestroyed c), .destructor rest])
  | .destructor [] => { s with phase := .gone, conns := [] }

/-- The system calls of a function keep to their documentation. -/
def Answered (s : TcpServer) (r : SysResult) : ServerFrame → Prop
  | .call (.sendInLoop _ buf) => r.write.AtMost buf.length
  | .handlers c (.write :: _) =>
      ∀ k ∈ s.accepted[c]?, r.write.AtMost k.tcp.outputBuffer.readableBytes
  | .handlers c (.read :: _) =>
      ∀ k ∈ s.accepted[c]?, r.readv.AtMost (Region.total (k.tcp.inputBuffer.iovecs r.extrabuf))
  | _ => True

instance (s : TcpServer) (r : SysResult) (f : ServerFrame) : Decidable (s.Answered r f) := by
  unfold Answered
  split <;> infer_instance

/-- What `Poll` of loop `l` reports: channels of that loop that are interested in
something. -/
def Reported (s : TcpServer) (l : ℕ) (p : ℕ × BitVec 32) : Prop :=
  (p.2 &&& (POLLRDHUP ||| POLLPRI) ≠ 0 → p.2 &&& POLLIN ≠ 0) ∧
    ∃ k ∈ s.accepted[p.1]?, k.loop = l ∧ k.tcp.chan.isNoneEvent = false

instance (s : TcpServer) (l : ℕ) (p : ℕ × BitVec 32) : Decidable (s.Reported l p) :=
  inferInstanceAs (Decidable (_ ∧ _))

def step (s : TcpServer) : ServerAct → Option TcpServer
  | .accept connfd ipPort => do
      let t ← s.threads[0]?
      guard (t.stack = [] ∧ t.eventHandling = true ∧ s.phase = .alive)
      some (s.handleNewConnection connfd ipPort)
  | .poll l active => do
      let t ← s.threads[l]?
      guard (l ≤ s.poolSize ∧ t.stack = [] ∧ t.eventHandling = false ∧ t.batch = [])
      guard ((active.map Prod.fst).Nodup ∧ ∀ p ∈ active, s.Reported l p)
      some (s.onThread l fun t => { t with eventHandling := true, active })
  | .dispatch l => do
      let t ← s.threads[l]?
      guard (t.stack = [] ∧ t.eventHandling = true)
      match t.active with
      | (c, revents) :: active =>
          some (s.onThread l fun t =>
            { t with active, stack := [.handlers c (Channel.handlers revents)] })
      | [] => none
  | .swap l => do
      let t ← s.threads[l]?
      guard (t.stack = [] ∧ t.eventHandling = true ∧ t.active = [])
      some (s.onThread l fun t => { t with eventHandling := false, batch := t.queue, queue := [] })
  | .task l => do
      let t ← s.threads[l]?
      guard (t.stack = [])
      match t.batch with
      | task :: batch => some (s.onThread l fun t => { t with batch, stack := [.call task] })
      | [] => none
  | .advance i r => do
      let t ← s.threads[i]?
      let f ← t.stack.head?
      guard (s.Answered r f)
      some ((s.pop i).perform i r f)
  | .send i c buf => do
      let t ← s.threads[i]?
      guard t.InUser
      let k ← s.accepted[c]?
      if k.tcp.state = .connected then
        let task := .sendInLoop c buf
        some (s.push i [if i = k.loop then .call task else .enqueue k.loop task])
      else some s
  | .shutdown i c => do
      let t ← s.threads[i]?
      guard (t.InUser ∧ c < s.accepted.length)
      some (s.onConn i c [] (fun k => some k.tcp.shutdown) [])
  | .retrieve i c n => do
      let t ← s.threads[i]?
      let k ← s.accepted[c]?
      guard (t.InUser ∧ i = k.loop ∧ n ≤ k.tcp.inputBuffer.readableBytes)
      some (s.onConn i c [] (fun k => do
        let inputBuffer ← k.tcp.inputBuffer.retrieve n
        some ({ k.tcp with inputBuffer }, [])) [])
  | .setHighWater i c mark => do
      let t ← s.threads[i]?
      let k ← s.accepted[c]?
      guard (t.InUser ∧ i = k.loop)
      some (s.onConn i c [] (fun k =>
        some ({ k.tcp with highWaterMark := mark, highWaterCb := true }, [])) [])
  | .destroy order => do
      let t ← s.threads[0]?
      guard (t.InUser ∧ s.phase = .alive ∧ order.Perm (s.conns.map Prod.snd))
      some ({ s with phase := .destructing }.push 0 [.destructor order])

/-! ## What a step can do -/

variable {s s' : TcpServer} {a : ServerAct}

/-- The steps, down to the functions that they call. -/
inductive Steps (s : TcpServer) : ServerAct → TcpServer → Prop
  | accept {t : ServerThread} (connfd : ℤ) (ipPort : List Char) (ht : s.threads[0]? = some t)
      (hp : s.phase = .alive) :
      Steps s (.accept connfd ipPort) (s.handleNewConnection connfd ipPort)
  | poll {t : ServerThread} (l : ℕ) (active : List (ℕ × BitVec 32)) (ht : s.threads[l]? = some t)
      (hstack : t.stack = []) (hev : t.eventHandling = false) (hbatch : t.batch = [])
      (hnodup : (active.map Prod.fst).Nodup) (hrep : ∀ p ∈ active, s.Reported l p) :
      Steps s (.poll l active) (s.onThread l fun t => { t with eventHandling := true, active })
  | dispatch {t : ServerThread} (l c : ℕ) (revents : BitVec 32) (active : List (ℕ × BitVec 32))
      (ht : s.threads[l]? = some t) (hstack : t.stack = []) (hev : t.eventHandling = true)
      (hactive : t.active = (c, revents) :: active) :
      Steps s (.dispatch l) (s.onThread l fun t =>
        { t with active, stack := [.handlers c (Channel.handlers revents)] })
  | swap {t : ServerThread} (l : ℕ) (ht : s.threads[l]? = some t) (hev : t.eventHandling = true)
      (hactive : t.active = []) :
      Steps s (.swap l) (s.onThread l fun t =>
        { t with eventHandling := false, batch := t.queue, queue := [] })
  | task {t : ServerThread} (l : ℕ) (task : ServerTask) (batch : List ServerTask)
      (ht : s.threads[l]? = some t) (hstack : t.stack = []) (hbatch : t.batch = task :: batch) :
      Steps s (.task l) (s.onThread l fun t => { t with batch, stack := [.call task] })
  | advance {t : ServerThread} (i : ℕ) (r : SysResult) (f : ServerFrame) (stack : List ServerFrame)
      (ht : s.threads[i]? = some t) (hstack : t.stack = f :: stack) (hans : s.Answered r f) :
      Steps s (.advance i r) ((s.pop i).perform i r f)
  | send {t : ServerThread} {k : ServerConn} (i c : ℕ) (buf : List Byte)
      (ht : s.threads[i]? = some t) (hk : s.accepted[c]? = some k) (hs : k.tcp.state = .connected) :
      Steps s (.send i c buf) (s.push i [if i = k.loop then .call (.sendInLoop c buf)
        else .enqueue k.loop (.sendInLoop c buf)])
  | refused (i c : ℕ) (buf : List Byte) : Steps s (.send i c buf) s
  | shutdown {t : ServerThread} {k : ServerConn} (i c : ℕ) (ht : s.threads[i]? = some t)
      (hk : s.accepted[c]? = some k) :
      Steps s (.shutdown i c) (s.onConn i c [] (fun k => some k.tcp.shutdown) [])
  | retrieve {t : ServerThread} {k : ServerConn} (i c n : ℕ) (ht : s.threads[i]? = some t)
      (hk : s.accepted[c]? = some k) (hn : n ≤ k.tcp.inputBuffer.readableBytes) :
      Steps s (.retrieve i c n) (s.onConn i c [] (fun k => do
        let inputBuffer ← k.tcp.inputBuffer.retrieve n
        some ({ k.tcp with inputBuffer }, [])) [])
  | setHighWater {t : ServerThread} {k : ServerConn} (i c mark : ℕ) (ht : s.threads[i]? = some t)
      (hk : s.accepted[c]? = some k) :
      Steps s (.setHighWater i c mark) (s.onConn i c [] (fun k =>
        some ({ k.tcp with highWaterMark := mark, highWaterCb := true }, [])) [])
  | destroy {t : ServerThread} (order : List ℕ) (ht : s.threads[0]? = some t)
      (hp : s.phase = .alive) (hperm : order.Perm (s.conns.map Prod.snd)) :
      Steps s (.destroy order) ({ s with phase := .destructing }.push 0 [.destructor order])

theorem steps_of_step (h : s.step a = some s') : Steps s a s' := by
  cases a with
  | accept connfd ipPort =>
      obtain ⟨t, ht, h⟩ := Option.bind_eq_some_iff.mp h
      obtain ⟨⟨-, -, hp⟩, h⟩ := guard_bind_eq_some_iff.mp h
      exact Option.some.inj h ▸ .accept connfd ipPort ht hp
  | poll l active =>
      obtain ⟨t, ht, h⟩ := Option.bind_eq_some_iff.mp h
      obtain ⟨⟨-, hstack, hev, hbatch⟩, h⟩ := guard_bind_eq_some_iff.mp h
      obtain ⟨⟨hnodup, hrep⟩, h⟩ := guard_bind_eq_some_iff.mp h
      exact Option.some.inj h ▸ .poll l active ht hstack hev hbatch hnodup hrep
  | dispatch l =>
      obtain ⟨t, ht, h⟩ := Option.bind_eq_some_iff.mp h
      obtain ⟨⟨hstack, hev⟩, h⟩ := guard_bind_eq_some_iff.mp h
      split at h
      · next c revents active hactive =>
          exact Option.some.inj h ▸ .dispatch l c revents active ht hstack hev hactive
      · exact nomatch h
  | swap l =>
      obtain ⟨t, ht, h⟩ := Option.bind_eq_some_iff.mp h
      obtain ⟨⟨-, hev, hactive⟩, h⟩ := guard_bind_eq_some_iff.mp h
      exact Option.some.inj h ▸ .swap l ht hev hactive
  | task l =>
      obtain ⟨t, ht, h⟩ := Option.bind_eq_some_iff.mp h
      obtain ⟨hstack, h⟩ := guard_bind_eq_some_iff.mp h
      split at h
      · next task batch hbatch => exact Option.some.inj h ▸ .task l task batch ht hstack hbatch
      · exact nomatch h
  | advance i r =>
      obtain ⟨t, ht, h⟩ := Option.bind_eq_some_iff.mp h
      obtain ⟨f, hf, h⟩ := Option.bind_eq_some_iff.mp h
      obtain ⟨hans, h⟩ := guard_bind_eq_some_iff.mp h
      obtain ⟨stack, hstack⟩ := List.head?_eq_some_iff.mp hf
      exact Option.some.inj h ▸ .advance i r f stack ht hstack hans
  | send i c buf =>
      obtain ⟨t, ht, h⟩ := Option.bind_eq_some_iff.mp h
      obtain ⟨-, h⟩ := guard_bind_eq_some_iff.mp h
      obtain ⟨k, hk, h⟩ := Option.bind_eq_some_iff.mp h
      split at h
      · next hs => exact Option.some.inj h ▸ .send i c buf ht hk hs
      · exact Option.some.inj h ▸ .refused i c buf
  | shutdown i c =>
      obtain ⟨t, ht, h⟩ := Option.bind_eq_some_iff.mp h
      obtain ⟨⟨-, hc⟩, h⟩ := guard_bind_eq_some_iff.mp h
      exact Option.some.inj h ▸ .shutdown i c ht (List.getElem?_eq_getElem hc)
  | retrieve i c n =>
      obtain ⟨t, ht, h⟩ := Option.bind_eq_some_iff.mp h
      obtain ⟨k, hk, h⟩ := Option.bind_eq_some_iff.mp h
      obtain ⟨⟨-, -, hn⟩, h⟩ := guard_bind_eq_some_iff.mp h
      exact Option.some.inj h ▸ .retrieve i c n ht hk hn
  | setHighWater i c mark =>
      obtain ⟨t, ht, h⟩ := Option.bind_eq_some_iff.mp h
      obtain ⟨k, hk, h⟩ := Option.bind_eq_some_iff.mp h
      obtain ⟨-, h⟩ := guard_bind_eq_some_iff.mp h
      exact Option.some.inj h ▸ .setHighWater i c mark ht hk
  | destroy order =>
      obtain ⟨t, ht, h⟩ := Option.bind_eq_some_iff.mp h
      obtain ⟨⟨-, hp, hperm⟩, h⟩ := guard_bind_eq_some_iff.mp h
      exact Option.some.inj h ▸ .destroy order ht hp hperm

end TcpServer

end Muduo
