/-
# `Muduo.Server.Life` — the life of one connection

What one connection sees of the server: its own operations, and how much is
still due to it somewhere in the threads.  An operation uses up a thing that is
due, and leaves others.

    operation             uses up        leaves
    established           established
    close, read           event          removal, when it closes
    error, write                         called
    send                  send           called
    shutdown                             shutdown
    shutdownInLoop        shutdown
    writeComplete, …      called
    destroyed             destroyed      remove
    remove                remove

From `removal` to `destroyed` it is the server that acts, and `torn` is what its
destructor has before it.  `Lives` is what every connection of a server that is
alive has; an operation that is due does not fail, and keeps it (`Lives.ran`).
-/
import Muduo.Server.Model

namespace Muduo

/-- What is still to come to a connection.  An `event` is a close or a read callback. -/
inductive Due
  | established | destroyed | removal | send | shutdown | called | event | remove | torn
deriving DecidableEq, Repr

/-- Those that do not take the connection to another stage. -/
def Due.Minor : Due → Prop
  | .send | .shutdown | .called => True
  | _ => False

/-- The callbacks that are queued: they belong to no stage. -/
def ConnEvent.Minor : ConnEvent → Prop
  | .writeComplete | .highWater _ => True
  | _ => False

/-- What an effect leaves due. -/
def ConnEffect.due : ConnEffect → List Due
  | .queueWriteComplete | .queueHighWater _ => [.called]
  | .runShutdownInLoop => [.shutdown]
  | .onCloseCb => [.removal]
  | .connectionCb | .onMessageCb | .write _ | .shutdownWrite | .logError => []

/-- What can happen to a connection. -/
inductive LifeOp
  | established | destroyed | remove
  | close | error
  | read (extrabuf : Vector Byte Buffer.extrabufSize) (r : ReadvResult)
  | write (w : WriteResult)
  | send (buf : List Byte) (w : WriteResult)
  | shutdown | shutdownInLoop
  | writeComplete
  | highWater (size : ℕ)
  | retrieve (n : ℕ)
  | setHighWater (mark : ℕ)

namespace LifeOp

def run (tcp : TcpConnection) : LifeOp → Option (TcpConnection × List ConnEffect)
  | .established => tcp.stepIntoEstablished
  | .destroyed => some tcp.stepIntoDestroyed
  | .remove => do
      tcp.chan.remove
      some (tcp, [])
  | .close => tcp.handleClose
  | .error => some tcp.handleError
  | .read extrabuf r => tcp.handleRead extrabuf r
  | .write w => tcp.handleWrite w
  | .send buf w => tcp.sendInLoop buf w
  | .shutdown => some tcp.shutdown
  | .shutdownInLoop => some tcp.shutdownInLoop
  | .writeComplete | .highWater _ => some (tcp, [])
  | .retrieve n => do
      let inputBuffer ← tcp.inputBuffer.retrieve n
      some ({ tcp with inputBuffer }, [])
  | .setHighWater mark => some ({ tcp with highWaterMark := mark, highWaterCb := true }, [])

/-- What is recorded besides the callbacks among the effects. -/
def noted : LifeOp → List ConnEvent
  | .remove => [.removed]
  | .writeComplete => [.writeComplete]
  | .highWater size => [.highWater size]
  | _ => []

/-- What is recorded besides `onMessageCb_` and `onCloseCb_` (`calls_run`). -/
def event : LifeOp → List ConnEvent
  | .established => [.up]
  | .destroyed => [.down]
  | .remove => [.removed]
  | .writeComplete => [.writeComplete]
  | .highWater size => [.highWater size]
  | _ => []

def uses : LifeOp → List Due
  | .established => [.established]
  | .destroyed => [.destroyed]
  | .remove => [.remove]
  | .close | .read _ _ => [.event]
  | .send _ _ => [.send]
  | .shutdownInLoop => [.shutdown]
  | .writeComplete | .highWater _ => [.called]
  | .error | .write _ | .shutdown | .retrieve _ | .setHighWater _ => []

/-- What comes behind an operation. -/
def after : LifeOp → List Due
  | .destroyed => [.remove]
  | _ => []

/-- What an operation leaves, with these effects. -/
def leaves (op : LifeOp) (effs : List ConnEffect) : List Due :=
  effs.flatMap ConnEffect.due ++ op.after

/-- The system calls keep to their documentation, and the user to that of `Retrieve`. -/
def Fits (tcp : TcpConnection) : LifeOp → Prop
  | .read extrabuf r => r.AtMost (Region.total (tcp.inputBuffer.iovecs extrabuf))
  | .write w => w.AtMost tcp.outputBuffer.readableBytes
  | .send buf w => w.AtMost buf.length
  | .retrieve n => n ≤ tcp.inputBuffer.readableBytes
  | _ => True

end LifeOp

namespace TcpConnection

variable {c c' : TcpConnection} {effs : List ConnEffect}

/-! ## What a connection keeps by itself -/

/-- The buffers are in order, and a connection that is not up is interested in nothing. -/
structure Sound (c : TcpConnection) : Prop where
  input : ∃ q, c.inputBuffer.Holds q
  output : ∃ q, c.outputBuffer.Holds q
  off : c.state = .connecting ∨ c.state = .disconnected → c.chan.isNoneEvent = true

/-- A connection is up when it is not in one of the two states without interest. -/
theorem isUp_of_ne (h : c.state ≠ .connecting) (h' : c.state ≠ .disconnected) : c.IsUp := by
  cases hs : c.state with
  | connecting => exact absurd hs h
  | connected => exact .inl hs
  | disconnecting => exact .inr hs
  | disconnected => exact absurd hs h'

theorem isNoneEvent_disableAllEvents (ch : Channel) : ch.disableAllEvents.isNoneEvent = true :=
  beq_self_eq_true kNoneEvent

/-- A channel without interest is not writing. -/
theorem not_isWriting {ch : Channel} (h : ch.isNoneEvent = true) : ch.isWriting = false := by
  have he : ch.events = kNoneEvent := eq_of_beq h
  rw [Channel.isWriting, he]
  decide

/-- The effects of an operation that neither calls back nor closes. -/
def Quiet (effs : List ConnEffect) : Prop :=
  (effs.flatMap ConnEffect.event = [] ∧ .connectionCb ∉ effs) ∧
    ∀ x ∈ effs.flatMap ConnEffect.due, x.Minor

theorem Quiet.append {effs effs' : List ConnEffect} (h : Quiet effs) (h' : Quiet effs') :
    Quiet (effs ++ effs') := by
  constructor
  · refine ⟨?_, fun hmem => (List.mem_append.mp hmem).elim h.1.2 h'.1.2⟩
    rw [List.flatMap_append, h.1.1, h'.1.1, List.append_nil]
  · intro x hx
    rw [List.flatMap_append] at hx
    exact (List.mem_append.mp hx).elim (h.2 x) (h'.2 x)

theorem quiet_nil : Quiet [] := ⟨⟨rfl, List.not_mem_nil⟩, nofun⟩

/-- An effect after which nothing is called. -/
theorem quiet_silent {e : ConnEffect} (he : e.event = []) (hne : .connectionCb ≠ e)
    (hd : e.due = []) : Quiet [e] := by
  refine ⟨⟨?_, mt List.mem_singleton.mp hne⟩, ?_⟩
  · simp only [List.flatMap_cons, he, List.flatMap_nil, List.append_nil]
  · simp only [List.flatMap_cons, hd, List.flatMap_nil, List.append_nil]
    exact nofun

theorem quiet_write (data : List Byte) : Quiet [.write data] := quiet_silent rfl nofun rfl

theorem quiet_shutdownWrite : Quiet [.shutdownWrite] := quiet_silent rfl nofun rfl

theorem quiet_called {e : ConnEffect} (he : e.event = []) (hne : .connectionCb ≠ e)
    (hd : e.due = [.called]) : Quiet [e] := by
  constructor
  · refine ⟨?_, mt List.mem_singleton.mp hne⟩
    simp only [List.flatMap_cons, he, List.flatMap_nil, List.append_nil]
  · intro x hx
    simp only [List.flatMap_cons, hd, List.flatMap_nil, List.append_nil] at hx
    exact List.mem_singleton.mp hx ▸ trivial

theorem quiet_ite {effs : List ConnEffect} (p : Prop) [Decidable p] (h : Quiet effs) :
    Quiet (if p then effs else []) := by
  split
  · exact h
  · exact quiet_nil

theorem quiet_writeComplete (p : Prop) [Decidable p] :
    Quiet (if p then [.queueWriteComplete] else []) :=
  quiet_ite p (quiet_called rfl nofun rfl)

theorem sound_new (sockfd : ℤ) (wc hw : Bool) (mark : ℕ) :
    ∃ c, new sockfd wc hw mark = some c ∧ c.Sound ∧ c.state = .connecting := by
  obtain ⟨b, e, hb⟩ := Buffer.new_spec kInitialSize
  refine ⟨_, by simp only [new, e, Option.bind_eq_bind, Option.bind_some]; rfl, ?_, rfl⟩
  exact ⟨⟨[], hb⟩, ⟨[], hb⟩, fun _ => beq_self_eq_true kNoneEvent⟩

theorem Sound.handleClose (h : c.Sound) (hup : c.IsUp) :
    ∃ c', c.handleClose = some (c', [.onCloseCb]) ∧ c'.Sound ∧ c'.state = .disconnected := by
  refine ⟨{ c with chan := c.chan.disableAllEvents, state := .disconnected }, ?_,
    ⟨h.input, h.output, fun _ => isNoneEvent_disableAllEvents c.chan⟩, rfl⟩
  rw [TcpConnection.handleClose,
    assert_of (p := c.state = .connected ∨ c.state = .disconnecting) hup]
  rfl

/-- The direct write is quiet. -/
theorem quiet_writeDirectly (buf : List Byte) (w : WriteResult) :
    Quiet (c.writeDirectly buf w).effects := by
  unfold writeDirectly
  split
  · cases w with
    | wrote n => exact (quiet_write _).append (quiet_writeComplete _)
    | failed errno => exact quiet_write []
  · exact quiet_nil

/-- The direct write leaves no more than there was. -/
theorem remaining_writeDirectly (buf : List Byte) (w : WriteResult) :
    (c.writeDirectly buf w).remaining ≤ buf.length := by
  unfold writeDirectly
  split
  · cases w with
    | wrote n => exact Nat.sub_le _ _
    | failed errno => exact Nat.le_refl _
  · exact Nat.le_refl _

/-- `SendInLoop` is quiet, and leaves the state alone. -/
theorem quiet_sendInLoop {buf : List Byte} {w : WriteResult}
    (h : c.sendInLoop buf w = some (c', effs)) : c'.state = c.state ∧ Quiet effs := by
  have hquiet := quiet_writeDirectly (c := c) buf w
  unfold TcpConnection.sendInLoop at h
  split at h
  · obtain ⟨rfl, rfl⟩ := Prod.mk.inj (Option.some.inj h)
    exact ⟨rfl, quiet_nil⟩
  · obtain ⟨_, -, h⟩ := Option.bind_eq_some_iff.mp h
    split at h
    · obtain ⟨out, -, h⟩ := Option.bind_eq_some_iff.mp h
      obtain ⟨rfl, rfl⟩ := Prod.mk.inj (Option.some.inj h)
      exact ⟨rfl, hquiet.append (quiet_ite _ (quiet_called rfl ConnEffect.noConfusion rfl))⟩
    · obtain ⟨rfl, rfl⟩ := Prod.mk.inj (Option.some.inj h)
      exact ⟨rfl, hquiet⟩

theorem Sound.sendInLoop (h : c.Sound) (hs : c.state ≠ .connecting) (buf : List Byte)
    (w : WriteResult) : ∃ c' effs, c.sendInLoop buf w = some (c', effs) ∧ c'.Sound := by
  unfold TcpConnection.sendInLoop
  split
  · exact ⟨c, [], rfl, h⟩
  · next hd =>
      have hrem := remaining_writeDirectly (c := c) buf w
      obtain ⟨q, hq⟩ := h.output
      simp only [assert_of hrem, Option.bind_eq_bind, Option.bind_some]
      split
      · obtain ⟨out, e, hout⟩ := Buffer.append_spec hq
          ((buf.drop (c.writeDirectly buf w).nwrote).take (c.writeDirectly buf w).remaining)
        simp only [e, Option.bind_some]
        refine ⟨_, _, rfl, h.input, ⟨_, hout⟩, fun hor => ?_⟩
        exact absurd hor (not_or.mpr ⟨hs, hd⟩)
      · exact ⟨c, _, rfl, h⟩

theorem Sound.handleRead (h : c.Sound) {extrabuf : Vector Byte Buffer.extrabufSize}
    {r : ReadvResult} (hr : r.AtMost (Region.total (c.inputBuffer.iovecs extrabuf)))
    (hup : c.IsUp) :
    ∃ c' effs, c.handleRead extrabuf r = some (c', effs) ∧ c'.Sound ∧
      (effs = [.onCloseCb] ∧ r = .delivered [] ∧ c'.state = .disconnected ∨
        c'.state = c.state ∧ (effs = [.onMessageCb] ∨ effs = [.logError])) := by
  obtain ⟨q, hq⟩ := h.input
  cases r with
  | failed errno => exact ⟨c, [.logError], rfl, h, .inr ⟨rfl, .inr rfl⟩⟩
  | delivered data =>
      obtain ⟨b, e, hb⟩ := Buffer.readFd_spec hq hr
      have h' : Sound { c with inputBuffer := b } := ⟨⟨_, hb⟩, h.output, h.off⟩
      unfold TcpConnection.handleRead
      simp only [e, Option.bind_eq_bind, Option.bind_some]
      split
      · next h0 =>
          obtain ⟨c', e', hs, hst⟩ := h'.handleClose hup
          exact ⟨c', _, e', hs, .inl ⟨rfl, congrArg _ (List.length_eq_zero_iff.mp h0), hst⟩⟩
      · exact ⟨_, _, rfl, h', .inr ⟨rfl, .inl rfl⟩⟩

/-- What `ReadFd` returns is what `readv` delivered. -/
theorem readFd_result {b b' : Buffer} {extrabuf : Vector Byte Buffer.extrabufSize}
    {data : List Byte} {ret : Except ℤ ℕ}
    (h : b.readFd extrabuf (.delivered data) = some (b', ret)) : ret = .ok data.length := by
  obtain ⟨_, -, h⟩ := Option.bind_eq_some_iff.mp h
  split at h
  · exact (Prod.mk.inj (Option.some.inj h)).2.symm
  · obtain ⟨_, -, h⟩ := Option.bind_eq_some_iff.mp h
    exact (Prod.mk.inj (Option.some.inj h)).2.symm

/-- `HandleClose` comes back for a connection that is up. -/
theorem isUp_of_handleClose (h : c.handleClose = some (c', effs)) : c.IsUp := by
  obtain ⟨_, hup, -⟩ := Option.bind_eq_some_iff.mp h
  exact assert_eq_some_iff.mp hup

/-- `HandleRead` closes when nothing was delivered. -/
theorem handleRead_closes {extrabuf : Vector Byte Buffer.extrabufSize} {r : ReadvResult}
    (h : c.handleRead extrabuf r = some (c', effs)) (hr : .removal ∈ effs.flatMap ConnEffect.due) :
    c.IsUp ∧ r = .delivered [] := by
  cases r with
  | failed errno =>
      obtain ⟨rfl, rfl⟩ := Prod.mk.inj (Option.some.inj h)
      exact nomatch hr
  | delivered data =>
      obtain ⟨⟨b, ret⟩, hb, h⟩ := Option.bind_eq_some_iff.mp h
      obtain rfl := readFd_result hb
      dsimp only at h
      split at h
      · next h0 =>
          have hup : TcpConnection.IsUp { c with inputBuffer := b } := isUp_of_handleClose h
          exact ⟨hup, congrArg _ (List.length_eq_zero_iff.mp h0)⟩
      · obtain ⟨rfl, rfl⟩ := Prod.mk.inj (Option.some.inj h)
        exact nomatch hr

/-- `HandleRead` does not call `connectionCb_`. -/
theorem handleRead_connectionCb {extrabuf : Vector Byte Buffer.extrabufSize} {r : ReadvResult}
    (h : c.handleRead extrabuf r = some (c', effs)) : .connectionCb ∉ effs := by
  have hne : ∀ {e : ConnEffect}, .connectionCb ≠ e → .connectionCb ∉ [e] :=
    mt List.mem_singleton.mp
  obtain ⟨⟨b, ret⟩, -, h⟩ := Option.bind_eq_some_iff.mp h
  cases ret with
  | error errno =>
      obtain ⟨rfl, rfl⟩ := Prod.mk.inj (Option.some.inj h)
      exact hne nofun
  | ok n =>
      dsimp only at h
      split at h
      · obtain ⟨_, -, h⟩ := Option.bind_eq_some_iff.mp h
        obtain ⟨rfl, rfl⟩ := Prod.mk.inj (Option.some.inj h)
        exact hne nofun
      · obtain ⟨rfl, rfl⟩ := Prod.mk.inj (Option.some.inj h)
        exact hne nofun

theorem quiet_shutdownInLoop : c.shutdownInLoop.1 = c ∧ Quiet c.shutdownInLoop.2 := by
  unfold shutdownInLoop
  split
  · exact ⟨rfl, quiet_shutdownWrite⟩
  · exact ⟨rfl, quiet_nil⟩

/-- A connection that is not up has nothing to write. -/
theorem Sound.handleWrite_off (h : c.Sound) (hs : c.state = .connecting ∨ c.state = .disconnected)
    (w : WriteResult) : c.handleWrite w = some (c, []) := by
  have hw : ¬ c.chan.isWriting = true := by
    rw [not_isWriting (h.off hs)]
    exact Bool.false_ne_true
  unfold TcpConnection.handleWrite
  rw [if_neg hw]

/-- `HandleWrite` is quiet, and leaves the state alone. -/
theorem quiet_handleWrite {w : WriteResult} (h : c.handleWrite w = some (c', effs)) :
    c'.state = c.state ∧ Quiet effs := by
  unfold TcpConnection.handleWrite at h
  split at h
  · cases w with
    | failed errno =>
        obtain ⟨rfl, rfl⟩ := Prod.mk.inj (Option.some.inj h)
        exact ⟨rfl, quiet_write []⟩
    | wrote n =>
        obtain ⟨taken, -, h⟩ := Option.bind_eq_some_iff.mp h
        obtain ⟨out, -, h⟩ := Option.bind_eq_some_iff.mp h
        have hdone : Quiet (.write taken ::
            if c.writeCompleteCb then [ConnEffect.queueWriteComplete] else []) :=
          (quiet_write _).append (quiet_writeComplete _)
        dsimp only at h
        split at h
        · split at h
          · have hlast := quiet_shutdownInLoop
              (c := { c with outputBuffer := out, chan := c.chan.disableWriting })
            obtain ⟨rfl, rfl⟩ := Prod.mk.inj (Option.some.inj h)
            exact ⟨by rw [hlast.1], hdone.append hlast.2⟩
          · obtain ⟨rfl, rfl⟩ := Prod.mk.inj (Option.some.inj h)
            exact ⟨rfl, hdone⟩
        · obtain ⟨rfl, rfl⟩ := Prod.mk.inj (Option.some.inj h)
          exact ⟨rfl, quiet_write _⟩
  · obtain ⟨rfl, rfl⟩ := Prod.mk.inj (Option.some.inj h)
    exact ⟨rfl, quiet_nil⟩

theorem Sound.handleWrite (h : c.Sound) {w : WriteResult}
    (hw : w.AtMost c.outputBuffer.readableBytes) :
    ∃ c' effs, c.handleWrite w = some (c', effs) ∧ c'.Sound := by
  by_cases hs : c.state = .connecting ∨ c.state = .disconnected
  · exact ⟨c, [], h.handleWrite_off hs w, h⟩
  · unfold TcpConnection.handleWrite
    split
    · cases w with
      | failed errno => exact ⟨c, _, rfl, h⟩
      | wrote n =>
          obtain ⟨q, hq⟩ := h.output
          have hlen : n ≤ q.length := hw.trans_eq hq.length.symm
          obtain ⟨out, e, hout⟩ := Buffer.retrieve_spec hq hlen
          simp only [Buffer.bytesAt_spec hq hlen, e, Option.bind_eq_bind, Option.bind_some]
          have hsound : ∀ ch : Channel, Sound { c with outputBuffer := out, chan := ch } :=
            fun ch => ⟨h.input, ⟨_, hout⟩, fun hor => absurd hor hs⟩
          split
          · split
            · refine ⟨_, _, rfl, ?_⟩
              rw [quiet_shutdownInLoop.1]
              exact hsound c.chan.disableWriting
            · exact ⟨_, _, rfl, hsound c.chan.disableWriting⟩
          · exact ⟨_, _, rfl, hsound c.chan⟩
    · exact ⟨c, [], rfl, h⟩

end TcpConnection

/-- What effects leave due. -/
theorem count_due (effs : List ConnEffect) {x : Due} (hc : x ≠ .called) (hs : x ≠ .shutdown)
    (hr : x ≠ .removal) : (effs.flatMap ConnEffect.due).count x = 0 := by
  refine List.count_eq_zero.mpr fun h => ?_
  obtain ⟨e, -, h⟩ := List.mem_flatMap.mp h
  cases e with
  | queueWriteComplete | queueHighWater => exact hc (List.mem_singleton.mp h)
  | runShutdownInLoop => exact hs (List.mem_singleton.mp h)
  | onCloseCb => exact hr (List.mem_singleton.mp h)
  | connectionCb | onMessageCb | write | shutdownWrite | logError => exact nomatch h

/-- What is recorded of effects. -/
theorem count_event (effs : List ConnEffect) {e : ConnEvent} (hm : e ≠ .message) (hc : e ≠ .close) :
    (effs.flatMap ConnEffect.event).count e = 0 := by
  refine List.count_eq_zero.mpr fun h => ?_
  obtain ⟨f, -, h⟩ := List.mem_flatMap.mp h
  cases f with
  | onMessageCb => exact hm (List.mem_singleton.mp h)
  | onCloseCb => exact hc (List.mem_singleton.mp h)
  | queueWriteComplete | queueHighWater | runShutdownInLoop | connectionCb | write | shutdownWrite
  | logError => exact nomatch h

namespace LifeOp

variable (op : LifeOp) (effs : List ConnEffect)

/-- No operation hands its connection to `StepIntoDestroyed` or to the destructor. -/
theorem count_leaves {x : Due} (hx : x = .destroyed ∨ x = .torn) :
    (op.leaves effs).count x = 0 := by
  have hafter : op.after.count x = 0 := by
    cases op with
    | destroyed => rcases hx with rfl | rfl <;> rfl
    | established | remove | close | error | read | write | send | shutdown | shutdownInLoop
    | writeComplete | highWater | retrieve | setHighWater => rfl
  rw [leaves, List.count_append, hafter]
  rcases hx with rfl | rfl
  · exact count_due effs nofun nofun nofun
  · exact count_due effs nofun nofun nofun

/-- `StepIntoDestroyed` is what calls `connectionCb_` the second time. -/
theorem count_down :
    (op.event ++ effs.flatMap ConnEffect.event).count .down = op.uses.count .destroyed := by
  rw [List.count_append, count_event effs (e := .down) nofun nofun]
  cases op <;> rfl

/-- It leaves `Channel::Remove`. -/
theorem count_leaves_remove : (op.leaves effs).count .remove = op.uses.count .destroyed := by
  rw [leaves, List.count_append, count_due effs (x := .remove) nofun nofun nofun]
  cases op <;> rfl

theorem count_removed :
    (op.event ++ effs.flatMap ConnEffect.event).count .removed = op.uses.count .remove := by
  rw [List.count_append, count_event effs (e := .removed) nofun nofun]
  cases op <;> rfl

end LifeOp

/-- Effects without `connectionCb_`. -/
theorem flatMap_calls {effs : List ConnEffect} (h : .connectionCb ∉ effs) (tcp : TcpConnection) :
    effs.flatMap (ConnEffect.calls tcp) = effs.flatMap ConnEffect.event := by
  refine List.flatMap_congr fun e he => ?_
  cases e with
  | connectionCb => exact absurd he h
  | onMessageCb | onCloseCb | queueWriteComplete | queueHighWater | runShutdownInLoop | write
  | shutdownWrite | logError => rfl

/-- `connectionCb_` is called by `StepIntoEstablished`, when the connection is connected, and by
`StepIntoDestroyed`, when it is not. -/
theorem LifeOp.calls_run {tcp tcp' : TcpConnection} {op : LifeOp} {effs : List ConnEffect}
    (h : op.run tcp = some (tcp', effs)) :
    op.noted ++ effs.flatMap (ConnEffect.calls tcp') =
      op.event ++ effs.flatMap ConnEffect.event := by
  have hnone : .connectionCb ∉ effs → op.noted = op.event →
      op.noted ++ effs.flatMap (ConnEffect.calls tcp') =
        op.event ++ effs.flatMap ConnEffect.event := by
    intro hn he
    rw [flatMap_calls hn, he]
  cases op with
  | established =>
      obtain ⟨_, -, h⟩ := Option.bind_eq_some_iff.mp h
      obtain ⟨rfl, rfl⟩ := Prod.mk.inj (Option.some.inj h)
      rfl
  | destroyed =>
      have he : tcp.stepIntoDestroyed = (tcp', effs) := Option.some.inj h
      unfold TcpConnection.stepIntoDestroyed at he
      split at he
      · obtain ⟨rfl, rfl⟩ := Prod.mk.inj he
        rfl
      · next hs =>
          obtain ⟨rfl, rfl⟩ := Prod.mk.inj he
          have hdown : ConnEffect.calls tcp .connectionCb = [.down] :=
            congrArg (fun e => [e]) (if_neg hs)
          simp only [LifeOp.noted, LifeOp.event, List.flatMap_cons, List.flatMap_nil, hdown]
          rfl
  | remove | close | retrieve =>
      obtain ⟨_, -, h⟩ := Option.bind_eq_some_iff.mp h
      obtain ⟨rfl, rfl⟩ := Prod.mk.inj (Option.some.inj h)
      rfl
  | error | writeComplete | highWater | setHighWater =>
      obtain ⟨rfl, rfl⟩ := Prod.mk.inj (Option.some.inj h)
      rfl
  | read extrabuf rv => exact hnone (TcpConnection.handleRead_connectionCb h) rfl
  | write w => exact hnone (TcpConnection.quiet_handleWrite h).2.1.2 rfl
  | send buf w => exact hnone (TcpConnection.quiet_sendInLoop h).2.1.2 rfl
  | shutdown =>
      have he : tcp.shutdown = (tcp', effs) := Option.some.inj h
      unfold TcpConnection.shutdown at he
      split at he
      · obtain ⟨-, rfl⟩ := Prod.mk.inj he
        rfl
      · obtain ⟨-, rfl⟩ := Prod.mk.inj he
        rfl
  | shutdownInLoop =>
      obtain ⟨rfl, rfl⟩ := Prod.mk.inj (Option.some.inj h)
      exact hnone TcpConnection.quiet_shutdownInLoop.2.1.2 rfl

/-- `HandleClose` may be called in the operation. -/
def LifeOp.mayClose : LifeOp → Bool
  | .close | .read _ _ => true
  | .established | .destroyed | .remove | .error | .write _ | .send _ _ | .shutdown
  | .shutdownInLoop | .writeComplete | .highWater _ | .retrieve _ | .setHighWater _ => false

/-- Nothing closes but a close callback and a read callback that reads nothing, for a
connection that is up. -/
theorem LifeOp.closes_of_removal {tcp tcp' : TcpConnection} {op : LifeOp}
    {effs : List ConnEffect} (h : op.run tcp = some (tcp', effs))
    (hr : .removal ∈ op.leaves effs) :
    tcp.IsUp ∧ (op = .close ∨ ∃ extrabuf, op = .read extrabuf (.delivered [])) := by
  have hquiet : TcpConnection.Quiet effs → op.after = [] →
      tcp.IsUp ∧ (op = .close ∨ ∃ extrabuf, op = .read extrabuf (.delivered [])) := by
    intro hq ha
    rw [LifeOp.leaves, ha, List.append_nil] at hr
    exact (hq.2 _ hr).elim
  cases op with
  | established =>
      obtain ⟨_, -, h⟩ := Option.bind_eq_some_iff.mp h
      obtain ⟨rfl, rfl⟩ := Prod.mk.inj (Option.some.inj h)
      exact nomatch hr
  | destroyed =>
      have he : tcp.stepIntoDestroyed = (tcp', effs) := Option.some.inj h
      unfold TcpConnection.stepIntoDestroyed at he
      split at he
      · obtain ⟨-, rfl⟩ := Prod.mk.inj he
        exact nomatch List.mem_singleton.mp hr
      · obtain ⟨-, rfl⟩ := Prod.mk.inj he
        exact nomatch List.mem_singleton.mp hr
  | remove =>
      obtain ⟨_, -, h⟩ := Option.bind_eq_some_iff.mp h
      obtain ⟨rfl, rfl⟩ := Prod.mk.inj (Option.some.inj h)
      exact nomatch hr
  | close => exact ⟨TcpConnection.isUp_of_handleClose h, .inl rfl⟩
  | error =>
      obtain ⟨rfl, rfl⟩ := Prod.mk.inj (Option.some.inj h)
      exact nomatch hr
  | read extrabuf rv =>
      have hr' := (List.mem_append.mp hr).resolve_right List.not_mem_nil
      obtain ⟨hup, hnil⟩ := TcpConnection.handleRead_closes h hr'
      exact ⟨hup, .inr ⟨extrabuf, congrArg _ hnil⟩⟩
  | write w => exact hquiet (TcpConnection.quiet_handleWrite h).2 rfl
  | send buf w => exact hquiet (TcpConnection.quiet_sendInLoop h).2 rfl
  | shutdown =>
      have he : tcp.shutdown = (tcp', effs) := Option.some.inj h
      unfold TcpConnection.shutdown at he
      split at he
      · obtain ⟨-, rfl⟩ := Prod.mk.inj he
        exact nomatch List.mem_singleton.mp hr
      · obtain ⟨-, rfl⟩ := Prod.mk.inj he
        exact nomatch hr
  | shutdownInLoop =>
      obtain ⟨rfl, rfl⟩ := Prod.mk.inj (Option.some.inj h)
      exact hquiet TcpConnection.quiet_shutdownInLoop.2 rfl
  | writeComplete | highWater | setHighWater =>
      obtain ⟨rfl, rfl⟩ := Prod.mk.inj (Option.some.inj h)
      exact nomatch hr
  | retrieve n =>
      obtain ⟨_, -, h⟩ := Option.bind_eq_some_iff.mp h
      obtain ⟨rfl, rfl⟩ := Prod.mk.inj (Option.some.inj h)
      exact nomatch hr

/-! ## The life of a connection of a server that is alive -/

variable {tcp tcp' : TcpConnection} {log ev : List ConnEvent} {d d' : Due → ℕ}

/-- `d x` is how much of `x` is due. -/
structure Lives (tcp : TcpConnection) (log : List ConnEvent) (d : Due → ℕ) : Prop where
  sound : tcp.Sound
  fresh : tcp.state = .connecting → log = [] ∧ ∀ x, d x = if x = .established then 1 else 0
  begun : tcp.state ≠ .connecting →
    d .established = 0 ∧ log.head? = some .up ∧ log.count .up = 1
  closing : d .removal + d .destroyed + log.count .down = log.count .close
  closed : log.count .close = if tcp.state = .disconnected then 1 else 0
  events : d .event + log.count .close ≤ 1
  removing : d .remove + log.count .removed = log.count .down
  silent : log.Pairwise fun e e' => e = .down → e' ≠ .message
  untorn : d .torn = 0

/-- An operation that uses and leaves these and records those keeps the sums of `Lives`. -/
structure Balanced (us ls : List Due) (ev : List ConnEvent) : Prop where
  up : ev.count .up = 0
  established : ls.count .established = us.count .established
  torn : ls.count .torn = us.count .torn
  closing : us.count .removal + us.count .destroyed + ev.count .close =
    ls.count .removal + ls.count .destroyed + ev.count .down
  events : ls.count .event + ev.count .close ≤ us.count .event
  removing : us.count .remove + ev.count .down = ls.count .remove + ev.count .removed

/-- A connection that has been accepted. -/
theorem lives_new (hs : tcp.Sound) (hst : tcp.state = .connecting)
    (hd : ∀ x, d x = if x = .established then 1 else 0) : Lives tcp [] d where
  sound := hs
  fresh := fun _ => ⟨rfl, hd⟩
  begun := fun h => absurd hst h
  closing := by simp [hd]
  closed := by simp [hst]
  events := by simp [hd]
  removing := by simp [hd]
  silent := .nil
  untorn := by simp [hd]

namespace Lives

/-- Something other than `StepIntoEstablished` is due to no connection that is connecting. -/
theorem not_connecting (h : Lives tcp log d) {x : Due} (hx : x ≠ .established) (hd : 0 < d x) :
    tcp.state ≠ .connecting := by
  intro hs
  have hx0 := (h.fresh hs).2 x
  rw [if_neg hx] at hx0
  omega

/-- Before `HandleClose` there is no `StepIntoDestroyed`. -/
theorem not_down (h : Lives tcp log d) (hs : tcp.state ≠ .disconnected) : .down ∉ log := by
  have hclosed := h.closed
  have hclosing := h.closing
  rw [if_neg hs] at hclosed
  exact List.count_eq_zero.mp (by omega)

/-- What is due to be removed or destroyed has been closed. -/
theorem disconnected (h : Lives tcp log d) (hc : 0 < log.count .close) :
    tcp.state = .disconnected := by
  by_contra hs
  have hclosed := h.closed
  rw [if_neg hs] at hclosed
  omega

/-- A close or read callback comes to a connection that is up. -/
theorem isUp (h : Lives tcp log d) (hd : 0 < d .event) : tcp.IsUp := by
  refine TcpConnection.isUp_of_ne (h.not_connecting (x := .event) nofun hd) fun hs => ?_
  have hclosed := h.closed
  have hevents := h.events
  rw [if_pos hs] at hclosed
  omega

/-- What changes neither the stage of the connection nor what belongs to its stages. -/
theorem minor (h : Lives tcp log d) (hs : tcp'.Sound)
    (hc : tcp'.state = .connecting ↔ tcp.state = .connecting)
    (hdis : tcp'.state = .disconnected ↔ tcp.state = .disconnected)
    (hd : ∀ x, ¬ x.Minor → d' x = d x) (hfresh : tcp.state = .connecting → ev = [] ∧ d' = d)
    (hev : ∀ e ∈ ev, e.Minor) : Lives tcp' (log ++ ev) d' := by
  have hcount : ∀ e : ConnEvent, ¬ e.Minor → (log ++ ev).count e = log.count e := by
    intro e hm
    rw [List.count_append, List.count_eq_zero.mpr fun he => hm (hev e he), Nat.add_zero]
  exact
    { sound := hs
      fresh := fun hst => by
        obtain ⟨hlog, hd0⟩ := h.fresh (hc.mp hst)
        obtain ⟨rfl, rfl⟩ := hfresh (hc.mp hst)
        exact ⟨by rw [hlog, List.append_nil], hd0⟩
      begun := fun hst => by
        obtain ⟨hd0, hhead, hup⟩ := h.begun fun hst' => hst (hc.mpr hst')
        refine ⟨(hd .established id).trans hd0, ?_, (hcount .up id).trans hup⟩
        rw [List.head?_append, hhead, Option.some_or]
      closing := by
        rw [hd .removal id, hd .destroyed id, hcount .down id, hcount .close id]
        exact h.closing
      closed := by
        rw [hcount .close id, h.closed]
        simp only [hdis]
      events := by
        rw [hd .event id, hcount .close id]
        exact h.events
      removing := by
        rw [hd .remove id, hcount .removed id, hcount .down id]
        exact h.removing
      silent := by
        have hne : ∀ e ∈ ev, e ≠ .message := fun e he hm =>
          (hm ▸ hev e he : ConnEvent.Minor .message)
        exact List.pairwise_append.mpr
          ⟨h.silent, List.pairwise_of_forall_mem_list fun _ _ b hb _ => hne b hb,
            fun _ _ b hb _ => hne b hb⟩
      untorn := (hd .torn id).trans h.untorn }

/-! ### One operation -/

/-- `StepIntoEstablished`. -/
theorem established (h : Lives tcp log d) (hdue : 0 < d .established) :
    ∃ tcp', tcp.stepIntoEstablished = some (tcp', [.connectionCb]) ∧
      ∀ d', (∀ x, d' x + [Due.established].count x = d x) → Lives tcp' (log ++ [.up]) d' := by
  have hon : ConnState.connected = .connecting ∨ ConnState.connected = .disconnected → False := by
    intro hor
    rcases hor with h | h
    · exact nomatch h
    · exact nomatch h
  have hst : tcp.state = .connecting := by
    by_contra hne
    exact hdue.ne' (h.begun hne).1
  obtain ⟨rfl, hd0⟩ := h.fresh hst
  refine ⟨{ tcp with state := .connected, chan := tcp.chan.enableReading }, ?_, fun d' hd => ?_⟩
  · rw [TcpConnection.stepIntoEstablished, assert_of (p := tcp.state = .connecting) hst]
    rfl
  · have hzero : ∀ x, d' x = 0 := by
      intro x
      have hx := hd x
      rw [hd0 x, List.count_singleton] at hx
      cases x <;> simpa using hx
    exact
      { sound := ⟨h.sound.input, h.sound.output, fun hor => (hon hor).elim⟩
        fresh := fun hst => (hon (.inl hst)).elim
        begun := fun _ => ⟨hzero _, rfl, rfl⟩
        closing := by rw [hzero, hzero]; rfl
        closed := rfl
        events := by rw [hzero]; exact Nat.zero_le 1
        removing := by rw [hzero]; rfl
        silent := List.pairwise_singleton _ _
        untorn := hzero _ }

/-- An operation that follows the first one, and is in balance. -/
theorem follow {us ls : List Due} (h : Lives tcp log d) (hb : Balanced us ls ev)
    (hd : ∀ x, d' x + us.count x = d x + ls.count x) (hs : tcp'.Sound)
    (hcon : tcp.state ≠ .connecting) (hcon' : tcp'.state ≠ .connecting)
    (hclosed : (log ++ ev).count .close = if tcp'.state = .disconnected then 1 else 0)
    (hm : .message ∈ ev → .down ∉ log ++ ev) : Lives tcp' (log ++ ev) d' := by
  have hsame : ∀ x, ls.count x = us.count x → d' x = d x := by
    intro x hx
    have hx' := hd x
    omega
  have hdown : (log ++ ev).count .down = log.count .down + ev.count .down := List.count_append
  have hclose : (log ++ ev).count .close = log.count .close + ev.count .close := List.count_append
  have hremoved : (log ++ ev).count .removed = log.count .removed + ev.count .removed :=
    List.count_append
  exact
    { sound := hs
      fresh := fun hst => absurd hst hcon'
      begun := fun _ => by
        obtain ⟨hd0, hhead, hup⟩ := h.begun hcon
        rw [List.head?_append, hhead, List.count_append, hup, hb.up]
        exact ⟨(hsame .established hb.established).trans hd0, rfl, rfl⟩
      closing := by
        have hremoval := hd .removal
        have hdestroyed := hd .destroyed
        have hclosing := h.closing
        have hbalance := hb.closing
        omega
      closed := hclosed
      events := by
        have hevent := hd .event
        have hevents := h.events
        have hbalance := hb.events
        omega
      removing := by
        have hremove := hd .remove
        have hremoving := h.removing
        have hbalance := hb.removing
        omega
      silent := by
        refine List.pairwise_append.mpr ⟨h.silent, ?_, fun a ha b hb hdown hb' => ?_⟩
        · refine List.pairwise_of_forall_mem_list fun a ha b hb hdown hb' => ?_
          exact hm (hb' ▸ hb) (List.mem_append_right _ (hdown ▸ ha))
        · exact hm (hb' ▸ hb) (List.mem_append_left _ (hdown ▸ ha))
      untorn := (hsame .torn hb.torn).trans h.untorn }

/-- What a close or a read callback finds. -/
theorem before_event (h : Lives tcp log d) (hdue : 0 < d .event) :
    tcp.state ≠ .connecting ∧ tcp.state ≠ .disconnected ∧ log.count .close = 0 := by
  have hne : tcp.state ≠ .disconnected := fun hs => by
    have hup := h.isUp hdue
    rw [TcpConnection.IsUp, hs] at hup
    exact hup.elim nofun nofun
  exact ⟨h.not_connecting (x := .event) nofun hdue, hne, h.closed.trans (if_neg hne)⟩

/-- `HandleClose`, from a close or a read callback. -/
theorem closes (h : Lives tcp log d) (hdue : 0 < d .event) (hs : tcp'.Sound)
    (hst : tcp'.state = .disconnected)
    (hd : ∀ x, d' x + [Due.event].count x = d x + [Due.removal].count x) :
    Lives tcp' (log ++ [.close]) d' := by
  obtain ⟨hcon, -, hnone⟩ := h.before_event hdue
  have hb : Balanced [.event] [.removal] [.close] := ⟨rfl, rfl, rfl, rfl, by decide, rfl⟩
  refine h.follow hb hd hs hcon ?_ ?_ ?_
  · rw [hst]
    exact nofun
  · rw [List.count_append, hnone, if_pos hst]
    rfl
  · exact fun hm => nomatch List.mem_singleton.mp hm

/-- A read callback that delivers something. -/
theorem message (h : Lives tcp log d) (hdue : 0 < d .event) (hs : tcp'.Sound)
    (hst : tcp'.state = tcp.state) (hd : ∀ x, d' x + [Due.event].count x = d x) :
    Lives tcp' (log ++ [.message]) d' := by
  obtain ⟨hcon, hne, -⟩ := h.before_event hdue
  have hb : Balanced [.event] [] [.message] := ⟨rfl, rfl, rfl, rfl, by decide, rfl⟩
  refine h.follow hb hd hs hcon (hst ▸ hcon) ?_ fun _ hdown => ?_
  · rw [hst, ← h.closed]
    exact List.count_append
  · rcases List.mem_append.mp hdown with hdown | hdown
    · exact h.not_down hne hdown
    · exact nomatch List.mem_singleton.mp hdown

/-- A read callback that fails. -/
theorem unread (h : Lives tcp log d) (hdue : 0 < d .event) (hs : tcp'.Sound)
    (hst : tcp'.state = tcp.state) (hd : ∀ x, d' x + [Due.event].count x = d x) :
    Lives tcp' (log ++ []) d' := by
  obtain ⟨hcon, -, -⟩ := h.before_event hdue
  have hb : Balanced [.event] [] [] := ⟨rfl, rfl, rfl, rfl, by decide, rfl⟩
  refine h.follow hb hd hs hcon (hst ▸ hcon) ?_ fun hm => absurd hm List.not_mem_nil
  rw [hst, List.append_nil, h.closed]

/-- `StepIntoDestroyed` comes to a connection that has been closed, and finds it
disconnected. -/
theorem destroyed (h : Lives tcp log d) (hdue : 0 < d .destroyed) :
    tcp.stepIntoDestroyed = (tcp, [.connectionCb]) ∧
      ∀ d', (∀ x, d' x + [Due.destroyed].count x = d x + [Due.remove].count x) →
        Lives tcp (log ++ [.down]) d' := by
  have hclosing := h.closing
  have hdis : tcp.state = .disconnected := h.disconnected (by omega)
  have hcon : tcp.state ≠ .connecting := h.not_connecting (x := .destroyed) nofun hdue
  refine ⟨?_, fun d' hd => ?_⟩
  · rw [TcpConnection.stepIntoDestroyed, if_neg]
    rw [hdis]
    exact nofun
  · have hb : Balanced [.destroyed] [.remove] [.down] := ⟨rfl, rfl, rfl, rfl, by decide, rfl⟩
    refine h.follow hb hd h.sound hcon hcon ?_ ?_
    · rw [← h.closed]
      exact List.count_append
    · exact fun hm => nomatch List.mem_singleton.mp hm

/-- The assertion of `Channel::Remove` holds. -/
theorem remove (h : Lives tcp log d) (hdue : 0 < d .remove) :
    tcp.chan.remove = some () ∧
      ∀ d', (∀ x, d' x + [Due.remove].count x = d x) → Lives tcp (log ++ [.removed]) d' := by
  have hclosing := h.closing
  have hremoving := h.removing
  have hdis : tcp.state = .disconnected := h.disconnected (by omega)
  have hcon : tcp.state ≠ .connecting := h.not_connecting (x := .remove) nofun hdue
  have hb : Balanced [.remove] [] [.removed] := ⟨rfl, rfl, rfl, rfl, by decide, rfl⟩
  refine ⟨assert_of (h.sound.off (.inr hdis)), fun d' hd => ?_⟩
  refine h.follow hb hd h.sound hcon hcon ?_ fun hm => nomatch List.mem_singleton.mp hm
  rw [← h.closed]
  exact List.count_append

/-- What is used up and what is left belongs to no stage. -/
theorem same_of_minor (uses leaves : List Due) (hu : ∀ x ∈ uses, x.Minor)
    (hl : ∀ x ∈ leaves, x.Minor) (hd : ∀ x, d' x + uses.count x = d x + leaves.count x) :
    ∀ x, ¬ x.Minor → d' x = d x := by
  intro x hx
  have hx' := hd x
  rwa [List.count_eq_zero.mpr fun hmem => hx (hu x hmem),
    List.count_eq_zero.mpr fun hmem => hx (hl x hmem)] at hx'

/-- An operation that belongs to no stage, and needs something to be due. -/
theorem minor_due {x : Due} {effs : List ConnEffect} (h : Lives tcp log d) (hx : x.Minor)
    (hdue : 0 < d x) (hs : tcp'.Sound) (hst : tcp'.state = tcp.state)
    (hq : TcpConnection.Quiet effs) (hev : ∀ e ∈ ev, e.Minor)
    (hd : ∀ y, d' y + [x].count y = d y + (effs.flatMap ConnEffect.due).count y) :
    Lives tcp' (log ++ (ev ++ effs.flatMap ConnEffect.event)) d' := by
  have hne : x ≠ .established := fun he => (he ▸ hx : Due.Minor .established)
  rw [hq.1.1, List.append_nil]
  refine h.minor hs (by rw [hst]) (by rw [hst])
    (same_of_minor [x] _ (fun y hy => List.mem_singleton.mp hy ▸ hx) hq.2 hd) ?_ hev
  exact fun hcon => absurd hcon (h.not_connecting hne hdue)

/-- One that needs nothing to be due. -/
theorem minor_free {effs : List ConnEffect} (h : Lives tcp log d) (hs : tcp'.Sound)
    (hst : tcp'.state = tcp.state) (hq : TcpConnection.Quiet effs)
    (hfresh : tcp.state = .connecting → effs.flatMap ConnEffect.due = [])
    (hd : ∀ x, d' x = d x + (effs.flatMap ConnEffect.due).count x) :
    Lives tcp' (log ++ effs.flatMap ConnEffect.event) d' := by
  rw [hq.1.1]
  refine h.minor hs (by rw [hst]) (by rw [hst]) (same_of_minor [] _ nofun hq.2 hd) ?_ nofun
  intro hcon
  rw [hfresh hcon] at hd
  exact ⟨rfl, funext hd⟩

/-- `Shutdown`. -/
theorem shutdown (h : Lives tcp log d)
    (hd : ∀ x, d' x = d x + (tcp.shutdown.2.flatMap ConnEffect.due).count x) :
    Lives tcp.shutdown.1 (log ++ tcp.shutdown.2.flatMap ConnEffect.event) d' := by
  unfold TcpConnection.shutdown at hd ⊢
  split at hd
  · next hs =>
      rw [if_pos hs]
      refine h.minor ⟨h.sound.input, h.sound.output, fun hor => hor.elim nofun nofun⟩ ?_ ?_
        (same_of_minor [] [.shutdown] nofun (fun x hx => List.mem_singleton.mp hx ▸ trivial) hd)
        ?_ nofun
      · rw [hs]
        exact ⟨nofun, nofun⟩
      · rw [hs]
        exact ⟨nofun, nofun⟩
      · exact fun hcon => nomatch hs.symm.trans hcon
  · next hs =>
      rw [if_neg hs]
      obtain rfl : d' = d := funext hd
      rw [List.flatMap_nil, List.append_nil]
      exact h

/-- An operation of which what it uses is due does not fail, and the connection goes on. -/
theorem ran (h : Lives tcp log d) {op : LifeOp} (hfit : op.Fits tcp)
    (hdue : ∀ x ∈ op.uses, 0 < d x) :
    ∃ tcp' effs, op.run tcp = some (tcp', effs) ∧
      ∀ d', (∀ x, d' x + op.uses.count x = d x + (op.leaves effs).count x) →
        Lives tcp' (log ++ (op.event ++ effs.flatMap ConnEffect.event)) d' := by
  cases op with
  | established =>
      obtain ⟨tcp', e, hnext⟩ := h.established (hdue _ (List.mem_singleton_self _))
      exact ⟨tcp', _, e, fun d' hd => hnext d' hd⟩
  | destroyed =>
      obtain ⟨e, hnext⟩ := h.destroyed (hdue _ (List.mem_singleton_self _))
      exact ⟨tcp, _, congrArg some e, fun d' hd => hnext d' hd⟩
  | remove =>
      obtain ⟨e, hnext⟩ := h.remove (hdue _ (List.mem_singleton_self _))
      refine ⟨tcp, [], ?_, hnext⟩
      simp only [LifeOp.run, e, Option.bind_eq_bind, Option.bind_some]
  | close =>
      have hev := hdue _ (List.mem_singleton_self _)
      obtain ⟨tcp', e, hs, hst⟩ := h.sound.handleClose (h.isUp hev)
      exact ⟨tcp', _, e, fun d' hd => h.closes hev hs hst hd⟩
  | error =>
      exact ⟨tcp, _, rfl, fun d' hd => h.minor_free h.sound rfl
        (TcpConnection.quiet_silent rfl nofun rfl) (fun _ => rfl) hd⟩
  | read extrabuf r =>
      have hev := hdue _ (List.mem_singleton_self _)
      obtain ⟨tcp', effs, e, hs, ⟨rfl, -, hst⟩ | ⟨hst, rfl | rfl⟩⟩ :=
        h.sound.handleRead hfit (h.isUp hev)
      · exact ⟨tcp', _, e, fun d' hd => h.closes hev hs hst hd⟩
      · exact ⟨tcp', _, e, fun d' hd => h.message hev hs hst hd⟩
      · exact ⟨tcp', _, e, fun d' hd => h.unread hev hs hst hd⟩
  | write w =>
      obtain ⟨tcp', effs, e, hs⟩ := h.sound.handleWrite hfit
      obtain ⟨hst, hq⟩ := TcpConnection.quiet_handleWrite e
      refine ⟨tcp', effs, e, fun d' hd => h.minor_free hs hst hq (fun hcon => ?_) ?_⟩
      · have hnone := (h.sound.handleWrite_off (.inl hcon) w).symm.trans e
        rw [← (Prod.mk.inj (Option.some.inj hnone)).2]
        rfl
      · intro x
        rw [← List.append_nil (effs.flatMap ConnEffect.due)]
        exact hd x
  | send buf w =>
      have hsend := hdue _ (List.mem_singleton_self _)
      obtain ⟨tcp', effs, e, hs⟩ :=
        h.sound.sendInLoop (h.not_connecting (x := .send) nofun hsend) buf w
      obtain ⟨hst, hq⟩ := TcpConnection.quiet_sendInLoop e
      refine ⟨tcp', effs, e, fun d' hd => ?_⟩
      refine h.minor_due (x := .send) trivial hsend hs hst hq nofun fun y => ?_
      rw [← List.append_nil (effs.flatMap ConnEffect.due)]
      exact hd y
  | shutdown =>
      refine ⟨_, _, rfl, fun d' hd => h.shutdown fun x => ?_⟩
      rw [← List.append_nil (tcp.shutdown.2.flatMap ConnEffect.due)]
      exact hd x
  | shutdownInLoop =>
      have hshut := hdue _ (List.mem_singleton_self _)
      obtain ⟨hc, hq⟩ := TcpConnection.quiet_shutdownInLoop (c := tcp)
      refine ⟨tcp.shutdownInLoop.1, tcp.shutdownInLoop.2, rfl, fun d' hd => ?_⟩
      rw [hc]
      refine h.minor_due (x := .shutdown) trivial hshut h.sound rfl hq nofun fun y => ?_
      rw [← List.append_nil (tcp.shutdownInLoop.2.flatMap ConnEffect.due)]
      exact hd y
  | writeComplete =>
      have hcall := hdue _ (List.mem_singleton_self _)
      exact ⟨tcp, [], rfl, fun d' hd => h.minor_due (x := .called) trivial hcall h.sound rfl
        TcpConnection.quiet_nil (fun e he => List.mem_singleton.mp he ▸ trivial) hd⟩
  | highWater size =>
      have hcall := hdue _ (List.mem_singleton_self _)
      exact ⟨tcp, [], rfl, fun d' hd => h.minor_due (x := .called) trivial hcall h.sound rfl
        TcpConnection.quiet_nil (fun e he => List.mem_singleton.mp he ▸ trivial) hd⟩
  | retrieve n =>
      obtain ⟨q, hq⟩ := h.sound.input
      obtain ⟨b, e, hb⟩ := Buffer.retrieve_spec hq (hfit.trans_eq hq.length.symm)
      refine ⟨{ tcp with inputBuffer := b }, [], ?_, fun d' hd => ?_⟩
      · simp only [LifeOp.run, e, Option.bind_eq_bind, Option.bind_some]
      · exact h.minor_free ⟨⟨_, hb⟩, h.sound.output, h.sound.off⟩ rfl TcpConnection.quiet_nil
          (fun _ => rfl) hd
  | setHighWater mark =>
      exact ⟨_, [], rfl, fun d' hd => h.minor_free ⟨h.sound.input, h.sound.output, h.sound.off⟩ rfl
        TcpConnection.quiet_nil (fun _ => rfl) hd⟩

/-! ### What the server and its loops do -/

/-- `RemoveConnectionInLoop` hands the connection on to `StepIntoDestroyed`. -/
theorem removal (h : Lives tcp log d) (hdue : 0 < d .removal)
    (hd : ∀ x, d' x + [Due.removal].count x = d x + [Due.destroyed].count x) :
    Lives tcp log d' := by
  have hcon := h.not_connecting (x := .removal) nofun hdue
  have hb : Balanced [.removal] [.destroyed] [] := ⟨rfl, rfl, rfl, rfl, by decide, rfl⟩
  rw [← List.append_nil log]
  refine h.follow hb hd h.sound hcon hcon ?_ fun hm => absurd hm List.not_mem_nil
  rw [List.append_nil, h.closed]

/-- `Send` finds the connection connected. -/
theorem loaded (h : Lives tcp log d) (hs : tcp.state = .connected)
    (hd : ∀ x, d' x = d x + [Due.send].count x) : Lives tcp log d' := by
  rw [← List.append_nil log]
  refine h.minor h.sound Iff.rfl Iff.rfl (same_of_minor [] [.send] nofun
    (fun x hx => List.mem_singleton.mp hx ▸ trivial) hd) ?_ nofun
  exact fun hcon => nomatch hs.symm.trans hcon

/-- `Poll` reports a channel that is interested in something: one close or read callback
at most comes of it. -/
theorem polled {n : ℕ} (h : Lives tcp log d) (hon : tcp.chan.isNoneEvent = false) (hn : n ≤ 1)
    (hevent : d .event = 0) (hd : ∀ x, d' x = d x + (List.replicate n Due.event).count x) :
    Lives tcp log d' := by
  have hoff := fun hor => Bool.false_ne_true (hon.symm.trans (h.sound.off hor))
  have hcon : tcp.state ≠ .connecting := fun hs => hoff (.inl hs)
  have hnone : log.count .close = 0 := h.closed.trans (if_neg fun hs => hoff (.inr hs))
  have hsame : ∀ x, x ≠ .event → d' x = d x := by
    intro x hx
    rw [hd x, List.count_replicate, if_neg fun he => hx (eq_of_beq he).symm, Nat.add_zero]
  have hsome : d' .event = n := by
    rw [hd .event, hevent, List.count_replicate_self, Nat.zero_add]
  exact
    { sound := h.sound
      fresh := fun h' => absurd h' hcon
      begun := fun _ => ⟨(hsame .established nofun).trans (h.begun hcon).1, (h.begun hcon).2⟩
      closing := by
        rw [hsame .removal nofun, hsame .destroyed nofun]
        exact h.closing
      closed := h.closed
      events := by
        rw [hsome, hnone]
        exact hn
      removing := by
        rw [hsame .remove nofun]
        exact h.removing
      silent := h.silent
      untorn := (hsame .torn nofun).trans h.untorn }

end Lives

end Muduo
