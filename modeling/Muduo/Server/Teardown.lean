/-
# `Muduo.Server.Teardown` — does StepIntoDestroyed take the channel off its poller?

A connection and the poller of its loop, which has other channels too.  The
functions of the connection end in `Update()` or `Remove()`:

    function             when                                 what it does to the channel
    StepIntoEstablished                                       EnableReading
    HandleClose                                               disableAllEvents
    HandleRead           nothing was delivered                that of HandleClose
    HandleWrite          the last byte is gone                disableWriting
    SendInLoop           something is left, not yet writing   enableWriting
    StepIntoDestroyed    the state is `connected`             disableAllEvents
                         in the end                           Remove

`StepIntoDestroyed` is taken in two halves, since the user's callback runs
between them and may do what users do, to this connection and to other channels.
A connection that `Shutdown` has left `disconnecting` keeps its interest, and
`StepIntoDestroyed` does nothing about that: `Remove` aborts.  From the other
states a connection can be in at that time it is torn down (`teardown_iff`).
-/
import Muduo.Server.Life
import Muduo.Poller.Interest

namespace Muduo

open BinHeap Function Runs

/-! ## What a call leaves alone -/

namespace PollPoller

variable {P : Type} [DecidableEq P] {s s' : PollPoller P} {cs : List P} {c d : P}

theorem updateChannel_objs (h : s.updateChannel c = some s') :
    (s'.objs c).events = (s.objs c).events ∧ ∀ d, d ≠ c → s'.objs d = s.objs d := by
  unfold updateChannel at h
  dsimp only at h
  split at h
  · obtain ⟨_, -, h⟩ := Option.bind_eq_some_iff.mp h
    obtain rfl := Option.some.inj h
    refine ⟨?_, fun d hd => update_of_ne hd _ _⟩
    show (update s.objs c _ c).events = _
    rw [update_self]
  · obtain ⟨_, -, h⟩ := Option.bind_eq_some_iff.mp h
    obtain ⟨_, -, h⟩ := Option.bind_eq_some_iff.mp h
    obtain ⟨_, -, h⟩ := Option.bind_eq_some_iff.mp h
    obtain ⟨_, -, h⟩ := Option.bind_eq_some_iff.mp h
    obtain rfl := Option.some.inj h
    exact ⟨rfl, fun _ _ => rfl⟩

/-- `RemoveChannel` takes the descriptor out of the map, and writes to no channel but the
registered one whose entry it moves, its index. -/
theorem removeChannel_frame (t : Table s cs) (h : s.removeChannel c = some s') :
    s'.channels = s.channels.erase (s.objs c).fd ∧
      (∀ d, (s'.objs d).events = (s.objs d).events) ∧
      ∀ d, d ∉ cs → s'.objs d = s.objs d := by
  unfold removeChannel at h
  dsimp only at h
  obtain ⟨_, -, h⟩ := Option.bind_eq_some_iff.mp h
  obtain ⟨_, -, h⟩ := Option.bind_eq_some_iff.mp h
  obtain ⟨_, -, h⟩ := Option.bind_eq_some_iff.mp h
  obtain ⟨_, -, h⟩ := Option.bind_eq_some_iff.mp h
  obtain ⟨_, -, h⟩ := Option.bind_eq_some_iff.mp h
  obtain ⟨_, -, h⟩ := Option.bind_eq_some_iff.mp h
  split at h
  · obtain rfl := Option.some.inj h
    exact ⟨rfl, fun _ => rfl, fun _ _ => rfl⟩
  · obtain ⟨back, -, h⟩ := Option.bind_eq_some_iff.mp h
    obtain ⟨e, he, h⟩ := Option.bind_eq_some_iff.mp h
    obtain rfl := Option.some.inj h
    have hfind : ∀ {k : ℤ}, (s.channels.erase (s.objs c).fd).find k = some e →
        s.channels.find k = some e := by
      intro k hk
      rw [ChannelMap.find_erase] at hk
      split at hk
      · cases hk
      · exact hk
    -- the channel found for the last entry is registered
    have hmem : e ∈ cs := by
      rw [t.mem_iff, t.key (hfind he)]
      exact hfind he
    refine ⟨rfl, fun d => ?_, fun d hd => ?_⟩
    · show ((s.setIndex e _).objs d).events = _
      rw [setIndex_objs]
    · have hde : d ≠ e := by
        rintro rfl
        exact hd hmem
      exact update_of_ne hde _ _

end PollPoller

/-- The channel that makes the call. -/
def ChannelOp.chan {P : Type} : ChannelOp P → P
  | .interest c _ | .remove c => c

namespace PollSession

variable {P : Type} [DecidableEq P] {fd : P → ℤ} {s s' : PollSession P} {cs : List P} {c d : P}
variable {i : Interest}

theorem channelExec_interest (h : s.channelExec (.interest c i) = some s') :
    s'.registered = s.registered.insert c ∧
      (s'.poller.objs c).events = (i.apply (s.poller.objs c)).events ∧
      ∀ d, d ≠ c → s'.poller.objs d = s.poller.objs d := by
  obtain ⟨p, hp, h⟩ := Option.bind_eq_some_iff.mp h
  obtain rfl := Option.some.inj h
  obtain ⟨hev, hobj⟩ := PollPoller.updateChannel_objs hp
  refine ⟨rfl, ?_, fun d hd => (hobj d hd).trans (update_of_ne hd _ _)⟩
  rw [hev, PollPoller.withEvents_events, if_pos rfl]

theorem channelExec_remove (k : Tracks fd s cs) (h : s.channelExec (.remove c) = some s') :
    s'.registered = s.registered.erase c ∧
      s'.poller.channels = s.poller.channels.erase (s.poller.objs c).fd ∧
      (∀ d, (s'.poller.objs d).events = (s.poller.objs d).events) ∧
      ∀ d, d ∉ cs → s'.poller.objs d = s.poller.objs d := by
  obtain ⟨_, -, h⟩ := Option.bind_eq_some_iff.mp h
  obtain ⟨p, hp, h⟩ := Option.bind_eq_some_iff.mp h
  obtain rfl := Option.some.inj h
  exact ⟨rfl, PollPoller.removeChannel_frame k.table hp⟩

/-- What a call of another channel leaves of this one. -/
theorem channelExec_frame (k : Tracks fd s cs) {op : ChannelOp P} (h : s.channelExec op = some s')
    (hc : op.chan ≠ c) :
    (c ∈ s'.registered ↔ c ∈ s.registered) ∧
      (s'.poller.objs c).events = (s.poller.objs c).events ∧
      (c ∉ s.registered → s'.poller.objs c = s.poller.objs c) := by
  cases op with
  | interest d i =>
      obtain ⟨hreg, -, hobj⟩ := channelExec_interest h
      have hsame := hobj c (Ne.symm hc)
      refine ⟨?_, congrArg _ hsame, fun _ => hsame⟩
      rw [hreg, List.mem_insert_iff]
      exact or_iff_right (Ne.symm hc)
  | remove d =>
      obtain ⟨hreg, -, hev, hobj⟩ := channelExec_remove k h
      refine ⟨?_, hev c, fun hout => hobj c fun hin => hout (k.mem_iff.mpr hin)⟩
      rw [hreg]
      exact List.mem_erase_of_ne (Ne.symm hc)

end PollSession

/-! ## A connection in its loop -/

namespace LifeOp

/-- The `Update()` that a function ends with, from the connection before and after it. -/
def update (tcp tcp' : TcpConnection) : LifeOp → Option Interest
  | .established => some .enableReading
  | .destroyed => if tcp.state = .connected then some .disableAllEvents else none
  | .close => some .disableAllEvents
  -- `HandleClose` has set the state
  | .read _ _ => if tcp'.state = tcp.state then none else some .disableAllEvents
  | .write _ => if tcp'.chan.isWriting = tcp.chan.isWriting then none else some .disableWriting
  | .send _ _ => if tcp'.chan.isWriting = tcp.chan.isWriting then none else some .enableWriting
  | .remove | .error | .shutdown | .shutdownInLoop | .writeComplete | .highWater _ | .retrieve _
  | .setHighWater _ => none

/-- What a function asks of the poller, by the channel `me`. -/
def call {P : Type} (me : P) (tcp tcp' : TcpConnection) : LifeOp → Option (ChannelOp P)
  | .remove => some (.remove me)
  | op => (op.update tcp tcp').map (.interest me)

end LifeOp

/-- A connection, and the poller of its loop. -/
structure Hosted (P : Type) where
  tcp : TcpConnection
  poller : PollSession P

/-- Something happens to the connection, or another channel calls the poller. -/
inductive HostOp (P : Type)
  | life (op : LifeOp)
  | other (op : ChannelOp P)

namespace Hosted

variable {P : Type} [DecidableEq P]

/-- One operation; `me` is the channel of the connection.  There is no result where an
assertion fails. -/
def exec (me : P) (s : Hosted P) : HostOp P → Option (Hosted P)
  | .life op => do
      let (tcp, _) ← op.run s.tcp
      let poller ← (op.call me s.tcp tcp).elim (some s.poller) s.poller.channelExec
      return ⟨tcp, poller⟩
  | .other op => do
      let poller ← s.poller.channelExec op
      return ⟨s.tcp, poller⟩

/-- Other channels are used as they should be, and do not take a descriptor that is in use. -/
def Proper (me : P) (s : Hosted P) (op : ChannelOp P) : Prop :=
  op.chan ≠ me ∧ s.poller.Used op ∧ s.poller.Unused op

/-- What happens before the connection is torn down: it is established on a descriptor
that no channel has, and sends after that. -/
def Serving (me : P) (s : Hosted P) : HostOp P → Prop
  | .life .established => s.poller.poller.channels.find (s.poller.poller.objs me).fd = none
  | .life (.send _ _) => s.tcp.state ≠ .connecting
  | .life .destroyed | .life .remove => False
  | .life _ => True
  | .other op => s.Proper me op

instance (me : P) (s : Hosted P) : (op : HostOp P) → Decidable (s.Serving me op)
  | .life .established => inferInstanceAs (Decidable (_ = none))
  | .life (.send _ _) => inferInstanceAs (Decidable (_ ≠ _))
  | .life .destroyed | .life .remove => inferInstanceAs (Decidable False)
  | .life .close | .life .error | .life (.read _ _) | .life (.write _) | .life .shutdown
  | .life .shutdownInLoop | .life .writeComplete | .life (.highWater _) | .life (.retrieve _)
  | .life (.setHighWater _) => inferInstanceAs (Decidable True)
  | .other _ => inferInstanceAs (Decidable (_ ∧ _ ∧ _))

/-- What a callback of the user can do, and other threads meanwhile. -/
def Calling (me : P) (s : Hosted P) : HostOp P → Prop
  | .life (.send _ _) => s.tcp.state = .connected
  | .life .shutdown | .life (.retrieve _) | .life (.setHighWater _) => True
  | .life _ => False
  | .other op => s.Proper me op

omit [DecidableEq P] in
theorem serving_of_calling {me : P} {s : Hosted P} {op : HostOp P} (h : s.Calling me op) :
    s.Serving me op := by
  cases op with
  | other op => exact h
  | life op =>
      cases op with
      | send buf w =>
          have hs : s.tcp.state = .connected := h
          show s.tcp.state ≠ .connecting
          rw [hs]
          decide
      | shutdown | retrieve n | setHighWater mark => exact trivial
      | _ => exact h.elim

/-- The connection is down for good, and its channel is not on the poller: there is no
key and no entry for it. -/
structure TornDown (me : P) (s : Hosted P) : Prop where
  down : s.tcp.state = .disconnected
  silent : s.tcp.chan.isNoneEvent = true ∧ (s.poller.poller.objs me).isNoneEvent = true
  removed : me ∉ s.poller.registered ∧
    s.poller.poller.channels.find (s.poller.poller.objs me).fd = none ∧
    ∀ p ∈ s.poller.poller.pollfds, p.owner ≠ (s.poller.poller.objs me).fd
  -- the assertion of the destructor, whenever it runs
  forever : ∀ tr t, Run (stepOf (exec me)) s tr t → t.tcp.state = .disconnected

/-- `StepIntoDestroyed` from here: whatever is done meanwhile, no assertion fails and the
connection is torn down in the end. -/
def TearsDown (me : P) (s : Hosted P) : Prop :=
  ∃ s₁, s.exec me (.life .destroyed) = some s₁ ∧
    ∀ tr s₂, Run (stepOf (exec me)) s₁ tr s₂ → (∀ p ∈ tr, Calling me p.1 p.2) →
      ∃ s₃, s₂.exec me (.life .remove) = some s₃ ∧ s₃.TornDown me

/-! ## What a function does to the channel -/

/-- The ways in which state and interest change together. -/
inductive Moves (tcp tcp' : TcpConnection) : Option Interest → Prop
  | kept (hc : tcp'.chan = tcp.chan) (hs : tcp'.state = tcp.state) : Moves tcp tcp' none
  | shut (hc : tcp'.chan = tcp.chan) (hs : tcp.state = .connected)
      (hs' : tcp'.state = .disconnecting) : Moves tcp tcp' none
  | opened (hc : tcp'.chan = tcp.chan.enableReading) (hs : tcp.state = .connecting)
      (hs' : tcp'.state = .connected) : Moves tcp tcp' (some .enableReading)
  | closed (hc : tcp'.chan = tcp.chan.disableAllEvents) (hup : tcp.IsUp)
      (hs' : tcp'.state = .disconnected) : Moves tcp tcp' (some .disableAllEvents)
  | writesOn (hc : tcp'.chan = tcp.chan.enableWriting) (hs : tcp'.state = tcp.state)
      (hd : tcp.state ≠ .disconnected) : Moves tcp tcp' (some .enableWriting)
  | writesOff (hc : tcp'.chan = tcp.chan.disableWriting) (hs : tcp'.state = tcp.state)
      (hw : tcp.chan.isWriting = true) : Moves tcp tcp' (some .disableWriting)

variable {tcp tcp' : TcpConnection} {effs : List ConnEffect}

theorem isUp_iff : tcp.IsUp ↔ tcp.state ≠ .connecting ∧ tcp.state ≠ .disconnected := by
  constructor
  · rintro (hs | hs)
    · rw [hs]
      decide
    · rw [hs]
      decide
  · exact fun h => TcpConnection.isUp_of_ne h.1 h.2

theorem moves_handleClose (h : tcp.handleClose = some (tcp', effs)) :
    Moves tcp tcp' (some .disableAllEvents) := by
  have hup := TcpConnection.isUp_of_handleClose h
  obtain ⟨_, -, h⟩ := Option.bind_eq_some_iff.mp h
  obtain ⟨rfl, -⟩ := Prod.mk.inj (Option.some.inj h)
  exact .closed rfl hup rfl

theorem moves_handleRead {extrabuf : Vector Byte Buffer.extrabufSize} {r : ReadvResult}
    (h : tcp.handleRead extrabuf r = some (tcp', effs)) :
    Moves tcp tcp' ((LifeOp.read extrabuf r).update tcp tcp') := by
  obtain ⟨⟨b, ret⟩, -, h⟩ := Option.bind_eq_some_iff.mp h
  have hkept : ∀ {effs'}, some ({ tcp with inputBuffer := b }, effs') = some (tcp', effs) →
      Moves tcp tcp' ((LifeOp.read extrabuf r).update tcp tcp') := by
    intro effs' h
    obtain ⟨rfl, -⟩ := Prod.mk.inj (Option.some.inj h)
    rw [LifeOp.update, if_pos rfl]
    exact .kept rfl rfl
  dsimp only at h
  split at h
  · exact hkept h
  · split at h
    · have hup : TcpConnection.IsUp { tcp with inputBuffer := b } :=
        TcpConnection.isUp_of_handleClose h
      obtain ⟨_, -, h⟩ := Option.bind_eq_some_iff.mp h
      obtain ⟨rfl, -⟩ := Prod.mk.inj (Option.some.inj h)
      rw [LifeOp.update, if_neg (isUp_iff.mp hup).2.symm]
      exact .closed rfl hup rfl
    · exact hkept h

theorem moves_handleWrite {w : WriteResult} (h : tcp.handleWrite w = some (tcp', effs)) :
    Moves tcp tcp' ((LifeOp.write w).update tcp tcp') := by
  have hkept : tcp'.chan = tcp.chan → tcp'.state = tcp.state →
      Moves tcp tcp' ((LifeOp.write w).update tcp tcp') := by
    intro hc hs
    rw [LifeOp.update, if_pos (by rw [hc])]
    exact .kept hc hs
  have hstate := (TcpConnection.quiet_handleWrite h).1
  unfold TcpConnection.handleWrite at h
  split at h
  · next hw =>
      have hoff : tcp'.chan = tcp.chan.disableWriting →
          Moves tcp tcp' ((LifeOp.write w).update tcp tcp') := by
        intro hc
        rw [LifeOp.update, if_neg (by rw [hc, Channel.isWriting_disableWriting, hw]; decide)]
        exact .writesOff hc hstate hw
      cases w with
      | failed errno =>
          obtain ⟨rfl, -⟩ := Prod.mk.inj (Option.some.inj h)
          exact hkept rfl rfl
      | wrote n =>
          obtain ⟨taken, -, h⟩ := Option.bind_eq_some_iff.mp h
          obtain ⟨out, -, h⟩ := Option.bind_eq_some_iff.mp h
          dsimp only at h
          split at h
          · split at h
            · obtain ⟨rfl, -⟩ := Prod.mk.inj (Option.some.inj h)
              exact hoff (by rw [TcpConnection.quiet_shutdownInLoop.1])
            · obtain ⟨rfl, -⟩ := Prod.mk.inj (Option.some.inj h)
              exact hoff rfl
          · obtain ⟨rfl, -⟩ := Prod.mk.inj (Option.some.inj h)
            exact hkept rfl rfl
  · obtain ⟨rfl, -⟩ := Prod.mk.inj (Option.some.inj h)
    exact hkept rfl rfl

theorem moves_sendInLoop {buf : List Byte} {w : WriteResult}
    (h : tcp.sendInLoop buf w = some (tcp', effs)) :
    Moves tcp tcp' ((LifeOp.send buf w).update tcp tcp') := by
  have hkept : tcp'.chan = tcp.chan → tcp'.state = tcp.state →
      Moves tcp tcp' ((LifeOp.send buf w).update tcp tcp') := by
    intro hc hs
    rw [LifeOp.update, if_pos (by rw [hc])]
    exact .kept hc hs
  unfold TcpConnection.sendInLoop at h
  split at h
  · obtain ⟨rfl, -⟩ := Prod.mk.inj (Option.some.inj h)
    exact hkept rfl rfl
  · next hd =>
      obtain ⟨_, -, h⟩ := Option.bind_eq_some_iff.mp h
      split at h
      · obtain ⟨out, -, h⟩ := Option.bind_eq_some_iff.mp h
        obtain ⟨rfl, -⟩ := Prod.mk.inj (Option.some.inj h)
        by_cases hw : tcp.chan.isWriting = true
        · exact hkept (if_neg (by rw [hw]; decide)) rfl
        · have hoff := Bool.eq_false_iff.mpr hw
          have hc : (if (!tcp.chan.isWriting) = true then tcp.chan.enableWriting
              else tcp.chan) = tcp.chan.enableWriting := if_pos (by rw [hoff]; rfl)
          have hne : tcp.chan.enableWriting.isWriting ≠ tcp.chan.isWriting := by
            rw [Channel.isWriting_enableWriting, hoff]
            decide
          rw [LifeOp.update, if_neg fun he => hne (hc ▸ he)]
          exact .writesOn hc rfl hd
      · obtain ⟨rfl, -⟩ := Prod.mk.inj (Option.some.inj h)
        exact hkept rfl rfl

/-- What every function but the second half of `StepIntoDestroyed` does. -/
theorem moves_of_run {op : LifeOp} (h : op.run tcp = some (tcp', effs)) :
    Moves tcp tcp' (op.update tcp tcp') := by
  cases op with
  | established =>
      obtain ⟨_, hs, h⟩ := Option.bind_eq_some_iff.mp h
      obtain ⟨rfl, -⟩ := Prod.mk.inj (Option.some.inj h)
      exact .opened rfl (assert_eq_some_iff.mp hs) rfl
  | destroyed =>
      have h : tcp.stepIntoDestroyed = (tcp', effs) := Option.some.inj h
      unfold TcpConnection.stepIntoDestroyed at h
      unfold LifeOp.update
      split at h
      · next hs =>
          obtain ⟨rfl, -⟩ := Prod.mk.inj h
          rw [if_pos hs]
          exact .closed rfl (.inl hs) rfl
      · next hs =>
          obtain ⟨rfl, -⟩ := Prod.mk.inj h
          rw [if_neg hs]
          exact .kept rfl rfl
  | remove =>
      obtain ⟨_, -, h⟩ := Option.bind_eq_some_iff.mp h
      obtain ⟨rfl, -⟩ := Prod.mk.inj (Option.some.inj h)
      exact .kept rfl rfl
  | close => exact moves_handleClose h
  | read extrabuf r => exact moves_handleRead h
  | write w => exact moves_handleWrite h
  | send buf w => exact moves_sendInLoop h
  | shutdown =>
      have h : tcp.shutdown = (tcp', effs) := Option.some.inj h
      unfold TcpConnection.shutdown at h
      split at h
      · next hs =>
          obtain ⟨rfl, -⟩ := Prod.mk.inj h
          exact .shut rfl hs rfl
      · obtain ⟨rfl, -⟩ := Prod.mk.inj h
        exact .kept rfl rfl
  | shutdownInLoop =>
      have h : tcp.shutdownInLoop = (tcp', effs) := Option.some.inj h
      have hc : tcp' = tcp := by
        rw [← (TcpConnection.quiet_shutdownInLoop (c := tcp)).1, h]
      rw [hc]
      exact .kept rfl rfl
  | retrieve n =>
      obtain ⟨b, -, h⟩ := Option.bind_eq_some_iff.mp h
      obtain ⟨rfl, -⟩ := Prod.mk.inj (Option.some.inj h)
      exact .kept rfl rfl
  | error | writeComplete | highWater size | setHighWater mark =>
      obtain ⟨rfl, -⟩ := Prod.mk.inj (Option.some.inj h)
      exact .kept rfl rfl

theorem update_enableReading {op : LifeOp} (h : op.update tcp tcp' = some .enableReading) :
    op = .established := by
  cases op with
  | established => rfl
  | _ => simp [LifeOp.update] at h

theorem update_enableWriting {op : LifeOp} (h : op.update tcp tcp' = some .enableWriting) :
    ∃ buf w, op = .send buf w := by
  cases op with
  | send buf w => exact ⟨buf, w, rfl⟩
  | _ => simp [LifeOp.update] at h

/-- No function brings a connection back. -/
theorem Moves.disconnected {i : Option Interest} (h : Moves tcp tcp' i)
    (hs : tcp.state = .disconnected) : tcp'.state = .disconnected := by
  cases h with
  | kept _ hs' => exact hs'.trans hs
  | shut _ hs' => cases hs.symm.trans hs'
  | opened _ hs' => cases hs.symm.trans hs'
  | closed _ _ hs' => exact hs'
  | writesOn _ hs' => exact hs'.trans hs
  | writesOff _ hs' => exact hs'.trans hs

/-! ## The connection and its channel -/

/-- The interests of a connection that is up. -/
def upMasks : List (BitVec 32) := [kReadEvent, kReadEvent ||| kWriteEvent]

theorem upMasks_writing {e : BitVec 32} (h : e ∈ upMasks) :
    e ≠ kNoneEvent ∧ e ||| kWriteEvent ∈ upMasks ∧ e &&& ~~~kWriteEvent ∈ upMasks := by
  have hall : ∀ e ∈ upMasks,
      e ≠ kNoneEvent ∧ e ||| kWriteEvent ∈ upMasks ∧ e &&& ~~~kWriteEvent ∈ upMasks := by
    simp [upMasks, kNoneEvent, kReadEvent, kWriteEvent, POLLIN, POLLPRI, POLLRDHUP, POLLOUT]
  exact hall e h

/-- The channel of a connection is on the poller once the connection is established, and
has interest exactly while it is up. -/
structure Hosts (me : P) (fd : P → ℤ) (s : Hosted P) (cs : List P) : Prop where
  mirrors : PollSession.Mirrors fd s.poller cs
  events : (s.poller.poller.objs me).events = s.tcp.chan.events
  fresh : s.tcp.state = .connecting →
    me ∉ s.poller.registered ∧ (s.poller.poller.objs me).index < 0
  registered : s.tcp.state ≠ .connecting → me ∈ s.poller.registered
  off : s.tcp.state = .connecting ∨ s.tcp.state = .disconnected → s.tcp.chan.events = kNoneEvent
  up : s.tcp.IsUp → s.tcp.chan.events ∈ upMasks

variable {me : P} {fd : P → ℤ} {s s' : Hosted P} {cs : List P} {i : Interest}

theorem apply_events {a b : Channel} (h : a.events = b.events) :
    (i.apply a).events = (i.apply b).events := by
  cases i with
  | enableReading | enableWriting | disableWriting =>
      simp only [Interest.apply, Channel.enableReading, Channel.enableWriting,
        Channel.disableWriting, h]
  | disableAllEvents => rfl

/-- The channel is left alone. -/
theorem Hosts.keep (h : Hosts me fd s cs) (hc : tcp'.chan = s.tcp.chan)
    (hcon : tcp'.state = .connecting ↔ s.tcp.state = .connecting)
    (hdis : tcp'.state = .disconnected ↔ s.tcp.state = .disconnected) :
    Hosts me fd ⟨tcp', s.poller⟩ cs where
  mirrors := h.mirrors
  events := h.events.trans (congrArg _ hc.symm)
  fresh hs := h.fresh (hcon.mp hs)
  registered hs := h.registered fun hs' => hs (hcon.mpr hs')
  off hs := by
    rw [hc]
    exact h.off (hs.imp hcon.mp hdis.mp)
  up hup := by
    rw [isUp_iff, ne_eq, ne_eq, hcon, hdis] at hup
    rw [hc]
    exact h.up (isUp_iff.mpr hup)

/-- The channel of a connection that is established is registered, to be read from. -/
theorem Hosts.opened (h : Hosts me fd s cs) (hs : s.tcp.state = .connecting)
    (hc : tcp'.chan = s.tcp.chan.enableReading) (hs' : tcp'.state = .connected)
    (hfree : s.poller.poller.channels.find (s.poller.poller.objs me).fd = none) :
    ∃ poller cs', s.poller.channelExec (.interest me .enableReading) = some poller ∧
      Hosts me fd ⟨tcp', poller⟩ cs' := by
  obtain ⟨hout, hidx⟩ := h.fresh hs
  obtain ⟨poller, cs', e, m', -⟩ := h.mirrors.register (i := .enableReading)
    (fun hin => hout (h.mirrors.tracks.mem_iff.mpr hin)) hfree hidx rfl
  obtain ⟨hins, hev, -⟩ := PollSession.channelExec_interest e
  have hread : tcp'.chan.events = kReadEvent := by
    rw [hc]
    show s.tcp.chan.events ||| kReadEvent = kReadEvent
    rw [h.off (.inl hs)]
    exact BitVec.zero_or
  refine ⟨poller, cs', e, m', ?_, fun h' => ?_, fun _ => ?_, fun h' => ?_, fun _ => ?_⟩
  · rw [hev, apply_events h.events, hc]
    rfl
  · cases hs'.symm.trans h'
  · show me ∈ poller.registered
    rw [hins]
    exact List.mem_insert_self
  · rcases h' with h' | h'
    · cases hs'.symm.trans h'
    · cases hs'.symm.trans h'
  · rw [hread]
    exact List.mem_cons_self

/-- The interest of a connection that has been established changes. -/
theorem Hosts.change (h : Hosts me fd s cs) (hs : s.tcp.state ≠ .connecting)
    (hc : tcp'.chan = i.apply s.tcp.chan) (hs' : tcp'.state ≠ .connecting)
    (hoff : tcp'.state = .disconnected → tcp'.chan.events = kNoneEvent)
    (hon : tcp'.IsUp → tcp'.chan.events ∈ upMasks) :
    ∃ poller, s.poller.channelExec (.interest me i) = some poller ∧
      Hosts me fd ⟨tcp', poller⟩ cs := by
  have hreg := h.registered hs
  obtain ⟨poller, e, m', -⟩ := h.mirrors.change (i := i) (h.mirrors.tracks.mem_iff.mp hreg)
  obtain ⟨hins, hev, -⟩ := PollSession.channelExec_interest e
  refine ⟨poller, e, m', ?_, fun h' => absurd h' hs', fun _ => ?_, fun h' => ?_, hon⟩
  · rw [hev, apply_events h.events, hc]
  · show me ∈ poller.registered
    rw [hins]
    exact List.mem_insert_self
  · exact hoff (h'.resolve_left hs')

/-- The interest of a connection that is up and stays so changes. -/
theorem Hosts.toggle (h : Hosts me fd s cs) (hup : s.tcp.IsUp)
    (hc : tcp'.chan = i.apply s.tcp.chan) (hs : tcp'.state = s.tcp.state)
    (hon : (i.apply s.tcp.chan).events ∈ upMasks) :
    ∃ poller, s.poller.channelExec (.interest me i) = some poller ∧
      Hosts me fd ⟨tcp', poller⟩ cs := by
  obtain ⟨hcon, hdis⟩ := isUp_iff.mp hup
  refine h.change hcon hc (hs ▸ hcon) (fun h' => absurd (hs.symm.trans h') hdis) fun _ => ?_
  rw [hc]
  exact hon

/-- What a function does to the channel succeeds on the poller. -/
theorem Hosts.moved (h : Hosts me fd s cs) {i : Option Interest} (hm : Moves s.tcp tcp' i)
    (hnew : i = some .enableReading →
      s.poller.poller.channels.find (s.poller.poller.objs me).fd = none)
    (hsent : i = some .enableWriting → s.tcp.state ≠ .connecting) :
    ∃ poller cs', (i.map (.interest me)).elim (some s.poller) s.poller.channelExec =
      some poller ∧ Hosts me fd ⟨tcp', poller⟩ cs' := by
  cases hm with
  | kept hc hs => exact ⟨s.poller, cs, rfl, h.keep hc (by rw [hs]) (by rw [hs])⟩
  | shut hc hs hs' =>
      exact ⟨s.poller, cs, rfl, h.keep hc (by rw [hs, hs']; decide) (by rw [hs, hs']; decide)⟩
  | opened hc hs hs' => exact h.opened hs hc hs' (hnew rfl)
  | closed hc hup hs' =>
      obtain ⟨poller, e, h'⟩ := h.change (i := .disableAllEvents) (isUp_iff.mp hup).1 hc
        (by rw [hs']; decide) (fun _ => by rw [hc]; rfl)
        (fun hup' => absurd hs' (isUp_iff.mp hup').2)
      exact ⟨poller, cs, e, h'⟩
  | writesOn hc hs hd =>
      have hup : s.tcp.IsUp := isUp_iff.mpr ⟨hsent rfl, hd⟩
      obtain ⟨poller, e, h'⟩ := h.toggle (i := .enableWriting) hup hc hs
        (upMasks_writing (h.up hup)).2.1
      exact ⟨poller, cs, e, h'⟩
  | writesOff hc hs hw =>
      -- a channel that is written to has interest
      have hon : ¬ (s.tcp.state = .connecting ∨ s.tcp.state = .disconnected) := by
        intro hor
        rw [TcpConnection.not_isWriting (beq_iff_eq.mpr (h.off hor))] at hw
        cases hw
      have hup : s.tcp.IsUp := isUp_iff.mpr (not_or.mp hon)
      obtain ⟨poller, e, h'⟩ := h.toggle (i := .disableWriting) hup hc hs
        (upMasks_writing (h.up hup)).2.2
      exact ⟨poller, cs, e, h'⟩

omit [DecidableEq P] in
theorem call_eq {op : LifeOp} (h : op ≠ .remove) :
    op.call me tcp tcp' = (op.update tcp tcp').map (.interest me) := by
  cases op with
  | remove => exact absurd rfl h
  | _ => rfl

/-- Other channels do not touch this one. -/
theorem Hosts.other (h : Hosts me fd s cs) {op : ChannelOp P} (hop : s.Proper me op) :
    ∃ poller cs', s.poller.channelExec op = some poller ∧ Hosts me fd ⟨s.tcp, poller⟩ cs' := by
  obtain ⟨hne, hused, hunused⟩ := hop
  obtain ⟨poller, cs', e, m', -⟩ := h.mirrors.exec hused hunused
  obtain ⟨hmem, hev, hobj⟩ := PollSession.channelExec_frame h.mirrors.tracks e hne
  refine ⟨poller, cs', e, m', hev.trans h.events, fun hs => ?_, fun hs => ?_, h.off, h.up⟩
  · obtain ⟨hout, hidx⟩ := h.fresh hs
    refine ⟨fun hin => hout (hmem.mp hin), ?_⟩
    rw [hobj hout]
    exact hidx
  · exact hmem.mpr (h.registered hs)

theorem Hosts.step (h : Hosts me fd s cs) {op : HostOp P} (hop : s.Serving me op)
    (hst : s.exec me op = some s') : ∃ cs', Hosts me fd s' cs' := by
  cases op with
  | other op =>
      obtain ⟨poller, cs', e, h'⟩ := h.other hop
      obtain ⟨poller', e', hst⟩ := Option.bind_eq_some_iff.mp hst
      obtain rfl := Option.some.inj hst
      obtain rfl := Option.some.inj (e.symm.trans e')
      exact ⟨cs', h'⟩
  | life op =>
      obtain ⟨⟨tcp', effs⟩, hrun, hst⟩ := Option.bind_eq_some_iff.mp hst
      obtain ⟨poller', e', hst⟩ := Option.bind_eq_some_iff.mp hst
      obtain rfl := Option.some.inj hst
      have hremove : op ≠ .remove := by
        rintro rfl
        exact hop
      obtain ⟨poller, cs', e, h'⟩ := h.moved (moves_of_run hrun)
        (fun hu => by
          obtain rfl := update_enableReading hu
          exact hop)
        (fun hu => by
          obtain ⟨buf, w, rfl⟩ := update_enableWriting hu
          exact hop)
      rw [call_eq hremove] at e'
      obtain rfl := Option.some.inj (e.symm.trans e')
      exact ⟨cs', h'⟩

theorem hosts_new (hfd : ∀ c, 0 ≤ fd c) {wc hw : Bool} {mark : ℕ}
    (h : TcpConnection.new (fd me) wc hw mark = some tcp) :
    Hosts me fd ⟨tcp, PollSession.init fd⟩ [] := by
  have hidx : ((PollSession.init fd).poller.objs me).index < 0 := Int.negSucc_lt_zero 0
  simp only [TcpConnection.new, Option.bind_eq_bind, Option.bind_eq_some_iff] at h
  obtain ⟨_, -, _, -, h⟩ := h
  obtain rfl := Option.some.inj h
  exact
    { mirrors := PollSession.mirrors_init hfd
      events := rfl
      fresh := fun _ => ⟨List.not_mem_nil, hidx⟩
      registered := fun h => absurd rfl h
      off := fun _ => rfl
      up := by rintro (h | h) <;> cases h }

/-! ## StepIntoDestroyed -/

theorem disconnected_step {op : HostOp P} (hs : s.tcp.state = .disconnected)
    (hst : s.exec me op = some s') : s'.tcp.state = .disconnected := by
  cases op with
  | life op =>
      obtain ⟨⟨tcp', effs⟩, hrun, hst⟩ := Option.bind_eq_some_iff.mp hst
      obtain ⟨_, -, hst⟩ := Option.bind_eq_some_iff.mp hst
      obtain rfl := Option.some.inj hst
      exact (moves_of_run hrun).disconnected hs
  | other op =>
      obtain ⟨_, -, hst⟩ := Option.bind_eq_some_iff.mp hst
      obtain rfl := Option.some.inj hst
      exact hs

/-- The first half does nothing to a connection that is not connected. -/
theorem destroyed_of_ne (hs : s.tcp.state ≠ .connected) :
    s.exec me (.life .destroyed) = some s := by
  simp only [exec, LifeOp.run, TcpConnection.stepIntoDestroyed, LifeOp.call, LifeOp.update,
    if_neg hs, Option.bind_eq_bind, Option.bind_some, Option.map_none, Option.elim_none]
  rfl

theorem Hosts.destroyed (h : Hosts me fd s cs)
    (hs : s.tcp.state = .connected ∨ s.tcp.state = .disconnected) :
    ∃ s' cs', s.exec me (.life .destroyed) = some s' ∧ Hosts me fd s' cs' ∧
      s'.tcp.state = .disconnected := by
  rcases hs with hs | hs
  · have hrun : LifeOp.run s.tcp .destroyed = some ({ s.tcp with
        state := .disconnected, chan := s.tcp.chan.disableAllEvents }, [.connectionCb]) :=
      congrArg some (if_pos hs)
    have hu : LifeOp.update s.tcp { s.tcp with
        state := .disconnected, chan := s.tcp.chan.disableAllEvents } .destroyed =
        some .disableAllEvents := if_pos hs
    obtain ⟨poller, cs', e, h'⟩ := h.moved (moves_of_run hrun)
      (fun hr => by rw [hu] at hr; cases hr) (fun hw => by rw [hu] at hw; cases hw)
    refine ⟨_, cs', ?_, h', rfl⟩
    simp only [exec, hrun, call_eq (show LifeOp.destroyed ≠ .remove by rintro ⟨⟩),
      Option.bind_eq_bind, Option.bind_some, e]
    rfl
  · exact ⟨s, cs, destroyed_of_ne (by rw [hs]; decide), h, hs⟩

/-- The second half takes a channel without interest off the poller. -/
theorem Hosts.remove (h : Hosts me fd s cs) (hs : s.tcp.state = .disconnected) :
    ∃ s', s.exec me (.life .remove) = some s' ∧ s'.TornDown me := by
  have hnone : s.tcp.chan.events = kNoneEvent := h.off (.inr hs)
  have hmem := h.mirrors.tracks.mem_iff.mp (h.registered (by rw [hs]; decide))
  obtain ⟨poller, cs', e, m', -⟩ := h.mirrors.remove hmem (beq_iff_eq.mpr (h.events.trans hnone))
  obtain ⟨hreg, hchannels, hev, -⟩ := PollSession.channelExec_remove h.mirrors.tracks e
  have hremove : s.tcp.chan.remove = some () := assert_of (beq_iff_eq.mpr hnone)
  have hgone : poller.poller.channels.find (fd me) = none := by
    rw [hchannels, h.mirrors.tracks.fds, ChannelMap.find_erase, if_pos rfl]
  refine ⟨⟨s.tcp, poller⟩, ?_, hs, ⟨beq_iff_eq.mpr hnone, ?_⟩, ⟨?_, ?_, fun p hp howner => ?_⟩,
    fun tr t hr => hr.invariant hs fun hi hst => disconnected_step hi hst⟩
  · simp only [exec, LifeOp.run, LifeOp.call, hremove, Option.bind_eq_bind, Option.bind_some,
      Option.elim_some, e]
    rfl
  · exact beq_iff_eq.mpr ((hev me).trans (h.events.trans hnone))
  · show me ∉ poller.registered
    rw [hreg]
    refine List.Nodup.not_mem_erase ?_
    exact h.mirrors.tracks.registered.nodup_iff.mp h.mirrors.tracks.table.exact.nodup
  · rw [m'.tracks.fds]
    exact hgone
  · -- an entry has a channel, whose descriptor is a key
    have hin : p.owner ∈ poller.poller.pollfds.map Pollfd.owner := List.mem_map_of_mem hp
    rw [m'.tracks.table.owner] at hin
    obtain ⟨d, hd, hfd⟩ := List.mem_map.mp hin
    have hfind := m'.tracks.table.mem_iff.mp hd
    rw [hfd, howner, m'.tracks.fds, hgone] at hfind
    cases hfind

/-- In every state of a run before the tear-down, `StepIntoDestroyed` tears the connection
down exactly when it is connected or disconnected. -/
theorem tearsDown_iff (hfd : ∀ c, 0 ≤ fd c) {wc hw : Bool} {mark : ℕ}
    (hnew : TcpConnection.new (fd me) wc hw mark = some tcp) {tr : List (Hosted P × HostOp P)}
    (hr : Run (stepOf (exec me)) ⟨tcp, PollSession.init fd⟩ tr s)
    (hv : ∀ p ∈ tr, Serving me p.1 p.2) :
    s.TearsDown me ↔ s.tcp.state = .connected ∨ s.tcp.state = .disconnected := by
  obtain ⟨cs, h⟩ := hr.invariant_of (I := fun s => ∃ cs, Hosts me fd s cs) hv
    ⟨[], hosts_new hfd hnew⟩ (fun ⟨_, h⟩ hop hst => h.step hop hst)
  constructor
  · rintro ⟨s₁, e₁, hall⟩
    by_contra hne
    obtain ⟨hconn, hdis⟩ := not_or.mp hne
    obtain rfl := Option.some.inj ((destroyed_of_ne hconn).symm.trans e₁)
    obtain ⟨s₃, e₃, -⟩ := hall [] s .nil (List.forall_mem_nil _)
    obtain ⟨⟨tcp', effs⟩, hrun, e₃⟩ := Option.bind_eq_some_iff.mp e₃
    obtain ⟨poller, hcall, -⟩ := Option.bind_eq_some_iff.mp e₃
    by_cases hcon : s.tcp.state = .connecting
    · -- the channel is not on the poller yet
      obtain ⟨_, -, hremove⟩ := Option.bind_eq_some_iff.mp hcall
      have hfind := (PollSession.asserted_of_exec hremove).1
      have hin := h.mirrors.tracks.mem_iff.mpr (h.mirrors.tracks.table.mem_iff.mpr hfind)
      exact (h.fresh hcon).1 hin
    · -- the channel has its interest still
      obtain ⟨_, hnone, -⟩ := Option.bind_eq_some_iff.mp hrun
      have hnone : s.tcp.chan.events = kNoneEvent := beq_iff_eq.mp (assert_eq_some_iff.mp hnone)
      exact (upMasks_writing (h.up (isUp_iff.mpr ⟨hcon, hdis⟩))).1 hnone
  · intro hs
    obtain ⟨s₁, cs₁, e₁, h₁, hs₁⟩ := h.destroyed hs
    refine ⟨s₁, e₁, fun tr s₂ hr hc => ?_⟩
    obtain ⟨⟨cs₂, h₂⟩, hs₂⟩ := hr.invariant_of
      (I := fun s => (∃ cs, Hosts me fd s cs) ∧ s.tcp.state = .disconnected) hc ⟨⟨cs₁, h₁⟩, hs₁⟩
      (fun ⟨⟨_, h⟩, hs⟩ hop hst => ⟨h.step (serving_of_calling hop) hst, disconnected_step hs hst⟩)
    exact h₂.remove hs₂

def socketFd (c : ℕ) : ℤ := 4 + c

/-- A new connection on the first socket. -/
def newcomer : TcpConnection where
  chan := .new (socketFd 0)
  state := .connecting
  writeCompleteCb := true
  highWaterCb := false
  highWaterMark := 0
  inputBuffer := ⟨List.replicate (kCheapPrepend + kInitialSize) 0, kCheapPrepend, kCheapPrepend⟩
  outputBuffer := ⟨List.replicate (kCheapPrepend + kInitialSize) 0, kCheapPrepend, kCheapPrepend⟩

theorem new_newcomer : TcpConnection.new (socketFd 0) true false 0 = some newcomer := by
  simp only [TcpConnection.new, Buffer.new_eq, Option.bind_eq_bind, Option.bind_some]
  rfl

/-- Two of three bytes are still to be written. -/
def pendingOutput : List (HostOp ℕ) :=
  [.life .established, .other (.interest 1 .enableReading), .life (.send [1, 2, 3] (.wrote 1))]

theorem pendingOutput_tearsDown : ∃ tr s,
    runAll (exec 0) ⟨newcomer, PollSession.init socketFd⟩ pendingOutput = some (tr, s) ∧
      s.tcp.outputBuffer.readableBytes = 2 ∧ s.TearsDown 0 := by
  have hcomputed : ∃ tr s,
      runAll (exec 0) ⟨newcomer, PollSession.init socketFd⟩ pendingOutput = some (tr, s) ∧
        (∀ p ∈ tr, Serving 0 p.1 p.2) ∧ s.tcp.state = .connected ∧
        s.tcp.outputBuffer.readableBytes = 2 :=
    exists_computed (by decide +kernel)
  obtain ⟨tr, s, hrun, hv, hs, hout⟩ := hcomputed
  have hfd : ∀ c, 0 ≤ socketFd c := by
    intro c
    unfold socketFd
    omega
  exact ⟨tr, s, hrun, hout,
    (tearsDown_iff hfd new_newcomer (run_of_runAll hrun) hv).mpr (.inl hs)⟩

/-- The user shuts the connection down, and the peer has not closed its side yet. -/
def shutDown : List (HostOp ℕ) := [.life .established, .life .shutdown, .life .shutdownInLoop]

theorem shutDown_aborts : ∃ tr s,
    TcpConnection.new (socketFd 0) true false 0 = some newcomer ∧
      runAll (exec 0) ⟨newcomer, PollSession.init socketFd⟩ shutDown = some (tr, s) ∧
      (∀ p ∈ tr, Serving 0 p.1 p.2) ∧ s.tcp.state = .disconnecting ∧ ¬ s.TearsDown 0 := by
  have hcomputed : ∃ tr s,
      runAll (exec 0) ⟨newcomer, PollSession.init socketFd⟩ shutDown = some (tr, s) ∧
        (∀ p ∈ tr, Serving 0 p.1 p.2) ∧ s.tcp.state = .disconnecting ∧
        ((s.exec 0 (.life .destroyed)).bind fun s => s.exec 0 (.life .remove)).isNone = true :=
    exists_computed (by decide +kernel)
  obtain ⟨tr, s, hrun, hv, hs, habort⟩ := hcomputed
  refine ⟨tr, s, new_newcomer, hrun, hv, hs, ?_⟩
  rintro ⟨s₁, e₁, hall⟩
  obtain ⟨s₃, e₃, -⟩ := hall [] s₁ .nil (List.forall_mem_nil _)
  rw [e₁, Option.bind_some, e₃] at habort
  cases habort

end Hosted

end Muduo
