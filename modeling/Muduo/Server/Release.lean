/-
# `Muduo.Server.Release` — when the last reference to a connection goes

The storage of a connection is not modelled, its owners are: a connection is kept
alive by its entry in `conns_` and by the `shared_ptr`s that are bound to callbacks,
queued or running, and by the tie of its channel while events are handled.  What has
a plain pointer does not keep it alive: `activeChannels_` and the table of the poller.

    owner                        until
    conns_                       RemoveConnectionInLoop
    a callback bound to it       it has been called
    the tie in HandleEvents      the handlers have come back

So it must be shown that the plain pointers are gone before the owners are.  A
channel that is left in `activeChannels_` is up (`Reports`): only its own handlers
close it, and they have not begun.  A connection without an owner has been through
`Channel::Remove`, and is in the state that its destructor asserts.
-/
import Muduo.Server.LifeCycle
import Muduo.Server.Teardown

namespace Muduo

open Hosted Runs

/-- The connections whose events are being handled. -/
def ServerFrame.handled : ServerFrame → List ℕ
  | .handlers c _ => [c]
  | .call _ | .runInLoop _ _ | .enqueue _ _ | .remove _ | .callback | .destructor _ => []

/-- The frame keeps connection `c` alive. -/
def ServerFrame.Owns (c : ℕ) : ServerFrame → Prop
  | .call t | .runInLoop _ t | .enqueue _ t => t.due.1 = c
  | .handlers c' _ | .remove c' => c' = c
  | .callback => False
  | .destructor rest => c ∈ rest

instance (c : ℕ) : (f : ServerFrame) → Decidable (f.Owns c)
  | .call _ | .runInLoop _ _ | .enqueue _ _ => inferInstanceAs (Decidable (_ = _))
  | .handlers _ _ | .remove _ => inferInstanceAs (Decidable (_ = _))
  | .callback => inferInstanceAs (Decidable False)
  | .destructor _ => inferInstanceAs (Decidable (_ ∈ _))

namespace ServerThread

def handled (t : ServerThread) : List ℕ := t.stack.flatMap ServerFrame.handled

/-- Something in the thread keeps connection `c` alive. -/
def Owns (c : ℕ) (t : ServerThread) : Prop :=
  (∃ f ∈ t.stack, f.Owns c) ∨ ∃ task ∈ t.batch ++ t.queue, task.due.1 = c

instance (c : ℕ) (t : ServerThread) : Decidable (t.Owns c) :=
  inferInstanceAs (Decidable (_ ∨ _))

/-- Of the channels that were reported each is handled once. -/
structure Apart (t : ServerThread) : Prop where
  nodup : (t.active.map Prod.fst).Nodup
  apart : ∀ p ∈ t.active, p.1 ∉ t.handled

/-- As many channels are left, and no more are being handled. -/
structure Keeps (t t' : ServerThread) : Prop where
  active : t'.active = t.active
  handled : t'.handled ⊆ t.handled

theorem Keeps.refl (t : ServerThread) : t.Keeps t := ⟨rfl, fun _ h => h⟩

theorem Keeps.trans {t u v : ServerThread} (h : t.Keeps u) (h' : u.Keeps v) : t.Keeps v :=
  ⟨h'.active.trans h.active, fun _ hx => h.handled (h'.handled hx)⟩

theorem Apart.keeps {t t' : ServerThread} (h : t.Apart) (hk : t.Keeps t') : t'.Apart where
  nodup := hk.active ▸ h.nodup
  apart := fun p hp hx => h.apart p (hk.active ▸ hp) (hk.handled hx)

end ServerThread

namespace LifeOp

/-- The operations in which a connection may come to its end. -/
def mayEnd : LifeOp → Bool
  | .destroyed | .close | .read _ _ => true
  | _ => false

theorem update_ne {tcp tcp' : TcpConnection} (op : LifeOp) (h : op.mayEnd = false) :
    op.update tcp tcp' ≠ some .disableAllEvents := by
  cases op with
  | destroyed | close | read => exact nomatch h
  | write =>
      show (if _ then none else some Interest.disableWriting) ≠ _
      split
      · exact nofun
      · exact nofun
  | send =>
      show (if _ then none else some Interest.enableWriting) ≠ _
      split
      · exact nofun
      · exact nofun
  | established | remove | error | shutdown | shutdownInLoop | writeComplete | highWater | retrieve
  | setHighWater => exact nofun

end LifeOp

/-- UP, HandleClose, DOWN and Channel::Remove, each once. -/
structure ServerConn.Through (k : ServerConn) : Prop where
  state : k.tcp.state = .disconnected
  silent : k.tcp.chan.isNoneEvent = true
  once : ∀ e ∈ [ConnEvent.up, .close, .down, .removed], k.log.count e = 1

/-- A connection that has been DOWN, and to which no `Channel::Remove` is due, has had
everything once. -/
theorem Lives.once {tcp : TcpConnection} {log : List ConnEvent} {d : Due → ℕ} (h : Lives tcp log d)
    (hremove : d .remove = 0) (hdown : 0 < log.count .down) :
    tcp.state = .disconnected ∧ ∀ e ∈ [ConnEvent.up, .close, .down, .removed], log.count e = 1 := by
  have hclosing := h.closing
  have hevents := h.events
  have hremoving := h.removing
  have hdis := h.disconnected (by omega)
  have hup := (h.begun fun hc => nomatch hc.symm.trans hdis).2.2
  refine ⟨hdis, fun e he => ?_⟩
  rcases List.mem_cons.mp he with rfl | he
  · exact hup
  rcases List.mem_cons.mp he with rfl | he
  · omega
  rcases List.mem_cons.mp he with rfl | he
  · omega
  · obtain rfl := List.mem_singleton.mp he
    omega

theorem Lives.through {k : ServerConn} {d : Due → ℕ} (h : Lives k.tcp k.log d)
    (hremove : d .remove = 0) (hdown : 0 < k.log.count .down) : k.Through := by
  obtain ⟨hdis, honce⟩ := h.once hremove hdown
  exact ⟨hdis, h.sound.off (.inr hdis), honce⟩

namespace TcpServer

variable {s s' u : TcpServer} {a : ServerAct} {i c : ℕ} {t : ServerThread} {k : ServerConn}

/-- The server, a loop or the tie of its channel keeps connection `c` alive. -/
def Owned (s : TcpServer) (c : ℕ) : Prop :=
  c ∈ s.conns.map Prod.snd ∨ ∃ t ∈ s.threads, t.Owns c

instance (s : TcpServer) (c : ℕ) : Decidable (s.Owned c) := inferInstanceAs (Decidable (_ ∨ _))

/-! ## What is left of the channels that were reported -/

/-- No step of a thread adds to what was reported. -/
def Keeps (s s' : TcpServer) : Prop :=
  ∀ (i : ℕ) (t' : ServerThread), s'.threads[i]? = some t' →
    ∃ t, s.threads[i]? = some t ∧ t.Keeps t'

namespace Keeps

theorem refl (s : TcpServer) : s.Keeps s := fun _ t ht => ⟨t, ht, .refl t⟩

/-- The threads alone matter. -/
theorem of_threads (h : u.threads = s.threads) (hk : u.Keeps s') : s.Keeps s' :=
  fun i t ht => h ▸ hk i t ht

theorem trans (h : s.Keeps s') (h' : s'.Keeps u) : s.Keeps u := by
  intro i v hv
  obtain ⟨t', ht', hk'⟩ := h' i v hv
  obtain ⟨t, ht, hk⟩ := h i t' ht'
  exact ⟨t, ht, hk.trans hk'⟩

theorem onThread (s : TcpServer) (i : ℕ) {f : ServerThread → ServerThread}
    (hf : ∀ t, s.threads[i]? = some t → t.Keeps (f t)) : s.Keeps (s.onThread i f) := by
  intro j t' ht'
  rw [TcpServer.onThread, List.getElem?_modify] at ht'
  obtain ⟨t, ht, he⟩ := Option.map_eq_some_iff.mp ht'
  split at he
  · next hij =>
      subst hij
      exact ⟨t, ht, he ▸ hf t ht⟩
  · exact ⟨t, ht, he ▸ .refl t⟩

theorem push (s : TcpServer) (i : ℕ) {fs : List ServerFrame}
    (hfs : fs.flatMap ServerFrame.handled = []) : s.Keeps (s.push i fs) := by
  refine onThread s i fun t _ => ⟨rfl, fun x hx => ?_⟩
  rwa [ServerThread.handled, List.flatMap_append, hfs] at hx

theorem pop (s : TcpServer) (i : ℕ) : s.Keeps (s.pop i) := by
  refine onThread s i fun t _ => ⟨rfl, fun x hx => ?_⟩
  obtain ⟨f, hf, hx⟩ := List.mem_flatMap.mp hx
  exact List.mem_flatMap.mpr ⟨f, List.mem_of_mem_tail hf, hx⟩

theorem enqueue (s : TcpServer) (l : ℕ) (task : ServerTask) : s.Keeps (s.enqueue l task) :=
  onThread s l fun _ _ => ⟨rfl, fun _ hx => hx⟩

/-- What an effect leaves its thread with handles no events. -/
theorem handled_frames (loop c : ℕ) (effs : List ConnEffect) :
    (effs.flatMap (ConnEffect.frames loop c)).flatMap ServerFrame.handled = [] := by
  induction effs with
  | nil => rfl
  | cons e effs ih =>
      rw [List.flatMap_cons, List.flatMap_append, ih]
      cases e with
      | queueWriteComplete | queueHighWater | runShutdownInLoop | onCloseCb | connectionCb
      | onMessageCb | write | shutdownWrite | logError => rfl

theorem onConn (s : TcpServer) (i c : ℕ) (ev : List ConnEvent)
    (f : ServerConn → Option (TcpConnection × List ConnEffect)) {after : List ServerFrame}
    (ha : after.flatMap ServerFrame.handled = []) : s.Keeps (s.onConn i c ev f after) := by
  cases hk : s.accepted[c]? with
  | none =>
      rw [TcpServer.onConn, hk]
      exact refl s
  | some k =>
      cases hr : f k with
      | none =>
          rw [onConn_none hk hr]
          exact refl s
      | some r =>
          rw [onConn_some hk hr]
          refine of_threads rfl (push { s with accepted := _, stale := _ } i ?_)
          rw [List.flatMap_append, handled_frames, ha, List.append_nil]

theorem call (s : TcpServer) (i : ℕ) (r : SysResult) (task : ServerTask) :
    s.Keeps (s.call i r task) := by
  cases task with
  | removeConnectionInLoop c =>
      show s.Keeps (s.removeConnectionInLoop i c)
      cases h : (do
          assert (i = 0)
          let k ← s.accepted[c]?
          some ((s.erase k.name).push i [.runInLoop k.loop (.stepIntoDestroyed c)])) with
      | none =>
          rw [removeConnectionInLoop, h]
          exact refl s
      | some s' =>
          rw [removeConnectionInLoop, h]
          obtain ⟨_, -, h⟩ := Option.bind_eq_some_iff.mp h
          obtain ⟨k, -, h⟩ := Option.bind_eq_some_iff.mp h
          obtain rfl := Option.some.inj h
          exact of_threads rfl (push (s.erase k.name) i rfl)
  | stepIntoEstablished | stepIntoDestroyed | sendInLoop | shutdownInLoop | writeComplete
  | highWater => exact onConn s i _ _ _ rfl

theorem handle (s : TcpServer) (i c : ℕ) (r : SysResult) (h : Handler) :
    s.Keeps (s.handle i c r h) := by
  cases h with
  | close | error | read | write => exact onConn s i c _ _ rfl

/-- Nor does the function that a thread is in. -/
theorem perform {f : ServerFrame} {stack : List ServerFrame} (r : SysResult)
    (ht : s.threads[i]? = some t) (hstack : t.stack = f :: stack) :
    s.Keeps ((s.pop i).perform i r f) := by
  have hpop := pop s i
  cases f with
  | call task => exact hpop.trans (call _ i r task)
  | runInLoop l task =>
      show s.Keeps (if i = l then _ else _)
      split
      · exact hpop.trans (push _ i rfl)
      · exact hpop.trans (enqueue _ l task)
  | enqueue l task => exact hpop.trans (enqueue _ l task)
  | handlers c hs =>
      cases hs with
      | nil => exact hpop
      | cons h hs =>
          have hrest : s.Keeps ((s.pop i).push i [.handlers c hs]) := by
            show s.Keeps { s with threads := (s.threads.modify i _).modify i _ }
            rw [List.modify_modify_eq]
            refine onThread s i fun v hv => ⟨rfl, fun x hx => ?_⟩
            obtain rfl := Option.some.inj (ht.symm.trans hv)
            rw [ServerThread.handled, hstack]
            simpa [ServerThread.handled, hstack, ServerFrame.handled] using hx
          exact hrest.trans (handle _ i c r h)
  | remove c => exact hpop.trans (onConn _ i c _ _ rfl)
  | callback => exact hpop
  | destructor rest =>
      cases rest with
      | nil => exact hpop
      | cons c rest =>
          refine hpop.trans ?_
          cases hk : (s.pop i).accepted[c]? with
          | none =>
              rw [TcpServer.perform, hk]
              exact refl _
          | some k =>
              rw [destructor_eq hk]
              exact push _ i rfl

end Keeps

/-! ## Who closes a connection -/

theorem up_eq_true_iff : s.up c = true ↔ ∃ k, s.accepted[c]? = some k ∧ k.tcp.IsUp := by
  unfold up
  cases s.accepted[c]? with
  | none => exact ⟨nofun, fun ⟨k, hk, _⟩ => nomatch hk⟩
  | some k =>
      constructor
      · exact fun h => ⟨k, rfl, of_decide_eq_true h⟩
      · rintro ⟨k', hk, hup⟩
        obtain rfl := Option.some.inj hk
        exact decide_eq_true hup

/-- Of the changes of interest only one comes with the end of a connection. -/
theorem isUp_of_moves {tcp tcp' : TcpConnection} {e : Option Interest}
    (h : Moves tcp tcp' e) (he : e ≠ some .disableAllEvents) (hup : tcp.IsUp) : tcp'.IsUp := by
  cases h with
  | kept _ hs | writesOn _ hs | writesOff _ hs =>
      rw [TcpConnection.IsUp, hs]
      exact hup
  | shut _ _ hs => exact .inr hs
  | opened _ _ hs => exact .inl hs
  | closed => exact absurd rfl he

/-- Connection `c` after a function of connection `c'`: it is as it was, or the function was
its own and has come back. -/
theorem onConn_cases (i c' : ℕ) (ev : List ConnEvent)
    (f : ServerConn → Option (TcpConnection × List ConnEffect)) (after : List ServerFrame)
    (hk : s.accepted[c]? = some k) :
    (s.onConn i c' ev f after).accepted[c]? = some k ∨
      c' = c ∧ ∃ (r : TcpConnection × List ConnEffect) (log : List ConnEvent), f k = some r ∧
        (s.onConn i c' ev f after).accepted[c]? = some { k with tcp := r.1, log } := by
  cases hk' : s.accepted[c']? with
  | none =>
      left
      rw [onConn, hk']
      exact hk
  | some k' =>
      cases hr : f k' with
      | none =>
          left
          rw [onConn_none hk' hr]
          exact hk
      | some r =>
          rw [onConn_some hk' hr]
          by_cases hc : c' = c
          · subst hc
            obtain rfl := Option.some.inj (hk.symm.trans hk')
            refine .inr ⟨rfl, r, k.log ++ (ev ++ r.2.flatMap (ConnEffect.calls r.1)), hr, ?_⟩
            exact List.getElem?_set_self (List.getElem?_eq_some_iff.mp hk).1
          · exact .inl ((List.getElem?_set_ne hc).trans hk)

theorem up_onConn_of_ne {c' : ℕ} {ev : List ConnEvent}
    {f : ServerConn → Option (TcpConnection × List ConnEffect)} {after : List ServerFrame}
    (hup : s.up c = true) (hc : c' ≠ c) : (s.onConn i c' ev f after).up c = true := by
  obtain ⟨k, hk, hup⟩ := up_eq_true_iff.mp hup
  refine up_eq_true_iff.mpr ⟨k, ?_, hup⟩
  exact (onConn_cases i c' ev f after hk).resolve_right fun h => hc h.1

/-- An operation that does not close leaves up what is up. -/
theorem up_onConn {c' : ℕ} {ev : List ConnEvent} {after : List ServerFrame}
    {f : ServerConn → Option (TcpConnection × List ConnEffect)} (op : LifeOp)
    (hup : s.up c = true) (hend : op.mayEnd = false)
    (hf : ∀ k r, f k = some r → op.run k.tcp = some r) :
    (s.onConn i c' ev f after).up c = true := by
  obtain ⟨k, hk, hup⟩ := up_eq_true_iff.mp hup
  rcases onConn_cases i c' ev f after hk with h | ⟨-, r, log, hr, h⟩
  · exact up_eq_true_iff.mpr ⟨k, h, hup⟩
  · refine up_eq_true_iff.mpr ⟨_, h, ?_⟩
    exact isUp_of_moves (moves_of_run (hf k r hr)) (op.update_ne hend) hup

/-- The thread is at a function that may be the end of connection `c`. -/
def Ends (s : TcpServer) (c : ℕ) : ServerAct → Prop
  | .advance i _ => ∃ t f stack, s.threads[i]? = some t ∧ t.stack = f :: stack ∧
      (f = .call (.stepIntoDestroyed c) ∨ ∃ h hs, f = .handlers c (h :: hs))
  | _ => False

theorem run_of_inLoop {f : TcpConnection → Option (TcpConnection × List ConnEffect)}
    {r : TcpConnection × List ConnEffect} (h : inLoop i f k = some r) : f k.tcp = some r := by
  obtain ⟨_, -, h⟩ := Option.bind_eq_some_iff.mp h
  exact h

theorem up_call {r : SysResult} {task : ServerTask} (hup : s.up c = true) :
    (s.call i r task).up c = true ∨ task = .stepIntoDestroyed c := by
  cases task with
  | stepIntoEstablished c' =>
      exact .inl (up_onConn .established hup rfl fun _ _ => run_of_inLoop)
  | stepIntoDestroyed c' =>
      by_cases hc : c' = c
      · exact .inr (congrArg _ hc)
      · exact .inl (up_onConn_of_ne hup hc)
  | removeConnectionInLoop c' =>
      left
      show (s.removeConnectionInLoop i c').up c = true
      rw [removeConnectionInLoop, check]
      cases h : (do
          assert (i = 0)
          let k ← s.accepted[c']?
          some ((s.erase k.name).push i [.runInLoop k.loop (.stepIntoDestroyed c')])) with
      | none => exact hup
      | some s' =>
          obtain ⟨_, -, h⟩ := Option.bind_eq_some_iff.mp h
          obtain ⟨k, -, h⟩ := Option.bind_eq_some_iff.mp h
          obtain rfl := Option.some.inj h
          exact hup
  | sendInLoop c' buf => exact .inl (up_onConn (.send buf r.write) hup rfl fun _ _ => run_of_inLoop)
  | shutdownInLoop c' => exact .inl (up_onConn .shutdownInLoop hup rfl fun _ _ => run_of_inLoop)
  | writeComplete c' => exact .inl (up_onConn .writeComplete hup rfl fun _ _ h => h)
  | highWater c' size => exact .inl (up_onConn (.highWater size) hup rfl fun _ _ h => h)

/-- A connection that is up stays up, unless a function is called that may be its end. -/
theorem up_step (hh : s.Home) (hst : Steps s a s') (hup : s.up c = true) :
    s'.up c = true ∨ s.Ends c a := by
  cases hst with
  | accept connfd ipPort ht hp =>
      obtain ⟨k', idx, e, -⟩ := handleNewConnection_spec hh.index connfd ipPort
      obtain ⟨k, hk, hup⟩ := up_eq_true_iff.mp hup
      rw [e]
      refine .inl (up_eq_true_iff.mpr ⟨k, ?_, hup⟩)
      exact (List.getElem?_append_left (List.getElem?_eq_some_iff.mp hk).1).trans hk
  | poll | dispatch | swap | task | send | refused | destroy => exact .inl hup
  | shutdown i c' ht hk => exact .inl (up_onConn .shutdown hup rfl fun _ _ h => h)
  | retrieve i c' n ht hk hn => exact .inl (up_onConn (.retrieve n) hup rfl fun _ _ h => h)
  | setHighWater i c' mark ht hk =>
      exact .inl (up_onConn (.setHighWater mark) hup rfl fun _ _ h => h)
  | @advance t i r f stack ht hstack hans =>
      have hpop : (s.pop i).up c = true := hup
      cases f with
      | call task =>
          refine (up_call hpop).imp_right fun he => ?_
          exact ⟨t, _, stack, ht, hstack, .inl (congrArg _ he)⟩
      | runInLoop l task =>
          left
          show TcpServer.up (if i = l then _ else _) c = true
          split
          · exact hpop
          · exact hpop
      | enqueue l task => exact .inl hpop
      | handlers c' hs =>
          cases hs with
          | nil => exact .inl hpop
          | cons h hs =>
              by_cases hc : c' = c
              · exact .inr ⟨t, _, stack, ht, hstack, .inr ⟨h, hs, hc ▸ rfl⟩⟩
              · left
                cases h with
                | close | error | read | write => exact up_onConn_of_ne hpop hc
      | remove c' => exact .inl (up_onConn .remove hpop rfl fun _ _ h => h)
      | callback => exact .inl hpop
      | destructor rest =>
          left
          cases rest with
          | nil => exact hpop
          | cons c' rest =>
              cases hk : (s.pop i).accepted[c']? with
              | none =>
                  rw [perform, hk]
                  exact hpop
              | some k =>
                  rw [destructor_eq hk]
                  exact hpop

/-! ## Every channel that was reported is up until it is handled -/

/-- What is left of the channels that were reported is up, and is not being handled. -/
structure Reports (s : TcpServer) : Prop where
  apart : ∀ (i : ℕ) (t : ServerThread), s.threads[i]? = some t → t.Apart
  up : ∀ (i : ℕ) (t : ServerThread), s.threads[i]? = some t → ∀ p ∈ t.active, s.up p.1 = true

theorem reports_init (name : List Char) (wc : Bool) (poolSize users : ℕ) :
    (init name wc poolSize users).Reports := by
  refine ⟨fun i t ht => ?_, fun i t ht => ?_⟩
  · obtain rfl := List.eq_of_mem_replicate (List.mem_of_getElem? ht)
    exact ⟨.nil, nofun⟩
  · obtain rfl := List.eq_of_mem_replicate (List.mem_of_getElem? ht)
    exact nofun

/-- Only Poll reports channels, and only a dispatch turns to one. -/
theorem keeps_of_steps (hh : s.Home) (hst : Steps s a s') (hp : ∀ l active, a ≠ .poll l active)
    (hd : ∀ l, a ≠ .dispatch l) : s.Keeps s' := by
  cases hst with
  | accept connfd ipPort ht ha =>
      obtain ⟨k, idx, e, -⟩ := handleNewConnection_spec hh.index connfd ipPort
      rw [e]
      exact .of_threads rfl (.push { s with nextConnID := _, nextLoopIdx := _, accepted := _,
                                            conns := _ } 0 rfl)
  | poll l active => exact absurd rfl (hp l active)
  | dispatch l => exact absurd rfl (hd l)
  | swap l => exact .onThread s l fun t _ => ⟨rfl, fun _ hx => hx⟩
  | task l task batch ht hstack hbatch => exact .onThread s l fun t _ => ⟨rfl, nofun⟩
  | advance i r f stack ht hstack hans => exact .perform r ht hstack
  | send i c buf ht hk hs =>
      refine .push s i ?_
      split <;> rfl
  | refused => exact .refl s
  | shutdown i c | retrieve i c | setHighWater i c => exact .onConn s i c _ _ rfl
  | destroy order =>
      exact .of_threads rfl (.push { s with phase := _ } 0 rfl)

/-- A connection comes to its end in its own handlers or when it has come to it already, so
that no channel is affected that is still to be handled. -/
theorem Reports.not_ends (h : s.Reports) (hh : s.Home) (hs : s.Serves)
    (ht : s.threads[i]? = some t) {p : ℕ × BitVec 32} (hp : p ∈ t.active) : ¬ s.Ends p.1 a := by
  intro hend
  have hup := h.up i t ht p hp
  cases a with
  | advance j r =>
      obtain ⟨u, f, stack, hu, hstack, hf⟩ := hend
      have hat := (hh.at_ j u hu).stack f (hstack ▸ List.mem_cons_self)
      rcases hf with rfl | ⟨hd, hs', rfl⟩
      · -- `StepIntoDestroyed` is due only to a connection that has been closed
        obtain ⟨k, hk, hisup⟩ := up_eq_true_iff.mp hup
        have hpop := due_pop hu hstack p.1 .destroyed
        have hlives := hs.lives p.1 k hk
        have hclosing := hlives.closing
        have hone : (ServerFrame.call (.stepIntoDestroyed p.1)).dues.count (p.1, .destroyed) = 1 :=
          List.count_singleton_self
        have hdis := hlives.disconnected (by omega)
        exact (isUp_iff.mp hisup).2 hdis
      · have hl := (hh.at_ i t ht).active p hp
        obtain rfl := Option.some.inj (hl.symm.trans hat)
        obtain rfl := Option.some.inj (ht.symm.trans hu)
        refine (h.apart i t ht).apart p hp
          (List.mem_flatMap.mpr ⟨.handlers p.1 (hd :: hs'), ?_, ?_⟩)
        · exact hstack ▸ List.mem_cons_self
        · exact List.mem_singleton_self p.1
  | _ => exact hend

/-- The threads after a change to thread `l`. -/
theorem onThread_cases {l : ℕ} {f : ServerThread → ServerThread} {t' : ServerThread}
    (ht : s.threads[l]? = some t) (ht' : (s.onThread l f).threads[i]? = some t') :
    i = l ∧ t' = f t ∨ s.threads[i]? = some t' := by
  rw [onThread, List.getElem?_modify] at ht'
  obtain ⟨v, hv, he⟩ := Option.map_eq_some_iff.mp ht'
  split at he
  · next hl =>
      subst hl
      obtain rfl := Option.some.inj (ht.symm.trans hv)
      exact .inl ⟨rfl, he.symm⟩
  · exact .inr (he ▸ hv)

theorem Reports.polled (h : s.Reports) (hs : s.Serves) {l : ℕ} {active : List (ℕ × BitVec 32)}
    (ht : s.threads[l]? = some t) (hstack : t.stack = [])
    (hnodup : (active.map Prod.fst).Nodup) (hrep : ∀ p ∈ active, s.Reported l p) :
    (s.onThread l fun t => { t with eventHandling := true, active }).Reports := by
  refine ⟨fun i t' ht' => ?_, fun i t' ht' p hp => ?_⟩
  · rcases onThread_cases ht ht' with ⟨rfl, rfl⟩ | ht'
    · refine ⟨hnodup, fun p _ hx => ?_⟩
      rw [ServerThread.handled, hstack] at hx
      exact nomatch hx
    · exact h.apart i t' ht'
  · rcases onThread_cases ht ht' with ⟨rfl, rfl⟩ | ht'
    · -- a channel that is interested in something is that of a connection that is up
      obtain ⟨-, k, hk, -, hon⟩ := hrep p hp
      have hoff := (hs.lives p.1 k hk).sound.off
      refine up_eq_true_iff.mpr ⟨k, hk, isUp_iff.mpr ⟨fun hc => ?_, fun hc => ?_⟩⟩
      · exact Bool.false_ne_true (hon.symm.trans (hoff (.inl hc)))
      · exact Bool.false_ne_true (hon.symm.trans (hoff (.inr hc)))
    · exact h.up i t' ht' p hp

theorem Reports.dispatched (h : s.Reports) {l : ℕ} {revents : BitVec 32}
    {active : List (ℕ × BitVec 32)} (ht : s.threads[l]? = some t)
    (hactive : t.active = (c, revents) :: active) :
    (s.onThread l fun t =>
      { t with active, stack := [.handlers c (Channel.handlers revents)] }).Reports := by
  refine ⟨fun i t' ht' => ?_, fun i t' ht' p hp => ?_⟩
  · rcases onThread_cases ht ht' with ⟨rfl, rfl⟩ | ht'
    · have hnodup := (h.apart i t ht).nodup
      rw [hactive] at hnodup
      obtain ⟨hnot, hnodup⟩ := List.nodup_cons.mp hnodup
      refine ⟨hnodup, fun p hp hx => hnot ?_⟩
      obtain rfl : p.1 = c := List.mem_singleton.mp hx
      exact List.mem_map.mpr ⟨p, hp, rfl⟩
    · exact h.apart i t' ht'
  · rcases onThread_cases ht ht' with ⟨rfl, rfl⟩ | ht'
    · exact h.up i t ht p (hactive ▸ List.mem_cons_of_mem _ hp)
    · exact h.up i t' ht' p hp

theorem Reports.step (h : s.Reports) (hh : s.Home) (hs : s.Serves) (hst : Steps s a s') :
    s'.Reports := by
  have hkeep : s.Keeps s' → s'.Reports := by
    intro hk
    refine ⟨fun i t' ht' => ?_, fun i t' ht' p hp => ?_⟩
    · obtain ⟨t, ht, hkeeps⟩ := hk i t' ht'
      exact (h.apart i t ht).keeps hkeeps
    · obtain ⟨t, ht, hkeeps⟩ := hk i t' ht'
      have hp := hkeeps.active ▸ hp
      exact (up_step hh hst (h.up i t ht p hp)).resolve_right (h.not_ends hh hs ht hp)
  cases a with
  | poll l active =>
      cases hst with
      | poll _ _ ht hstack _ _ hnodup hrep => exact h.polled hs ht hstack hnodup hrep
  | dispatch l =>
      cases hst with
      | dispatch _ _ _ _ ht _ _ hactive => exact h.dispatched ht hactive
  | accept | swap | task | advance | send | shutdown | retrieve | setHighWater | destroy =>
      exact hkeep (keeps_of_steps hh hst nofun nofun)

theorem reports_of_run {name : List Char} {wc : Bool} {poolSize users : ℕ}
    {tr : List (TcpServer × ServerAct)}
    (hr : Run (stepOf step) (init name wc poolSize users) tr s) (hok : ∀ p ∈ tr, Within p.1 p.2) :
    s.Home ∧ s.Serves ∧ s.Listed ∧ s.Reports := by
  refine hr.invariant_of (I := fun s => s.Home ∧ s.Serves ∧ s.Listed ∧ s.Reports) hok
    ⟨home_init name wc poolSize users, serves_init name wc poolSize users,
      listed_init name wc poolSize users, reports_init name wc poolSize users⟩ ?_
  rintro t a u ⟨hh, hs, hl, hrep⟩ hg hst
  have hst := steps_of_step hst
  have e := Effect.of_steps hh hst
  have hno : ∀ order, a ≠ .destroy order := fun order he => (he ▸ hg : t.Within (.destroy order))
  exact ⟨hh.step hst, hs.effect hh e hno, hl.effect hs hh e hg, hrep.step hh hs hst⟩

/-- A connection that is up stands in the table. -/
theorem Serves.listed_of_ne (hs : s.Serves) (hl : s.Listed) (hk : s.accepted[c]? = some k)
    (hdis : k.tcp.state ≠ .disconnected) : (k.name, c) ∈ s.conns := by
  have hlives := hs.lives c k hk
  have hclosed := hlives.closed
  have hclosing := hlives.closing
  rw [if_neg hdis] at hclosed
  exact hl.listed c k hk (by omega) (by omega)

/-- A channel that was reported is that of a connection that is up and in the table. -/
theorem Reports.listed (h : s.Reports) (hh : s.Home) (hs : s.Serves) (hl : s.Listed)
    (ht : s.threads[i]? = some t) {p : ℕ × BitVec 32} (hp : p ∈ t.active) :
    ∃ k, s.accepted[p.1]? = some k ∧ k.loop = i ∧ k.tcp.IsUp ∧ (k.name, p.1) ∈ s.conns := by
  obtain ⟨k, hk, hup⟩ := up_eq_true_iff.mp (h.up i t ht p hp)
  have hloop := Option.some.inj ((Home.loops_conn hk).symm.trans ((hh.at_ i t ht).active p hp))
  exact ⟨k, hk, hloop, hup, hs.listed_of_ne hl hk (isUp_iff.mp hup).2⟩

/-- What `HandleActiveChannels` still has before it are channels of its own loop, whose
connections are up and owned by the server: no channel that is gone is asked to handle events,
whatever the callbacks and the other loops have done since Poll. -/
theorem reported_up {name : List Char} {wc : Bool} {poolSize users : ℕ}
    {tr : List (TcpServer × ServerAct)}
    (hr : Run (stepOf step) (init name wc poolSize users) tr s) (hok : ∀ p ∈ tr, Within p.1 p.2) :
    ∀ (i : ℕ) (t : ServerThread), s.threads[i]? = some t → ∀ p ∈ t.active,
      ∃ k, s.accepted[p.1]? = some k ∧ k.loop = i ∧ k.tcp.IsUp ∧ (k.name, p.1) ∈ s.conns := by
  obtain ⟨hh, hs, hl, hrep⟩ := reports_of_run hr hok
  exact fun i t ht p hp => hrep.listed hh hs hl ht hp

/-- Up to the report of POLLHUP. -/
theorem hangUp_reported : ∃ tr s t k,
    runAll step (init ['s'] true 1 1) (hangUp.take 11) = some (tr, s) ∧
      s.threads[1]? = some t ∧ t.active = [(0, POLLHUP)] ∧ s.accepted[0]? = some k ∧
        k.tcp.IsUp := by
  obtain ⟨tr, s, hrun, hok, hactive⟩ : ∃ tr s,
      runAll step (init ['s'] true 1 1) (hangUp.take 11) = some (tr, s) ∧
        (∀ p ∈ tr, Within p.1 p.2) ∧
          (s.threads[1]?).map ServerThread.active = some [(0, POLLHUP)] :=
    exists_computed (by decide +kernel)
  obtain ⟨t, ht, hactive⟩ := Option.map_eq_some_iff.mp hactive
  obtain ⟨k, hk, -, hup, -⟩ := reported_up (run_of_runAll hrun) hok 1 t ht (0, POLLHUP)
    (hactive ▸ List.mem_singleton_self _)
  exact ⟨tr, s, t, k, hrun, ht, hactive, hk, hup⟩

/-! ## The last owner goes -/

/-- What the thread has before it for a connection keeps the connection alive. -/
theorem owns_of_dues {x : Due} (hx : x ≠ .event) (h : (c, x) ∈ t.dues) : t.Owns c := by
  have htask : ∀ {task : ServerTask}, task.due = (c, x) → task.due.1 = c := fun he => by rw [he]
  rcases List.mem_append.mp h with h | h
  · rcases List.mem_append.mp h with h | h
    · rcases List.mem_append.mp h with h | h
      · obtain ⟨f, hf, h⟩ := List.mem_flatMap.mp h
        refine .inl ⟨f, hf, ?_⟩
        cases f with
        | call task | runInLoop l task | enqueue l task =>
            exact htask (List.mem_singleton.mp h).symm
        | handlers c' hs => exact absurd (Prod.mk.inj (List.eq_of_mem_replicate h)).2 hx
        | remove c' => exact (Prod.mk.inj (List.mem_singleton.mp h)).1.symm
        | callback => exact nomatch h
        | destructor rest =>
            obtain ⟨c', hc', he⟩ := List.mem_map.mp h
            exact (Prod.mk.inj he).1 ▸ hc'
      · obtain ⟨p, -, h⟩ := List.mem_flatMap.mp h
        exact absurd (Prod.mk.inj (List.eq_of_mem_replicate h)).2 hx
    · obtain ⟨task, hmem, he⟩ := List.mem_map.mp h
      exact .inr ⟨task, List.mem_append_left _ hmem, htask he⟩
  · obtain ⟨task, hmem, he⟩ := List.mem_map.mp h
    exact .inr ⟨task, List.mem_append_right _ hmem, htask he⟩

/-- A connection that is owned by no callback has none before it. -/
theorem not_due_of_not_owned (h : ¬ s.Owned c) {x : Due} (hx : x ≠ .event) :
    dueTo s.threads c x = 0 := by
  by_contra hne
  obtain ⟨i, t, ht, hmem⟩ := Shares.exists_of_count_pos (Nat.pos_of_ne_zero hne)
  exact h (.inr ⟨t, List.mem_of_getElem? ht, owns_of_dues hx hmem⟩)

/-- When the last owner of a connection goes, the connection is through: its destructor finds
it disconnected and off its poller, and no loop has its channel before it. -/
theorem released_through {name : List Char} {wc : Bool} {poolSize users : ℕ}
    {tr : List (TcpServer × ServerAct)}
    (hr : Run (stepOf step) (init name wc poolSize users) tr s) (hok : ∀ p ∈ tr, Within p.1 p.2)
    (hk : s.accepted[c]? = some k) (hfree : ¬ s.Owned c) :
    k.Through ∧ ∀ t ∈ s.threads, ∀ p ∈ t.active, p.1 ≠ c := by
  obtain ⟨hh, hs, hl, hrep⟩ := reports_of_run hr hok
  have hdown : 0 < k.log.count .down := by
    by_contra hno
    have hmem := hl.listed c k hk (not_due_of_not_owned hfree (by decide))
      (Nat.eq_zero_of_not_pos hno)
    exact hfree (.inl (List.mem_map.mpr ⟨_, hmem, rfl⟩))
  refine ⟨(hs.lives c k hk).through (not_due_of_not_owned hfree (by decide)) hdown, ?_⟩
  rintro t ht p hp rfl
  obtain ⟨i, hi⟩ := List.mem_iff_getElem?.mp ht
  obtain ⟨k', -, -, -, hmem⟩ := hrep.listed hh hs hl hi hp
  exact hfree (.inl (List.mem_map.mpr ⟨_, hmem, rfl⟩))

theorem hangUp_released : ∃ tr s k, runAll step (init ['s'] true 1 1) hangUp = some (tr, s) ∧
    s.accepted[0]? = some k ∧ k.Through := by
  obtain ⟨tr, s, hrun, hok, hlen, hfree⟩ : ∃ tr s,
      runAll step (init ['s'] true 1 1) hangUp = some (tr, s) ∧ (∀ p ∈ tr, Within p.1 p.2) ∧
        s.accepted.length = 1 ∧ ¬ s.Owned 0 :=
    exists_computed (by decide +kernel)
  obtain ⟨k, hk⟩ : ∃ k, s.accepted[0]? = some k := ⟨_, List.getElem?_eq_getElem (by omega)⟩
  exact ⟨tr, s, k, hrun, hk, (released_through (run_of_runAll hrun) hok hk hfree).1⟩

/-! ## At rest -/

/-- No thread has anything before it. -/
def AtRest (s : TcpServer) : Prop :=
  ∀ t ∈ s.threads, t.stack = [] ∧ t.active = [] ∧ t.batch = [] ∧ t.queue = []

instance (s : TcpServer) : Decidable s.AtRest := inferInstanceAs (Decidable (∀ _ ∈ _, _))

theorem AtRest.not_due (h : s.AtRest) (c : ℕ) (x : Due) : dueTo s.threads c x = 0 := by
  by_contra hne
  obtain ⟨i, t, ht, hmem⟩ := Shares.exists_of_count_pos (Nat.pos_of_ne_zero hne)
  obtain ⟨hstack, hactive, hbatch, hqueue⟩ := h t (List.mem_of_getElem? ht)
  rw [ServerThread.dues, hstack, hactive, hbatch, hqueue] at hmem
  exact List.not_mem_nil hmem

/-- When nothing is left to do in any thread, `conns_` is exactly the connections that are up;
all others are through.  No connection is stuck on the way and none is leaked. -/
theorem conns_at_rest {name : List Char} {wc : Bool} {poolSize users : ℕ}
    {tr : List (TcpServer × ServerAct)}
    (hr : Run (stepOf step) (init name wc poolSize users) tr s) (hok : ∀ p ∈ tr, Within p.1 p.2)
    (hrest : s.AtRest) (hk : s.accepted[c]? = some k) :
    (c ∈ s.conns.map Prod.snd ↔ k.tcp.IsUp) ∧ (¬ k.tcp.IsUp → k.Through) := by
  obtain ⟨-, hs, hl, -⟩ := reports_of_run hr hok
  have hlives := hs.lives c k hk
  have hbegun : k.tcp.state ≠ .connecting := by
    intro hc
    have hone := (hlives.fresh hc).2 .established
    rw [hrest.not_due] at hone
    exact nomatch hone
  have hdown : k.tcp.state = .disconnected → 0 < k.log.count .down := by
    intro hdis
    have hclosed := hlives.closed
    have hclosing := hlives.closing
    rw [if_pos hdis] at hclosed
    rw [hrest.not_due, hrest.not_due] at hclosing
    omega
  refine ⟨⟨fun hmem => isUp_iff.mpr ⟨hbegun, fun hdis => ?_⟩, fun hup => ?_⟩, fun hup => ?_⟩
  · obtain ⟨p, hp, rfl⟩ := List.mem_map.mp hmem
    obtain ⟨u, hu, -, -, hzero⟩ := hs.entry p hp
    obtain rfl := Option.some.inj (hk.symm.trans hu)
    exact (hdown hdis).ne' hzero
  · exact List.mem_map.mpr ⟨_, hs.listed_of_ne hl hk (isUp_iff.mp hup).2, rfl⟩
  · refine hlives.through (hrest.not_due c .remove) (hdown ?_)
    by_contra hdis
    exact hup (isUp_iff.mpr ⟨hbegun, hdis⟩)

/-- A second connection of loop 1 is accepted after `hangUp`, and stays. -/
def hangUpAndStay : List ServerAct :=
  hangUp ++ [.poll 0 [], .accept 8 ['h'], .advance 0 nothing, .swap 0, .poll 1 [], .swap 1,
    .task 1, .advance 1 nothing, .advance 1 nothing]

theorem hangUpAndStay_conns : ∃ tr s k k',
    runAll step (init ['s'] true 1 1) hangUpAndStay = some (tr, s) ∧
      s.accepted[0]? = some k ∧ k.Through ∧ s.accepted[1]? = some k' ∧ k'.tcp.IsUp ∧
        s.conns.map Prod.snd = [1] := by
  obtain ⟨tr, s, hrun, hok, hrest, hlen, hconns⟩ : ∃ tr s,
      runAll step (init ['s'] true 1 1) hangUpAndStay = some (tr, s) ∧
        (∀ p ∈ tr, Within p.1 p.2) ∧ s.AtRest ∧ s.accepted.length = 2 ∧
          s.conns.map Prod.snd = [1] :=
    exists_computed (by decide +kernel)
  obtain ⟨k, hk⟩ : ∃ k, s.accepted[0]? = some k := ⟨_, List.getElem?_eq_getElem (by omega)⟩
  obtain ⟨k', hk'⟩ : ∃ k, s.accepted[1]? = some k := ⟨_, List.getElem?_eq_getElem (by omega)⟩
  have hfirst := conns_at_rest (run_of_runAll hrun) hok hrest hk
  have hsecond := conns_at_rest (run_of_runAll hrun) hok hrest hk'
  rw [hconns] at hfirst hsecond
  refine ⟨tr, s, k, k', hrun, hk, hfirst.2 fun hup => ?_, hk', hsecond.1.mp (by decide), hconns⟩
  exact absurd (hfirst.1.mpr hup) (by decide)

end TcpServer

end Muduo
