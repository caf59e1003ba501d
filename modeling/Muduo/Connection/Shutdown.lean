/-
# `Muduo.Connection.Shutdown` — ShutdownWrite after the last byte

`ShutdownWrite` is called from `ShutdownInLoop`, which `Shutdown` queues or, on the
loop thread, calls at once, and which `HandleWrite` calls when it has emptied the
output buffer of a connection that is disconnecting.  That the output buffer is
empty does not say that nothing is to come: a `Send` of another thread may be
queued, or have found the connection connected and not be queued yet.

    ShutdownInLoop is called     a Send on its way
    from the queue               found connected, and was queued behind Shutdown
    on the loop thread           is queued
    from HandleWrite             is queued

In a run in which none is on its way when `ShutdownWrite` is called, it comes after
the last byte, and no `write(2)` comes after it (`graceful_of_run`).
-/
import Muduo.Connection.Calls

namespace Muduo

open Runs

namespace TcpConnection

variable {c c' : TcpConnection} {taken pending payloads buf : List Byte} {w : WriteResult}
  {effs : List ConnEffect}

/-- `SendInLoop` leaves the state alone and does not shut down. -/
theorem sendInLoop_shape (h : c.sendInLoop buf w = some (c', effs)) :
    c'.state = c.state ∧ ∀ e ∈ effs, e ≠ .shutdownWrite := by
  have hhigh : ∀ size, ConnEffect.queueHighWater size ≠ .shutdownWrite := fun size h => nomatch h
  have hd : ∀ e ∈ (c.writeDirectly buf w).effects, e ≠ .shutdownWrite := by
    unfold writeDirectly
    split
    · cases w with
      | wrote n =>
          rintro e he rfl
          rcases List.mem_cons.mp he with he | he
          · exact nomatch he
          · split at he
            · exact nomatch List.mem_singleton.mp he
            · exact absurd he List.not_mem_nil
      | failed errno =>
          rintro e he rfl
          exact nomatch List.mem_singleton.mp he
    · exact fun e he => absurd he List.not_mem_nil
  unfold sendInLoop at h
  split at h
  · obtain ⟨rfl, rfl⟩ := Prod.mk.inj (Option.some.inj h)
    exact ⟨rfl, fun e he => absurd he List.not_mem_nil⟩
  · obtain ⟨_, -, h⟩ := Option.bind_eq_some_iff.mp h
    split at h
    · obtain ⟨out, -, h⟩ := Option.bind_eq_some_iff.mp h
      obtain ⟨rfl, rfl⟩ := Prod.mk.inj (Option.some.inj h)
      refine ⟨rfl, fun e he => ?_⟩
      rcases List.mem_append.mp he with he | he
      · exact hd e he
      · split at he
        · exact List.mem_singleton.mp he ▸ hhigh _
        · exact absurd he List.not_mem_nil
    · obtain ⟨rfl, rfl⟩ := Prod.mk.inj (Option.some.inj h)
      exact ⟨rfl, hd⟩

/-- Whatever a direct write comes back with: what it drops counts as handed over. -/
theorem sendInLoop_carries (k : Carries c taken pending payloads) (hs : c.state ≠ .disconnected)
    (hn : w.AtMost buf.length) (h : c.sendInLoop buf w = some (c', effs)) :
    ∃ pending', Carries c' (taken ++ ConnLoop.dropped c buf w ++ effs.flatMap ConnEffect.taken)
      pending' (payloads ++ buf) := by
  by_cases hf : (c.writeDirectly buf w).faultError = true
  · -- the peer has closed the connection; nothing was pending
    have hdrop : ConnLoop.dropped c buf w = buf := if_pos ⟨hs, hf⟩
    obtain ⟨hnil, heq⟩ : pending = [] ∧
        c.writeDirectly buf w = ⟨0, buf.length, true, [.write []]⟩ := by
      unfold writeDirectly at hf ⊢
      split at hf
      · next hd =>
          rw [if_pos hd]
          refine ⟨List.length_eq_zero_iff.mp (k.output.length.trans hd.2), ?_⟩
          cases w with
          | wrote n => exact nomatch hf
          | failed errno => exact congrArg (fun b => DirectWrite.mk 0 buf.length b [.write []]) hf
      · exact nomatch hf
    simp only [sendInLoop, if_neg hs, heq, assert_of (Nat.le_refl buf.length),
      Option.bind_eq_bind, Option.bind_some, Bool.not_true, Bool.false_eq_true, false_and,
      if_false] at h
    obtain ⟨rfl, rfl⟩ := Prod.mk.inj (Option.some.inj h)
    subst hnil
    refine ⟨[], k.input, k.output, fun _ => ?_, k.writing⟩
    have hstream := k.stream hs
    rw [List.append_nil] at hstream
    rw [hdrop, hstream]
    simp [ConnEffect.taken]
  · have hdrop : ConnLoop.dropped c buf w = [] := if_neg fun h => hf h.2
    rw [hdrop, List.append_nil]
    obtain ⟨w', hn', hp', heq⟩ : ∃ w' : WriteResult, w'.AtMost buf.length ∧ w'.PeerOpen ∧
        c.sendInLoop buf w = c.sendInLoop buf w' := by
      by_cases hd : !c.chan.isWriting ∧ c.outputBuffer.readableBytes = 0
      · refine ⟨w, hn, ?_, rfl⟩
        cases w with
        | wrote n => exact trivial
        | failed errno =>
            rw [writeDirectly, if_pos hd] at hf
            exact not_or.mp fun hor => hf (decide_eq_true hor)
      · refine ⟨.wrote 0, Nat.zero_le _, trivial, ?_⟩
        simp only [sendInLoop, writeDirectly, if_neg hd]
    obtain ⟨c₁, effs₁, pending', e, k'⟩ := sendInLoop_spec k hn' hp'
    obtain ⟨rfl, rfl⟩ := Prod.mk.inj (Option.some.inj (e.symm.trans (heq ▸ h)))
    exact ⟨pending', k'⟩

/-- `HandleWrite` writes the last of the output buffer of a connection that is
disconnecting. -/
def Empties (c : TcpConnection) (w : WriteResult) : Prop :=
  c.chan.isWriting = true ∧ c.state = .disconnecting ∧ w = .wrote c.outputBuffer.readableBytes

instance (c : TcpConnection) (w : WriteResult) : Decidable (c.Empties w) :=
  inferInstanceAs (Decidable (_ ∧ _))

/-- `HandleWrite` shuts down, after its write, exactly when it empties the buffer of a
connection that is disconnecting. -/
theorem handleWrite_shape (k : Carries c taken pending payloads)
    (hn : w.AtMost c.outputBuffer.readableBytes) (h : c.handleWrite w = some (c', effs)) :
    c'.state = c.state ∧ ((∀ e ∈ effs, e ≠ .shutdownWrite) ∨
      c.Empties w ∧ c'.chan.isWriting = false ∧
        ∃ pre, effs = pre ++ [.shutdownWrite] ∧ ∀ e ∈ pre, e ≠ .shutdownWrite) := by
  have hdone : ∀ e ∈ (if c.writeCompleteCb then [ConnEffect.queueWriteComplete] else []),
      e ≠ .shutdownWrite := by
    intro e he
    split at he
    · exact List.mem_singleton.mp he ▸ nofun
    · exact absurd he List.not_mem_nil
  unfold handleWrite at h
  split at h
  · next hw =>
      cases w with
      | failed errno =>
          obtain ⟨rfl, rfl⟩ := Prod.mk.inj (Option.some.inj h)
          exact ⟨rfl, .inl fun e he => List.mem_singleton.mp he ▸ nofun⟩
      | wrote n =>
          have hlen : n ≤ pending.length := hn.trans_eq k.output.length.symm
          obtain ⟨out, e, hout⟩ := Buffer.retrieve_spec k.output hlen
          simp only [Buffer.bytesAt_spec k.output hlen, e, Option.bind_eq_bind,
            Option.bind_some] at h
          split at h
          · next hempty =>
              have hall : n = c.outputBuffer.readableBytes := by
                have hl := hout.length
                rw [List.length_drop, hempty] at hl
                have hge := Nat.sub_eq_zero_iff_le.mp hl
                exact Nat.le_antisymm hn (k.output.length.symm.le.trans hge)
              split at h
              · next hs =>
                  obtain ⟨rfl, rfl⟩ := Prod.mk.inj (Option.some.inj h)
                  refine ⟨(shutdownInLoop_spec _).1 ▸ rfl, .inr ⟨⟨hw, hs, hall ▸ rfl⟩, ?_, ?_⟩⟩
                  · rw [(shutdownInLoop_spec _).1]
                    simp
                  · refine ⟨.write (pending.take n) ::
                      if c.writeCompleteCb then [ConnEffect.queueWriteComplete] else [],
                      ?_, fun e he => ?_⟩
                    · simp [shutdownInLoop]
                    · rcases List.mem_cons.mp he with rfl | he
                      · exact nofun
                      · exact hdone e he
              · obtain ⟨rfl, rfl⟩ := Prod.mk.inj (Option.some.inj h)
                refine ⟨rfl, .inl fun e he => ?_⟩
                rcases List.mem_cons.mp he with rfl | he
                · exact nofun
                · exact hdone e he
          · obtain ⟨rfl, rfl⟩ := Prod.mk.inj (Option.some.inj h)
            exact ⟨rfl, .inl fun e he => List.mem_singleton.mp he ▸ nofun⟩
  · obtain ⟨rfl, rfl⟩ := Prod.mk.inj (Option.some.inj h)
    exact ⟨rfl, .inl nofun⟩

end TcpConnection

namespace ConnLoop

variable {s s' : ConnLoop} {a : CallAct}

/-- When `ShutdownWrite` was called, the sends that had returned before `Shutdown` had
been made and all bytes of the sends that had been made were handed over; no
`write(2)` has been called since. -/
def Graceful (s : ConnLoop) : Prop :=
  (∀ r ∈ s.atShut, (∀ p ∈ s.before, p ∈ r.executed) ∧ r.handed = r.executed.flatMap Prod.snd) ∧
    s.late = false

/-- No `Send` that found the connection connected is on its way. -/
def Clear (s : ConnLoop) : Prop := s.sending = [] ∧ ∀ t ∈ s.queue, t = .shutdownInLoop

instance (s : ConnLoop) : Decidable s.Clear := inferInstanceAs (Decidable (_ ∧ _))

/-- Whenever `ShutdownWrite` is called no `Send` is on its way. -/
def InOrder (s : ConnLoop) : CallAct → Prop
  | .shutdownHere => s.conn.state = .connected → s.conn.chan.isWriting = false → s.Clear
  | .task _ =>
      s.queue.head? = some .shutdownInLoop → s.conn.chan.isWriting = false → s.Clear
  | .handleWrite w => s.conn.Empties w → s.Clear
  | _ => True

instance (s : ConnLoop) : (a : CallAct) → Decidable (s.InOrder a)
  | .shutdownHere | .task _ | .handleWrite _ => by unfold InOrder; infer_instance
  | .load _ | .push _ | .send _ _ | .shutdown | .pushShutdown => inferInstanceAs (Decidable True)

/-- What every state of such a run has. -/
structure Flushes (s : ConnLoop) : Prop where
  carries : ∃ pending, s.conn.Carries s.handed pending (s.executed.flatMap Prod.snd)
  up : s.conn.IsUp
  accounted : ∀ p ∈ s.returned, p ∈ s.executed ∨ .sendInLoop p.1 p.2 ∈ s.queue
  before : ∀ p ∈ s.before, p ∈ s.returned
  asked : s.shutting = true ∨ .shutdownInLoop ∈ s.queue → s.conn.state = .disconnecting
  shut : s.atShut ≠ none → s.conn.state = .disconnecting ∧ s.conn.chan.isWriting = false ∧ s.Clear
  graceful : s.Graceful

theorem flushes_init (sockfd : ℤ) (wc hw : Bool) (mark : ℕ) : (init sockfd wc hw mark).Flushes where
  carries := ⟨[], TcpConnection.carries_established sockfd wc hw mark⟩
  up := .inl rfl
  accounted := nofun
  before := nofun
  asked := fun h => h.elim nofun nofun
  shut := fun h => absurd rfl h
  graceful := ⟨nofun, rfl⟩

theorem Flushes.ne_disconnected (f : s.Flushes) : s.conn.state ≠ .disconnected := by
  rcases f.up with h | h
  · rw [h]
    exact nofun
  · rw [h]
    exact nofun

/-- While the connection is connected it has not been shut down. -/
theorem Flushes.not_shut (f : s.Flushes) (hs : s.conn.state = .connected) : s.atShut = none := by
  cases hr : s.atShut with
  | none => rfl
  | some r =>
      have hd := (f.shut (by rw [hr]; exact nofun)).1
      exact nomatch hs.symm.trans hd

/-- The effects of an operation that does not shut down, before the shutdown. -/
theorem foldl_effect {effs : List ConnEffect} (he : ∀ e ∈ effs, e ≠ .shutdownWrite)
    (hn : s.atShut = none) :
    effs.foldl effect s = { s with handed := s.handed ++ effs.flatMap ConnEffect.taken } := by
  induction effs generalizing s with
  | nil => simp
  | cons e effs ih =>
      have he' : ∀ e ∈ effs, e ≠ .shutdownWrite := fun e h => he e (List.mem_cons_of_mem _ h)
      rw [List.foldl_cons, List.flatMap_cons]
      cases e with
      | shutdownWrite => exact absurd rfl (he _ List.mem_cons_self)
      | write data =>
          have hs : s.effect (.write data) = { s with handed := s.handed ++ data } := by
            simp only [effect, hn, Option.isSome_none, Bool.or_false]
          rw [hs, ih (s := { s with handed := s.handed ++ data }) he' hn]
          simp only [ConnEffect.taken, List.append_assoc]
      | queueWriteComplete | queueHighWater | runShutdownInLoop | connectionCb | onMessageCb
      | onCloseCb | logError => exact ih he' hn

/-- A `SendInLoop` before the shutdown. -/
theorem Flushes.sendInLoop {k n : ℕ} {buf : List Byte} {w : WriteResult} {q : List ConnTask}
    {ret : List (ℕ × List Byte)} (f : s.Flushes) (hn : s.atShut = none)
    (hq : ∀ t ∈ q, t ∈ s.queue) (hret : ∀ p ∈ s.returned, p ∈ ret)
    (hacc : ∀ p ∈ ret, p ∈ s.executed ++ [(k, buf)] ∨ .sendInLoop p.1 p.2 ∈ q)
    (h : { s with queue := q, sends := n, returned := ret }.sendInLoop k buf w = some s') :
    s'.Flushes := by
  obtain ⟨hw, h⟩ := guard_bind_eq_some_iff.mp h
  obtain ⟨⟨c, effs⟩, hc, h⟩ := Option.bind_eq_some_iff.mp h
  obtain ⟨pending, hcar⟩ := f.carries
  obtain ⟨hstate, heffs⟩ := TcpConnection.sendInLoop_shape hc
  obtain ⟨pending', hcar'⟩ := TcpConnection.sendInLoop_carries hcar f.ne_disconnected hw hc
  obtain rfl := Option.some.inj h
  rw [foldl_effect heffs]
  · exact
      { carries := ⟨pending', by simpa using hcar'⟩
        up := by
          rw [TcpConnection.IsUp, hstate]
          exact f.up
        accounted := hacc
        before := fun p hp => hret p (f.before p hp)
        asked := fun ha => hstate.trans (f.asked (ha.imp id (hq _)))
        shut := fun hr => absurd hn hr
        graceful := ⟨fun r hr => absurd (hn.symm.trans hr) nofun, f.graceful.2⟩ }
  · exact hn

/-- With no `Send` on its way every one that has returned has been made. -/
theorem Flushes.all_made (f : s.Flushes) (hc : s.Clear) : ∀ p ∈ s.returned, p ∈ s.executed := by
  intro p hp
  rcases f.accounted p hp with h | h
  · exact h
  · exact nomatch hc.2 _ h

/-- `ShutdownWrite` with nothing on its way and nothing in the output buffer. -/
theorem Flushes.shutdownWrite (f : s.Flushes) (hs : s.conn.state = .disconnecting)
    (hw : s.conn.chan.isWriting = false) (hc : s.Clear) : (s.effect .shutdownWrite).Flushes := by
  obtain ⟨pending, hcar⟩ := f.carries
  have hne := f.ne_disconnected
  have hnil : pending = [] := by
    by_contra h
    exact nomatch hw.symm.trans ((hcar.writing hne).mpr h)
  refine ⟨f.carries, f.up, f.accounted, f.before, f.asked, fun _ => ⟨hs, hw, hc⟩, fun r hr => ?_,
    f.graceful.2⟩
  cases ha : s.atShut with
  | some r' =>
      have hr' : r = r' := by
        simp only [effect, ha] at hr
        exact (Option.some.inj hr).symm
      exact hr' ▸ f.graceful.1 r' ha
  | none =>
      have hr' : r = ⟨s.executed, s.handed⟩ := by
        simp only [effect, ha] at hr
        exact (Option.some.inj hr).symm
      rw [hr']
      refine ⟨fun p hp => f.all_made hc p (f.before p hp), ?_⟩
      have hstream := hcar.stream hne
      rw [hnil, List.append_nil] at hstream
      exact hstream

/-- `ShutdownInLoop` of a connection that is disconnecting. -/
theorem Flushes.shutdownInLoop (f : s.Flushes) (hs : s.conn.state = .disconnecting)
    (hc : s.conn.chan.isWriting = false → s.Clear) : s.shutdownInLoop.Flushes := by
  unfold ConnLoop.shutdownInLoop TcpConnection.shutdownInLoop
  cases hw : s.conn.chan.isWriting with
  | true => exact f
  | false => exact f.shutdownWrite hs hw (hc hw)

/-- `Shutdown` finds the connection connected. -/
theorem Flushes.shutdown (f : s.Flushes) (hs : s.conn.state = .connected) (b : Bool) :
    Flushes { s with conn := { s.conn with state := .disconnecting }, shutting := b,
                     before := s.returned } := by
  have hn := f.not_shut hs
  obtain ⟨pending, hcar⟩ := f.carries
  have hne := f.ne_disconnected
  exact
    { carries := ⟨pending, hcar.input, hcar.output, fun _ => hcar.stream hne,
        fun _ => hcar.writing hne⟩
      up := .inr rfl
      accounted := f.accounted
      before := fun p hp => hp
      asked := fun _ => rfl
      shut := fun hr => absurd hn hr
      graceful := ⟨fun r hr => absurd (hn.symm.trans hr) nofun, f.graceful.2⟩ }

/-- `HandleWrite`. -/
theorem Flushes.handleWrite {w : WriteResult} {c : TcpConnection} {effs : List ConnEffect}
    (f : s.Flushes) (hg : s.conn.Empties w → s.Clear)
    (hw : w.AtMost s.conn.outputBuffer.readableBytes)
    (h : s.conn.handleWrite w = some (c, effs)) :
    (effs.foldl effect { s with conn := c }).Flushes := by
  obtain ⟨pending, hcar⟩ := f.carries
  obtain ⟨c', effs', pending', e, hcar'⟩ := TcpConnection.handleWrite_spec hcar hw
  obtain ⟨rfl, rfl⟩ := Prod.mk.inj (Option.some.inj (e.symm.trans h))
  obtain ⟨hstate, hshape⟩ := TcpConnection.handleWrite_shape hcar hw h
  have hup : c'.IsUp := by
    rw [TcpConnection.IsUp, hstate]
    exact f.up
  rcases Option.eq_none_or_eq_some s.atShut with hn | ⟨r, hn⟩
  · have hmid : ∀ {effs : List ConnEffect} {pending' : List Byte},
        (∀ e ∈ effs, e ≠ .shutdownWrite) →
        c'.Carries (s.handed ++ effs.flatMap ConnEffect.taken) pending'
          (s.executed.flatMap Prod.snd) →
        Flushes { s with conn := c', handed := s.handed ++ effs.flatMap ConnEffect.taken } := by
      intro effs pending' he hcar'
      exact
        { carries := ⟨pending', hcar'⟩
          up := hup
          accounted := f.accounted
          before := f.before
          asked := fun ha => hstate.trans (f.asked ha)
          shut := fun hr => absurd hn hr
          graceful := by
            refine ⟨fun r hr => ?_, f.graceful.2⟩
            exact absurd (hr.symm.trans hn) (Option.some_ne_none r) }
    rcases hshape with he | ⟨hempty, hwr, pre, rfl, he⟩
    · rw [foldl_effect (s := { s with conn := c' }) he hn]
      exact hmid he hcar'
    · rw [List.flatMap_append] at hcar'
      have hpre := hmid he (by simpa [ConnEffect.taken] using hcar')
      rw [List.foldl_append, foldl_effect (s := { s with conn := c' }) he hn]
      exact hpre.shutdownWrite (hstate.trans hempty.2.1) hwr (hg hempty)
  · -- after the shutdown the channel is not writing
    have hwr := (f.shut (hn.trans_ne (Option.some_ne_none r))).2.1
    unfold TcpConnection.handleWrite at h
    rw [if_neg (by simp [hwr])] at h
    obtain ⟨rfl, rfl⟩ := Prod.mk.inj (Option.some.inj h)
    exact f

theorem Flushes.push {i k : ℕ} {buf : List Byte} (f : s.Flushes)
    (hi : s.sending[i]? = some (k, buf)) :
    Flushes { s with sending := s.sending.eraseIdx i, queue := s.queue ++ [.sendInLoop k buf],
                     returned := s.returned ++ [(k, buf)] } := by
  refine { f with accounted := ?_, before := ?_, asked := ?_, shut := ?_ }
  · intro p hp
    rcases List.mem_append.mp hp with hp | hp
    · exact (f.accounted p hp).imp id (List.mem_append_left _)
    · rw [List.mem_singleton.mp hp]
      exact .inr (List.mem_append_right _ (List.mem_singleton_self _))
  · exact fun p hp => List.mem_append_left _ (f.before p hp)
  · rintro (ha | ha)
    · exact f.asked (.inl ha)
    · rcases List.mem_append.mp ha with ha | ha
      · exact f.asked (.inr ha)
      · exact nomatch List.mem_singleton.mp ha
  · intro hr
    rw [(f.shut hr).2.2.1] at hi
    exact nomatch hi

theorem Flushes.pushShutdown (f : s.Flushes) (hs : s.shutting = true) :
    Flushes { s with shutting := false, queue := s.queue ++ [.shutdownInLoop] } := by
  refine { f with accounted := ?_, asked := ?_, shut := ?_ }
  · exact fun p hp => (f.accounted p hp).imp id (List.mem_append_left _)
  · exact fun _ => f.asked (.inl hs)
  · intro hr
    obtain ⟨hs, hw, hc, hq⟩ := f.shut hr
    refine ⟨hs, hw, hc, fun t ht => ?_⟩
    rcases List.mem_append.mp ht with ht | ht
    · exact hq t ht
    · exact List.mem_singleton.mp ht

/-- The callback that `Shutdown` has queued is taken. -/
theorem Flushes.takeShutdown {queue : List ConnTask} (f : s.Flushes)
    (hq : s.queue = .shutdownInLoop :: queue) : Flushes { s with queue } := by
  have hsub : ∀ t ∈ queue, t ∈ s.queue := fun t ht => hq ▸ List.mem_cons_of_mem _ ht
  refine { f with accounted := ?_, asked := ?_, shut := ?_ }
  · intro p hp
    rcases f.accounted p hp with he | he
    · exact .inl he
    · rw [hq] at he
      exact .inr ((List.mem_cons.mp he).resolve_left nofun)
  · exact fun ha => f.asked (ha.imp id (hsub _))
  · intro hr
    obtain ⟨hs, hw, hc, hall⟩ := f.shut hr
    exact ⟨hs, hw, hc, fun t ht => hall t (hsub t ht)⟩

theorem Flushes.step (f : s.Flushes) (hg : s.InOrder a) (hst : Steps s a s') : s'.Flushes := by
  cases hst with
  | load buf hs =>
      have hn := f.not_shut hs
      exact
        { f with
          shut := fun hr => absurd hn hr
          graceful := by
            refine ⟨fun r hr => ?_, f.graceful.2⟩
            exact absurd (hr.symm.trans hn) (Option.some_ne_none r) }
  | push i k buf hi => exact f.push hi
  | send buf w hs h =>
      refine f.sendInLoop (f.not_shut hs) (fun t ht => ht)
        (fun p hp => List.mem_append_left _ hp) (fun p hp => ?_) h
      rcases List.mem_append.mp hp with hp | hp
      · exact (f.accounted p hp).imp (List.mem_append_left _) id
      · exact .inl (List.mem_append_right _ hp)
  | shutdown hs => exact f.shutdown hs true
  | pushShutdown hs => exact f.pushShutdown hs
  | shutdownHere hs => exact (f.shutdown hs s.shutting).shutdownInLoop rfl (hg hs)
  | refused => exact f
  | taskSend k buf queue w hq h =>
      have hsub : ∀ t ∈ queue, t ∈ s.queue := fun t ht => hq ▸ List.mem_cons_of_mem _ ht
      have hn : s.atShut = none := by
        by_contra hr
        exact nomatch (f.shut hr).2.2.2 (.sendInLoop k buf) (hq ▸ List.mem_cons_self)
      refine f.sendInLoop hn hsub (fun p hp => hp) (fun p hp => ?_) h
      rcases f.accounted p hp with he | he
      · exact .inl (List.mem_append_left _ he)
      · rw [hq] at he
        rcases List.mem_cons.mp he with he | he
        · left
          obtain ⟨rfl, rfl⟩ := ConnTask.sendInLoop.inj he
          exact List.mem_append_right _ (List.mem_singleton_self _)
        · exact .inr he
  | taskShutdown queue w hq =>
      have hs := f.asked (.inr (hq ▸ List.mem_cons_self))
      refine (f.takeShutdown hq).shutdownInLoop hs fun hw => ?_
      obtain ⟨hsend, hall⟩ := hg (by rw [hq]; rfl) hw
      exact ⟨hsend, fun t ht => hall t (hq ▸ List.mem_cons_of_mem _ ht)⟩
  | handleWrite w conn effs hw h => exact f.handleWrite hg hw h

/-- In a run in which no `Send` is on its way whenever `ShutdownWrite` is called, it is
called after every byte of every `Send` that returned before `Shutdown` was handed to
`write(2)`, and `write(2)` is not called after it. -/
theorem graceful_of_run {sockfd : ℤ} {wc hw : Bool} {mark : ℕ} {tr : List (ConnLoop × CallAct)}
    (hr : Run (stepOf step) (init sockfd wc hw mark) tr s) (hok : ∀ p ∈ tr, InOrder p.1 p.2) :
    s.Graceful := by
  have f : s.Flushes :=
    hr.invariant_of (I := Flushes) hok (flushes_init sockfd wc hw mark)
      fun f hg hst => f.step hg (steps_of_step hst)
  exact f.graceful

/-- Another thread sends three bytes, `write(2)` takes two, the third waits for
`HandleWrite`; then it shuts down. -/
def sendThenShutdown : List CallAct :=
  [.load [1, 2, 3], .push 0, .task (.wrote 2), .shutdown, .pushShutdown, .task (.wrote 0),
    .handleWrite (.wrote 1)]

theorem sendThenShutdown_graceful : ∃ tr s,
    runAll step (init 5 true true 4) sendThenShutdown = some (tr, s) ∧
      s.atShut = some ⟨[(0, [1, 2, 3])], [1, 2, 3]⟩ ∧ s.Graceful := by
  obtain ⟨tr, s, hrun, hok, hat⟩ : ∃ tr s,
      runAll step (init 5 true true 4) sendThenShutdown = some (tr, s) ∧
        (∀ p ∈ tr, InOrder p.1 p.2) ∧ s.atShut = some ⟨[(0, [1, 2, 3])], [1, 2, 3]⟩ :=
    exists_computed (by decide +kernel)
  exact ⟨tr, s, hrun, hat, graceful_of_run (run_of_runAll hrun) hok⟩

/-- The loop thread shuts down while the callback of another thread's `Send`, which
has returned, is still queued. -/
def shutdownOvertakes : List CallAct :=
  [.load [1, 2, 3], .push 0, .shutdownHere, .task (.wrote 3)]

theorem shutdownOvertakes_truncates : ∃ tr s,
    runAll step (init 5 true true 4) shutdownOvertakes = some (tr, s) ∧
      s.before = [(0, [1, 2, 3])] ∧ s.atShut = some ⟨[], []⟩ ∧ s.late = true ∧ ¬ s.Graceful := by
  obtain ⟨tr, s, hrun, hb, hat, hl⟩ : ∃ tr s,
      runAll step (init 5 true true 4) shutdownOvertakes = some (tr, s) ∧
        s.before = [(0, [1, 2, 3])] ∧ s.atShut = some ⟨[], []⟩ ∧ s.late = true :=
    exists_computed (by decide +kernel)
  exact ⟨tr, s, hrun, hb, hat, hl, fun hg => nomatch hl.symm.trans hg.2⟩

end ConnLoop

end Muduo
