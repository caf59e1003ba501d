/-
# `Muduo.Connector.Sockets` — what becomes of a descriptor

Every descriptor that `DoConnect` gets from `createNonblockingOrDie` should be
in one place: with the channel of the attempt in progress, delivered to the
callback, or closed.  `WellFormed` says what the channel, the state and the
queued resets have to do with each other in every run; with it each step moves
at most one descriptor from one place to the next (`places_step`).

`DoConnect` loses a descriptor when connect(2) comes back with one of the five
errors that are retried: it calls `Retry` and does not close.  This is the only
way (`sockets_conserved_iff`).
-/
import Mathlib.Data.Nat.Cast.Basic
import Muduo.Connector.Model

namespace Muduo

open Runs

/-- The descriptor for whose channel a reset is queued. -/
def ConnectorTask.reset? : ConnectorTask → Option ℤ
  | resetChan fd => some fd
  | startInLoop => none

def ConnectorFrame.isDelivering : ConnectorFrame → Bool
  | delivering _ => true
  | _ => false

namespace Connector

variable {s s' : Connector} {a : ConnectorAct}

/-- The channel of the attempt in progress waits for the connection. -/
def waiting (s : Connector) : Bool :=
  s.opState = .kConnecting ∧ s.frames.any ConnectorFrame.isDelivering = false

/-- The descriptor with the channel of the attempt in progress. -/
def held (s : Connector) : Option ℤ := if s.waiting then s.chan.map Channel.fd else none

/-- The queued resets. -/
def resets (s : Connector) : List ℤ := s.tasks.filterMap ConnectorTask.reset?

/-- What the loop thread can be in the middle of. -/
inductive Shape (o : OpState) : List ConnectorFrame → Prop
  | idle : Shape o []
  | starting : Shape o [.startInLoop]
  | retrying (ho : o = .kDisconnected) : Shape o [.retry]
  | handling (hs : List Handler) : Shape o [.handlers hs]
  | retryingIn (hs : List Handler) (ho : o = .kDisconnected) : Shape o [.retry, .handlers hs]
  | delivering (fd : ℤ) (hs : List Handler) (ho : o = .kConnecting) :
      Shape o [.delivering fd, .handlers hs]
  | startingIn (fd : ℤ) (hs : List Handler) (ho : o = .kConnecting) :
      Shape o [.startInLoop, .delivering fd, .handlers hs]

/-- While a channel waits no reset is queued; at other times there is one for
the channel that is left, if one is. -/
structure WellFormed (s : Connector) : Prop where
  shape : Shape s.opState s.frames
  waiting : s.waiting = true → s.chan ≠ none ∧ s.resets = []
  idle : s.waiting = false → s.resets = s.chan.toList.map Channel.fd

theorem wellFormed_init : init.WellFormed := ⟨.idle, nofun, fun _ => rfl⟩

/-- While a reset is queued no channel waits. -/
theorem WellFormed.not_waiting (w : s.WellFormed) {fd : ℤ} {fds : List ℤ}
    (h : s.resets = fd :: fds) : s.waiting = false := by
  cases hw : s.waiting with
  | false => rfl
  | true => exact absurd (h.symm.trans (w.waiting hw).2) nofun

/-! ## The frames below the innermost one -/

section Shape

variable {o : OpState} {fs : List ConnectorFrame} {hs : List Handler} {fd : ℤ}

theorem Shape.of_startInLoop (h : Shape o (.startInLoop :: fs)) (ho : o = .kDisconnected) :
    fs = [] := by
  cases h with
  | starting => rfl
  | startingIn _ _ h => exact nomatch h.symm.trans ho

theorem Shape.of_retry (h : Shape o (.retry :: fs)) :
    o = .kDisconnected ∧ (fs = [] ∨ ∃ hs, fs = [.handlers hs]) := by
  cases h with
  | retrying ho => exact ⟨ho, .inl rfl⟩
  | retryingIn hs ho => exact ⟨ho, .inr ⟨hs, rfl⟩⟩

theorem Shape.of_delivering (h : Shape o (.delivering fd :: fs)) :
    o = .kConnecting ∧ ∃ hs, fs = [.handlers hs] := by
  cases h with
  | delivering fd hs ho => exact ⟨ho, hs, rfl⟩

theorem Shape.of_handlers (h : Shape o (.handlers hs :: fs)) : fs = [] := by
  cases h with
  | handling => rfl

end Shape

/-! ## What a step does to the sockets -/

/-- When `DoConnect` is called, connect(2) does not come back with one of the
errors that are retried. -/
def NotRetried (s : Connector) : ConnectorAct → Prop
  | .loop r _ => s.frames.head? = some .startInLoop → s.connect = true → r.retried = false
  | _ => True

instance (s : Connector) : (a : ConnectorAct) → Decidable (s.NotRetried a)
  | .loop _ _ => inferInstanceAs (Decidable (_ → _))
  | .start _ | .enqueue | .stop | .restart | .event _ | .timer _ | .task =>
      inferInstanceAs (Decidable True)

/-- The same sockets are where they were. -/
structure SameSockets (s s' : Connector) : Prop where
  sockets : s'.sockets = s.sockets
  delivered : s'.delivered = s.delivered
  closed : s'.closed = s.closed

/-- What a step can do to the sockets, the channel and the queued resets. -/
inductive Moves (s : Connector) (a : ConnectorAct) (s' : Connector) : Prop
  | nothing (hg : s.NotRetried a) (hw : s'.waiting = s.waiting) (hc : s'.chan = s.chan)
      (hr : s'.resets = s.resets) (hs : SameSockets s s')
  | reset (fd : ℤ) (hg : s.NotRetried a) (hw : s'.waiting = s.waiting) (hc : s'.chan = none)
      (hr : s.resets = fd :: s'.resets) (hs : SameSockets s s')
  | opened (hg : s.NotRetried a) (hw : s.waiting = false) (hw' : s'.waiting = true)
      (hc : s.chan = none) (hc' : s'.chan = some (Channel.new s.sockets).enableWriting)
      (hr : s'.resets = s.resets) (hn : s'.sockets = s.sockets + 1)
      (hd : s'.delivered = s.delivered) (hcl : s'.closed = s.closed)
  | lost (hg : ¬ s.NotRetried a) (hw : s'.waiting = s.waiting) (hc : s'.chan = s.chan)
      (hr : s'.resets = s.resets) (hn : s'.sockets = s.sockets + 1)
      (hd : s'.delivered = s.delivered) (hcl : s'.closed = s.closed)
  | failed (hg : s.NotRetried a) (hw : s'.waiting = s.waiting) (hc : s'.chan = s.chan)
      (hr : s'.resets = s.resets) (hn : s'.sockets = s.sockets + 1)
      (hd : s'.delivered = s.delivered) (hcl : s'.closed = s.closed ++ [(s.sockets : ℤ)])
  | released (ch : Channel) (hg : s.NotRetried a) (hw : s.waiting = true)
      (hw' : s'.waiting = false) (hc : s.chan = some ch)
      (hc' : s'.chan = some ch.disableAllEvents) (hr : s'.resets = s.resets ++ [ch.fd])
      (hn : s'.sockets = s.sockets)
      (hd : (s'.delivered = s.delivered ++ [ch.fd] ∧ s'.closed = s.closed) ∨
        (s'.delivered = s.delivered ∧ s'.closed = s.closed ++ [ch.fd]))

theorem waiting_eq_false (h : s.opState ≠ .kConnecting) : s.waiting = false := by
  simp [waiting, h]

/-- The innermost frame is not `StartInLoop`. -/
theorem notRetried_of_head {r : ConnectResult} {e : ℤ}
    (h : s.frames.head? ≠ some .startInLoop) : s.NotRetried (.loop r e) :=
  fun h' => absurd h' h

theorem Shape.step (hsh : Shape s.opState s.frames) (h : Steps s a s') :
    Shape s'.opState s'.frames := by
  cases h with
  | startInline hu =>
      cases hf : s.frames with
      | nil => exact .starting
      | cons f fs =>
          cases f with
          | delivering fd =>
              rw [hf] at hsh
              obtain ⟨ho, hs, rfl⟩ := hsh.of_delivering
              exact .startingIn fd hs ho
          | startInLoop | retry | handlers hs => simp [userCode, hf] at hu
  | startOther | enqueue | stop | runReset => exact hsh
  | restart hf =>
      simp only [restart, hf]
      exact .starting
  | timer | runStart => exact .starting
  | event revents => exact .handling _
  | givenUp r e fs hf ho | connecting r e fs hf ho | failed r e fs hf ho =>
      rw [hf] at hsh
      obtain rfl := hsh.of_startInLoop ho
      exact .idle
  | refused r e fs hf ho =>
      rw [hf] at hsh
      obtain rfl := hsh.of_startInLoop ho
      exact .retrying rfl
  | armed r e fs d hf | notArmed r e fs hf =>
      rw [hf] at hsh
      obtain ⟨ho, rfl | ⟨hs, rfl⟩⟩ := hsh.of_retry
      · exact .idle
      · exact .handling hs
  | delivered r e fd fs hf =>
      rw [hf] at hsh
      obtain ⟨ho, hs, rfl⟩ := hsh.of_delivering
      exact .handling hs
  | handled r e fs hf =>
      rw [hf] at hsh
      obtain rfl := hsh.of_handlers
      exact .idle
  | ignored r e h hs fs hf =>
      rw [hf] at hsh
      obtain rfl := hsh.of_handlers
      exact .handling hs
  | broken r e h hs fs ch hf =>
      rw [hf] at hsh
      obtain rfl := hsh.of_handlers
      exact .retryingIn hs rfl
  | succeeded r e h hs fs ch hf ho =>
      rw [hf] at hsh
      obtain rfl := hsh.of_handlers
      exact .delivering ch.fd hs ho
  | stopped r e h hs fs ch hf =>
      rw [hf] at hsh
      obtain rfl := hsh.of_handlers
      exact .handling hs

theorem moves_of_steps (hsh : Shape s.opState s.frames) (h : Steps s a s') : Moves s a s' := by
  cases h with
  | startInline | startOther | stop => exact .nothing trivial rfl rfl rfl ⟨rfl, rfl, rfl⟩
  | enqueue hn =>
      exact .nothing trivial rfl rfl (by simp [resets, ConnectorTask.reset?]) ⟨rfl, rfl, rfl⟩
  | restart hf ho =>
      have hw : s.waiting = false := waiting_eq_false (by simp [ho])
      exact .nothing trivial (hw ▸ waiting_eq_false nofun) rfl rfl ⟨rfl, rfl, rfl⟩
  | event _ hf | timer _ hf =>
      exact .nothing trivial (by simp [waiting, hf, ConnectorFrame.isDelivering]) rfl rfl
        ⟨rfl, rfl, rfl⟩
  | runStart ts hf ht =>
      exact .nothing trivial (by simp [waiting, hf, ConnectorFrame.isDelivering]) rfl
        (by simp [resets, ht, ConnectorTask.reset?, List.filterMap_cons]) ⟨rfl, rfl, rfl⟩
  | runReset fd ts hf ht =>
      exact .reset fd trivial rfl rfl (by simp [resets, ht, ConnectorTask.reset?]) ⟨rfl, rfl, rfl⟩
  | givenUp r e fs hf ho hc =>
      refine .nothing (fun _ h => absurd (hc.symm.trans h) nofun) ?_ rfl rfl ⟨rfl, rfl, rfl⟩
      simp [waiting, ho]
  | connecting r e fs hf ho hc hr hch =>
      rw [hf] at hsh
      obtain rfl := hsh.of_startInLoop ho
      refine .opened (fun _ _ => ?_) (waiting_eq_false (by simp [ho])) rfl hch rfl rfl rfl rfl rfl
      cases r with
      | ok | EINPROGRESS | EINTR | EISCONN => rfl
      | _ => exact nomatch hr
  | refused r e fs hf ho hc hr =>
      refine .lost (fun h => ?_) (by simp [waiting, ho]) rfl rfl rfl rfl rfl
      exact absurd (hr.symm.trans (h (by rw [hf]; rfl) hc)) nofun
  | failed r e fs hf ho hc hr hr' =>
      exact .failed (fun _ _ => hr') (by simp [waiting, ho]) rfl rfl rfl rfl rfl
  | armed _ _ _ _ hf | notArmed _ _ _ hf | delivered _ _ _ _ hf | handled _ _ _ hf
  | ignored _ _ _ _ _ hf =>
      exact .nothing (notRetried_of_head (by simp [hf]))
        (by simp [waiting, hf, ConnectorFrame.isDelivering]) rfl rfl ⟨rfl, rfl, rfl⟩
  | broken r e h hs fs ch hf ho hc =>
      rw [hf] at hsh
      obtain rfl := hsh.of_handlers
      exact .released ch (notRetried_of_head (by simp [hf]))
        (by simp [waiting, hf, ho, ConnectorFrame.isDelivering]) (by simp [waiting]) hc rfl
        (by simp [resets, ConnectorTask.reset?]) rfl (.inr ⟨rfl, rfl⟩)
  | succeeded r e h hs fs ch hf ho hc hcon =>
      rw [hf] at hsh
      obtain rfl := hsh.of_handlers
      exact .released ch (notRetried_of_head (by simp [hf]))
        (by simp [waiting, hf, ho, ConnectorFrame.isDelivering])
        (by simp [waiting, ConnectorFrame.isDelivering]) hc rfl
        (by simp [resets, ConnectorTask.reset?]) rfl (.inl ⟨rfl, rfl⟩)
  | stopped r e h hs fs ch hf ho hc hcon =>
      rw [hf] at hsh
      obtain rfl := hsh.of_handlers
      exact .released ch (notRetried_of_head (by simp [hf]))
        (by simp [waiting, hf, ho, ConnectorFrame.isDelivering]) (by simp [waiting]) hc rfl
        (by simp [resets, ConnectorTask.reset?]) rfl (.inr ⟨rfl, rfl⟩)

/-! ## The channel and its reset -/

theorem WellFormed.step (w : s.WellFormed) (h : Steps s a s') : s'.WellFormed := by
  have hsh : Shape s'.opState s'.frames := w.shape.step h
  cases moves_of_steps w.shape h with
  | nothing _ hw hc hr | lost _ hw hc hr | failed _ hw hc hr =>
      refine ⟨hsh, fun h => ?_, fun h => ?_⟩
      · rw [hc, hr]
        exact w.waiting (hw ▸ h)
      · rw [hc, hr]
        exact w.idle (hw ▸ h)
  | reset fd _ hw hc hr =>
      have hidle : s.waiting = false := w.not_waiting hr
      refine ⟨hsh, fun h => absurd ((hw.trans hidle).symm.trans h) nofun, fun _ => ?_⟩
      -- the channel is the one the reset was queued for, and no other reset is
      have hone := hr.symm.trans (w.idle hidle)
      cases hch : s.chan with
      | none => simp [hch] at hone
      | some ch =>
          simp only [hch, Option.toList_some, List.map_cons, List.map_nil, List.cons.injEq] at hone
          rw [hone.2, hc]
          rfl
  | opened _ hw hw' hc hc' hr =>
      refine ⟨hsh, fun _ => ⟨fun h => absurd (hc'.symm.trans h) nofun, ?_⟩, fun h => ?_⟩
      · rw [hr, w.idle hw, hc]
        rfl
      · exact absurd (hw'.symm.trans h) nofun
  | released ch _ hw hw' hc hc' hr =>
      refine ⟨hsh, fun h => absurd (hw'.symm.trans h) nofun, fun _ => ?_⟩
      rw [hr, (w.waiting hw).2, hc']
      rfl

/-! ## The places of a descriptor -/

/-- In how many places `fd` is: with the channel of the attempt in progress,
delivered, closed. -/
def places (s : Connector) (fd : ℤ) : ℕ :=
  (if s.held = some fd then 1 else 0) + s.delivered.count fd + s.closed.count fd

/-- Every descriptor is in one of the three places, and there once. -/
def Conserved (s : Connector) : Prop := ∀ n < s.sockets, s.places n = 1

instance (s : Connector) : Decidable s.Conserved :=
  inferInstanceAs (Decidable (∀ n < s.sockets, s.places n = 1))

theorem held_of_eq (hw : s'.waiting = s.waiting) (hc : s'.chan = s.chan) : s'.held = s.held := by
  rw [held, hw, hc]
  rfl

theorem held_of_not_waiting (h : s.waiting = false) : s.held = none := by
  rw [held, h]
  rfl

theorem held_of_waiting {ch : Channel} (h : s.waiting = true) (hc : s.chan = some ch) :
    s.held = some ch.fd := by
  rw [held, h, hc]
  rfl

theorem count_snoc (l : List ℤ) (fd fd' : ℤ) :
    (l ++ [fd']).count fd = l.count fd + if fd' = fd then 1 else 0 := by
  rw [List.count_append, List.count_singleton]
  simp

/-- A step leaves every descriptor in its places; if it creates one, that is put
in one place, or in none when the step does not meet `NotRetried`. -/
theorem places_step (w : s.WellFormed) (h : Steps s a s') :
    (s.NotRetried a ∧ s'.sockets = s.sockets ∧ ∀ fd, s'.places fd = s.places fd) ∨
      (s.NotRetried a ∧ s'.sockets = s.sockets + 1 ∧
        ∀ fd, s'.places fd = s.places fd + if (s.sockets : ℤ) = fd then 1 else 0) ∨
      (¬ s.NotRetried a ∧ s'.sockets = s.sockets + 1 ∧ ∀ fd, s'.places fd = s.places fd) := by
  cases moves_of_steps w.shape h with
  | nothing hg hw hc hr hs =>
      refine .inl ⟨hg, hs.sockets, fun fd => ?_⟩
      rw [places, held_of_eq hw hc, hs.delivered, hs.closed]
      rfl
  | reset fd hg hw hc hr hs =>
      have hidle : s.waiting = false := w.not_waiting hr
      refine .inl ⟨hg, hs.sockets, fun fd => ?_⟩
      rw [places, places, held_of_not_waiting hidle, held_of_not_waiting (hw.trans hidle),
        hs.delivered, hs.closed]
  | opened hg hw hw' hc hc' hr hn hd hcl =>
      refine .inr (.inl ⟨hg, hn, fun fd => ?_⟩)
      rw [places, places, held_of_not_waiting hw, held_of_waiting hw' hc', hd, hcl]
      simp only [Channel.enableWriting, Channel.new, Option.some.injEq, reduceCtorEq, if_false]
      omega
  | lost hg hw hc hr hn hd hcl =>
      refine .inr (.inr ⟨hg, hn, fun fd => ?_⟩)
      rw [places, held_of_eq hw hc, hd, hcl]
      rfl
  | failed hg hw hc hr hn hd hcl =>
      refine .inr (.inl ⟨hg, hn, fun fd => ?_⟩)
      rw [places, places, held_of_eq hw hc, hd, hcl, count_snoc]
      omega
  | released ch hg hw hw' hc hc' hr hn hd =>
      refine .inl ⟨hg, hn, fun fd => ?_⟩
      rw [places, places, held_of_waiting hw hc, held_of_not_waiting hw']
      simp only [Option.some.injEq, reduceCtorEq, if_false]
      rcases hd with ⟨hd, hcl⟩ | ⟨hd, hcl⟩
      · rw [hd, hcl, count_snoc]
        omega
      · rw [hd, hcl, count_snoc]
        omega

/-- No descriptor that has not been created is anywhere. -/
structure Accounted (s : Connector) : Prop where
  wellFormed : s.WellFormed
  fresh : ∀ fd : ℤ, (s.sockets : ℤ) ≤ fd → s.places fd = 0

theorem accounted_init : init.Accounted := ⟨wellFormed_init, fun _ _ => rfl⟩

theorem Accounted.step (h : s.Accounted) (hst : s.step a = some s') : s'.Accounted := by
  have hsteps := steps_of_step hst
  refine ⟨h.wellFormed.step hsteps, fun fd hfd => ?_⟩
  rcases places_step h.wellFormed hsteps with ⟨-, hn, hp⟩ | ⟨-, hn, hp⟩ | ⟨-, hn, hp⟩
  · rw [hp]
    exact h.fresh fd (by omega)
  · rw [hp, if_neg (by omega)]
    exact h.fresh fd (by omega)
  · rw [hp]
    exact h.fresh fd (by omega)

/-- From a state in which every descriptor is in one place a step leads to
another one if and only if it meets the condition. -/
theorem conserved_step (h : s.Accounted) (hc : s.Conserved) (hst : s.step a = some s') :
    s.NotRetried a ↔ s'.Conserved := by
  rcases places_step h.wellFormed (steps_of_step hst) with ⟨hg, hn, hp⟩ | ⟨hg, hn, hp⟩ |
    ⟨hg, hn, hp⟩
  · refine iff_of_true hg fun n hlt => ?_
    rw [hp]
    exact hc n (hn ▸ hlt)
  · refine iff_of_true hg fun n hlt => ?_
    rw [hp]
    rcases Nat.lt_succ_iff_lt_or_eq.mp (hn ▸ hlt) with hlt | rfl
    · rw [if_neg (by omega), hc n hlt]
    · rw [if_pos rfl, h.fresh _ (Int.le_refl _)]
  · refine iff_of_false hg fun h' => ?_
    have hone := h' s.sockets (hn ▸ Nat.lt_succ_self _)
    rw [hp, h.fresh _ (Int.le_refl _)] at hone
    exact nomatch hone

/-- In every state of a run every descriptor is in exactly one place if and only
if no attempt of the run comes back with an error that is retried. -/
theorem sockets_conserved_iff {tr : List (Connector × ConnectorAct)}
    (hr : Run (stepOf step) init tr s) :
    (∀ p ∈ tr, NotRetried p.1 p.2) ↔ (∀ p ∈ tr, Conserved p.1) ∧ s.Conserved :=
  hr.forall_iff_of_step (I := Accounted) (P := Conserved) (G := NotRetried) accounted_init
    (fun n h => absurd h (Nat.not_lt_zero n)) (fun h hst => h.step hst)
    fun h hc hst => conserved_step h hc hst

/-- One attempt fails in `connect`, the next one with an event, the third is delivered. -/
def threeAttempts : List ConnectorAct :=
  [.start true, .loop .EACCES 0, .start true, .loop .EINPROGRESS 0, .event (POLLERR ||| POLLOUT),
    .loop .ok 111, .loop .ok 0, .loop .ok 0, .loop .ok 0, .task, .timer 0, .loop .ok 0,
    .event POLLOUT, .loop .ok 0, .loop .ok 0, .loop .ok 0, .task]

theorem threeAttempts_conserved :
    ∃ tr s, runAll step init threeAttempts = some (tr, s) ∧ s.closed = [0, 1] ∧
      s.delivered = [2] ∧ (∀ p ∈ tr, Conserved p.1) ∧ s.Conserved := by
  obtain ⟨tr, s, hrun, hok, hc, hd⟩ : ∃ tr s, runAll step init threeAttempts = some (tr, s) ∧
      (∀ p ∈ tr, NotRetried p.1 p.2) ∧ s.closed = [0, 1] ∧ s.delivered = [2] :=
    exists_computed (by decide)
  exact ⟨tr, s, hrun, hc, hd, (sockets_conserved_iff (run_of_runAll hrun)).mp hok⟩

/-- The server refuses the connection. -/
def connectionRefused : List ConnectorAct := [.start true, .loop .ECONNREFUSED 0]

theorem connectionRefused_leaks :
    ∃ tr s, runAll step init connectionRefused = some (tr, s) ∧ s.sockets = 1 ∧ s.places 0 = 0 ∧
      ¬ s.Conserved :=
  exists_computed (by decide)

end Connector

end Muduo
