/-
# `Muduo.Connector.Attempts` — at most one attempt at a time

An attempt may be under way in many places: a retry timer is armed, a `Start` of
another thread has still to queue `StartInLoop` or has queued it, the loop thread
is in `StartInLoop` or `Retry`, or `opState_` says so.  Nothing in the connector
takes an attempt back that has been launched; `Stop` only makes the next
`StartInLoop` give up.

    launch           finds                    safe when
    Start()          whatever there is        nothing is under way (attempts = 0)
    Start() inline   … and the old channel    … and its reset has been run
    Restart()        kConnected               the reset has been run
    a retry timer    kDisconnected            the reset has been run

In a run whose launches meet the third column there is at most one attempt in
every state, and the assertions of `StartInLoop` and `InitConnectOp` hold
(`safe_of_run`).  `startWhileRetrying` is a run with a `Start` too many.
-/
import Muduo.Connector.Sockets

namespace Muduo

open Runs

/-- The loop thread is about to make or to arm an attempt. -/
def ConnectorFrame.isLaunch : ConnectorFrame → Bool
  | startInLoop | retry => true
  | _ => false

/-- The attempts that the loop thread is about to make or to arm. -/
def launches (fs : List ConnectorFrame) : ℕ := fs.countP ConnectorFrame.isLaunch

section Launches

variable (fs : List ConnectorFrame)

@[simp] theorem launches_nil : launches [] = 0 := rfl

@[simp] theorem launches_startInLoop : launches (.startInLoop :: fs) = launches fs + 1 :=
  List.countP_cons_of_pos rfl

@[simp] theorem launches_retry : launches (.retry :: fs) = launches fs + 1 :=
  List.countP_cons_of_pos rfl

@[simp] theorem launches_delivering (fd : ℤ) : launches (.delivering fd :: fs) = launches fs :=
  List.countP_cons_of_neg nofun

@[simp] theorem launches_handlers (hs : List Handler) :
    launches (.handlers hs :: fs) = launches fs :=
  List.countP_cons_of_neg nofun

end Launches

/-- The attempt that `opState_` tells of. -/
def OpState.attempt : OpState → ℕ
  | kDisconnected => 0
  | kConnecting | kConnected => 1

namespace Connector

variable {s s' : Connector} {a : ConnectorAct}

/-- The attempts that have been launched and are not over. -/
def attempts (s : Connector) : ℕ :=
  s.timers.length + s.starts + s.tasks.count .startInLoop + launches s.frames + s.opState.attempt

/-- `StartInLoop` finds `kDisconnected`, and `InitConnectOp`, if it is called, an
empty `chan_`; the next reset, if the loop runs it, deletes the channel it was
queued for. -/
structure Safe (s : Connector) : Prop where
  startInLoop : s.frames.head? = some .startInLoop →
    s.opState = .kDisconnected ∧ (s.connect = true → s.chan = none)
  reset : ∀ t ∈ s.tasks.head?, ∀ fd ∈ t.reset?, ∀ ch ∈ s.chan, ch.fd = fd

/-- A launch comes when nothing is under way; a launch that the loop thread does
not queue also when the old channel has been deleted. -/
def OneAtATime (s : Connector) : ConnectorAct → Prop
  | .start onLoop => s.attempts = 0 ∧ (onLoop = true → s.chan = none)
  | .restart | .timer _ => s.chan = none
  | _ => True

instance (s : Connector) : (a : ConnectorAct) → Decidable (s.OneAtATime a)
  | .start _ => inferInstanceAs (Decidable (_ ∧ _))
  | .restart | .timer _ => inferInstanceAs (Decidable (_ = _))
  | .enqueue | .stop | .event _ | .task | .loop _ _ => inferInstanceAs (Decidable True)

/-- Behind a call of `StartInLoop` nothing else is queued. -/
def Ordered (ts : List ConnectorTask) : Prop :=
  ts.Pairwise fun t u => t = .startInLoop → u = .startInLoop

/-- At most one attempt; a queued `StartInLoop` comes after the resets, and when
it has been called there is no channel. -/
structure Single (s : Connector) : Prop where
  attempts : s.attempts ≤ 1
  order : Ordered s.tasks
  clear : .startInLoop ∈ s.frames → s.chan = none

theorem single_init : init.Single := ⟨Nat.zero_le _, .nil, fun _ => rfl⟩

theorem count_snoc_reset (ts : List ConnectorTask) (fd : ℤ) :
    (ts ++ [ConnectorTask.resetChan fd]).count ConnectorTask.startInLoop =
      ts.count ConnectorTask.startInLoop := by
  rw [List.count_append]
  rfl

/-- A step launches no second attempt. -/
theorem attempts_step (hle : s.attempts ≤ 1) (hsh : Shape s.opState s.frames)
    (hg : s.OneAtATime a) (h : Steps s a s') : s'.attempts ≤ 1 := by
  unfold attempts at hle
  unfold attempts
  cases h with
  | startInline hu | startOther =>
      have h0 := hg.1
      simp only [attempts, launches_startInLoop] at h0 ⊢
      omega
  | enqueue hn =>
      simp only [List.count_append, List.count_singleton_self]
      omega
  | stop => exact hle
  | restart hf ho =>
      simp only [restart, hf, ho, OpState.attempt, launches_startInLoop, launches_nil] at hle ⊢
      omega
  | event revents hf hc =>
      simpa only [hf, launches_handlers] using hle
  | timer i hf hi =>
      simp only [hf, launches_startInLoop, launches_nil, List.length_eraseIdx, if_pos hi] at hle ⊢
      omega
  | runStart ts hf ht =>
      simp only [hf, ht, launches_startInLoop, launches_nil, List.count_cons_self] at hle ⊢
      omega
  | runReset fd ts hf ht =>
      simpa [ht, List.count_cons] using hle
  | givenUp r e fs hf ho | failed r e fs hf ho =>
      simp only [hf, launches_startInLoop] at hle ⊢
      omega
  | connecting r e fs hf ho | refused r e fs hf ho =>
      simp only [hf, ho, OpState.attempt, launches_startInLoop, launches_retry] at hle ⊢
      omega
  | armed r e fs d hf hc =>
      simp only [hf, launches_retry, List.length_append, List.length_singleton] at hle ⊢
      omega
  | notArmed r e fs hf hc =>
      simp only [hf, launches_retry] at hle ⊢
      omega
  | delivered r e fd fs hf =>
      rw [hf] at hsh
      simpa only [hf, hsh.of_delivering.1, OpState.attempt, launches_delivering] using hle
  | handled r e fs hf | ignored r e h hs fs hf =>
      simpa only [hf, launches_handlers] using hle
  | broken r e h hs fs ch hf ho =>
      simp only [hf, ho, OpState.attempt, launches_retry, launches_handlers,
        count_snoc_reset] at hle ⊢
      omega
  | succeeded r e h hs fs ch hf ho =>
      simpa only [hf, launches_delivering, launches_handlers, count_snoc_reset] using hle
  | stopped r e h hs fs ch hf ho =>
      simp only [hf, ho, OpState.attempt, launches_handlers, count_snoc_reset] at hle ⊢
      omega

/-! ## The order of the queue -/

section Ordered

variable {ts : List ConnectorTask}

theorem Ordered.snoc_start (h : Ordered ts) : Ordered (ts ++ [.startInLoop]) :=
  List.pairwise_append.mpr ⟨h, List.pairwise_singleton _ _, fun _ _ _ hu _ =>
    List.mem_singleton.mp hu⟩

/-- A reset is queued when no `StartInLoop` is. -/
theorem Ordered.snoc_reset (h : Ordered ts) {fd : ℤ} (h0 : ts.count .startInLoop = 0) :
    Ordered (ts ++ [.resetChan fd]) := by
  refine List.pairwise_append.mpr ⟨h, List.pairwise_singleton _ _, fun t ht _ _ hts => ?_⟩
  exact absurd (hts ▸ ht) (List.count_eq_zero.mp h0)

theorem Ordered.tail {t : ConnectorTask} (h : Ordered (t :: ts)) : Ordered ts :=
  (List.pairwise_cons.mp h).2

theorem Ordered.no_reset (h : Ordered (.startInLoop :: ts)) :
    ts.filterMap ConnectorTask.reset? = [] := by
  refine List.filterMap_eq_nil_iff.mpr fun t ht => ?_
  rw [(List.pairwise_cons.mp h).1 t ht rfl]
  rfl

end Ordered

/-- An attempt that is waiting or being delivered is the only one. -/
theorem Single.no_task (h : s.Single) (ho : s.opState = .kConnecting) :
    s.tasks.count .startInLoop = 0 := by
  have hle := h.attempts
  simp only [Connector.attempts, ho, OpState.attempt] at hle
  omega

/-- When the loop comes to a queued `StartInLoop`, the channel has been deleted. -/
theorem Single.chan_of_start (w : s.WellFormed) (h : s.Single) {ts : List ConnectorTask}
    (ht : s.tasks = .startInLoop :: ts) : s.chan = none := by
  have hidle : s.waiting = false := by
    refine waiting_eq_false fun ho => ?_
    simpa [ht] using h.no_task ho
  have hresets : s.resets = [] := by
    have hord := h.order
    rw [ht] at hord
    rw [resets, ht, List.filterMap_cons]
    exact hord.no_reset
  cases hc : s.chan with
  | none => rfl
  | some ch => simpa [hc, hresets] using w.idle hidle

theorem Single.step (w : s.WellFormed) (h : s.Single) (hg : s.OneAtATime a) (hst : Steps s a s') :
    s'.Single := by
  refine ⟨attempts_step h.attempts w.shape hg hst, ?_, ?_⟩
  · have hord := h.order
    cases hst with
    | enqueue hn => exact hord.snoc_start
    | broken r e h₀ hs fs ch hf ho | succeeded r e h₀ hs fs ch hf ho
    | stopped r e h₀ hs fs ch hf ho => exact hord.snoc_reset (h.no_task ho)
    | runStart ts hf ht | runReset fd ts hf ht =>
        rw [ht] at hord
        exact hord.tail
    | _ => exact hord
  · have hclear := h.clear
    have hsh := w.shape
    cases hst with
    | startInline hu => exact fun _ => hg.2 rfl
    | startOther | enqueue | stop => exact hclear
    | restart | timer => exact fun _ => hg
    | runStart ts hf ht =>
        have hchan : s.chan = none := h.chan_of_start w ht
        exact fun _ => hchan
    | runReset => exact fun _ => rfl
    | event revents hf hc => exact fun hmem => by simp at hmem
    | givenUp r e fs hf ho | connecting r e fs hf ho | refused r e fs hf ho
    | failed r e fs hf ho =>
        rw [hf] at hsh
        obtain rfl := hsh.of_startInLoop ho
        exact fun hmem => by simp at hmem
    | armed r e fs d hf | notArmed r e fs hf =>
        rw [hf] at hsh
        obtain ⟨-, rfl | ⟨hs, rfl⟩⟩ := hsh.of_retry <;> exact fun hmem => by simp at hmem
    | delivered r e fd fs hf =>
        rw [hf] at hsh
        obtain ⟨-, hs, rfl⟩ := hsh.of_delivering
        exact fun hmem => by simp at hmem
    | handled r e fs hf | ignored r e h₀ hs fs hf | broken r e h₀ hs fs ch hf
    | succeeded r e h₀ hs fs ch hf | stopped r e h₀ hs fs ch hf =>
        rw [hf] at hsh
        obtain rfl := hsh.of_handlers
        exact fun hmem => by simp at hmem

/-- With at most one attempt, `StartInLoop` and the next reset find what they expect. -/
theorem Single.safe (w : s.WellFormed) (h : s.Single) : s.Safe := by
  refine ⟨fun hf => ?_, ?_⟩
  · obtain ⟨fs, hfs⟩ : ∃ fs, s.frames = .startInLoop :: fs := by
      cases hfs : s.frames with
      | nil => simp [hfs] at hf
      | cons f fs => exact ⟨fs, by simpa [hfs] using hf⟩
    have hle := h.attempts
    simp only [Connector.attempts, hfs, launches_startInLoop] at hle
    refine ⟨?_, fun _ => h.clear (by simp [hfs])⟩
    cases ho : s.opState with
    | kDisconnected => rfl
    | kConnecting | kConnected =>
        simp only [ho, OpState.attempt] at hle
        omega
  · intro t ht fd hfd ch hch
    obtain ⟨ts, hts⟩ : ∃ ts, s.tasks = t :: ts := List.head?_eq_some_iff.mp ht
    have hresets : s.resets = fd :: ts.filterMap ConnectorTask.reset? := by
      rw [resets, hts, List.filterMap_cons, hfd]
    have hone := hresets.symm.trans (w.idle (w.not_waiting hresets))
    rw [hch] at hone
    exact (List.cons.inj hone).1.symm

/-- In a run in which nothing is launched while an attempt is under way, every
`StartInLoop` finds `kDisconnected`, every `InitConnectOp` an empty `chan_`, and
no reset deletes another channel than the one it was queued for. -/
theorem safe_of_run {tr : List (Connector × ConnectorAct)} (hr : Run (stepOf step) init tr s)
    (hok : ∀ p ∈ tr, OneAtATime p.1 p.2) : s.Safe := by
  have hinv : s.WellFormed ∧ s.Single :=
    hr.invariant_of (I := fun s => s.WellFormed ∧ s.Single) hok ⟨wellFormed_init, single_init⟩
      fun h hg hst =>
        ⟨h.1.step (steps_of_step hst), h.2.step h.1 hg (steps_of_step hst)⟩
  exact hinv.2.safe hinv.1

/-- An attempt that is refused, its retry, and a `Restart` when the connection is lost. -/
def retriedOnce : List ConnectorAct :=
  [.start false, .enqueue, .task, .loop .ECONNREFUSED 0, .loop .ok 0, .timer 0,
    .loop .EINPROGRESS 0, .event POLLOUT, .loop .ok 0, .loop .ok 0, .loop .ok 0, .task, .restart]

theorem retriedOnce_safe :
    ∃ tr s, runAll step init retriedOnce = some (tr, s) ∧ s.frames = [.startInLoop] ∧
      s.delivered = [1] ∧ s.Safe := by
  obtain ⟨tr, s, hrun, hok, hf, hd⟩ : ∃ tr s, runAll step init retriedOnce = some (tr, s) ∧
      (∀ p ∈ tr, OneAtATime p.1 p.2) ∧ s.frames = [.startInLoop] ∧ s.delivered = [1] :=
    exists_computed (by decide)
  exact ⟨tr, s, hrun, hf, hd, safe_of_run (run_of_runAll hrun) hok⟩

/-- `Stop` and `Start` while a retry timer is armed: the timer expires during the
attempt that `Start` has launched. -/
def startWhileRetrying : List ConnectorAct :=
  [.start true, .loop .ECONNREFUSED 0, .loop .ok 0, .stop, .start true, .loop .EINPROGRESS 0,
    .timer 0]

theorem startWhileRetrying_unsafe :
    ∃ tr s, runAll step init startWhileRetrying = some (tr, s) ∧ ¬ s.Safe := by
  obtain ⟨tr, s, hrun, hf, ho⟩ : ∃ tr s, runAll step init startWhileRetrying = some (tr, s) ∧
      s.frames.head? = some .startInLoop ∧ s.opState = .kConnecting :=
    exists_computed (by decide)
  exact ⟨tr, s, hrun, fun h => nomatch ho.symm.trans (h.startInLoop hf).1⟩

end Connector

end Muduo
