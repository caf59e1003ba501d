/-
# `Muduo.EventLoop.Ledger` — where the queued callbacks are

Two invariants that hold in every run, whatever the threads do.  `Flags`: the
flags of the loop say where the loop thread is, and this thread is in a call
only where it runs code of the user.  `Ledger`: the callbacks executed, the one
being called, the rest of the batch and the queue are, in this order, all the
callbacks ever pushed.  A callback is the number of its push, and the pushes are
the calls of `EnqueueEventLoop` in the order of the mutex (`pushes_of_run`).
-/
import Mathlib.Data.List.Range
import Muduo.EventLoop.Model

namespace Muduo

open Runs

/-- Between the swap and the end of the batch. -/
def Point.inBatch : Point → Bool
  | between | calling _ => true
  | _ => false

/-- The critical section of `EnqueueEventLoop`. -/
def LoopAct.isEnqueue : LoopAct → Bool
  | enqueue _ => true
  | quit _ | finish _ | loop => false

namespace EventLoop

variable {s s' : EventLoop} {a : LoopAct} {threadId : ℕ}

structure Flags (s : EventLoop) : Prop where
  calling : s.callingPendingCbs = s.point.callsPending
  handling : s.eventHandling = s.point.handlesEvents
  user : s.call s.threadId ≠ none → s.point.userCode = true

structure Ledger (s : EventLoop) : Prop where
  order : s.executed ++ s.point.current ++ s.tmpQueue ++ s.pendingCbsQueue = List.range s.pushes
  batch : s.point.inBatch = false → s.tmpQueue = []
  entered : ∀ t c, s.call t = some (.enqueue c) → c < s.pushes
  returned : ∀ c ∈ s.returned, c < s.pushes

theorem flags_init (threadId : ℕ) : (init threadId).Flags :=
  ⟨rfl, rfl, fun h => absurd rfl h⟩

theorem ledger_init (threadId : ℕ) : (init threadId).Ledger :=
  ⟨rfl, fun _ => rfl, fun _ _ h => (nomatch h), fun _ h => absurd h List.not_mem_nil⟩

/-- A thread that makes a call is in code of the user if it is the loop thread. -/
theorem user_update {t : ℕ} {call : Option Call} (hf : s.Free t)
    (h : s.call s.threadId ≠ none → s.point.userCode = true)
    (hne : Function.update s.call t call s.threadId ≠ none) : s.point.userCode = true := by
  by_cases ht : s.threadId = t
  · exact hf.2 (by simp [isInLoopThread, ht])
  · exact h (by simpa [Function.update_of_ne ht] using hne)

theorem Flags.loopStep (h : s.Flags) (hcall : s.call s.threadId = none) (hst : LoopStep s s') :
    s'.Flags := by
  have hc := h.calling
  have he := h.handling
  cases hst with
  | enter hp | reset hp | exit hp _ | poll hp _ | readWakeUp hp | swap hp | call _ _ hp _
  | called _ hp | released hp =>
      rw [hp] at hc he
      exact ⟨hc, he, fun hne => absurd hcall hne⟩
  | polled hp | endHandling hp =>
      rw [hp] at hc
      exact ⟨hc, rfl, fun hne => absurd hcall hne⟩
  | setCalling hp | clearCalling hp _ =>
      rw [hp] at he
      exact ⟨rfl, he, fun hne => absurd hcall hne⟩

theorem Flags.step (h : s.Flags) (hst : s.step a = some s') : s'.Flags := by
  cases a with
  | enqueue t =>
      obtain ⟨hf, rfl⟩ := enqueue_cases hst
      exact ⟨h.calling, h.handling, user_update hf h.user⟩
  | quit t =>
      obtain ⟨hf, -, rfl⟩ := quit_cases hst
      exact ⟨h.calling, h.handling, user_update hf h.user⟩
  | finish t =>
      obtain ⟨r, n, rfl, -, -⟩ := finish_cases hst
      refine ⟨h.calling, h.handling, fun hne => h.user fun hnone => hne ?_⟩
      by_cases ht : s.threadId = t
      · simp [ht]
      · simpa [Function.update_of_ne ht] using hnone
  | loop =>
      obtain ⟨hcall, hst⟩ := loop_cases hst
      exact h.loopStep hcall hst

theorem Ledger.loopStep (h : s.Ledger) (hst : LoopStep s s') : s'.Ledger := by
  have hord := h.order
  have hbat := h.batch
  cases hst with
  | enter hp | reset hp | exit hp _ | poll hp _ | polled hp | readWakeUp hp | endHandling hp
  | setCalling hp | released hp =>
      rw [hp] at hord hbat
      exact ⟨hord, hbat, h.entered, h.returned⟩
  | swap hp =>
      -- the queue becomes the batch
      rw [hp] at hord hbat
      rw [hbat rfl] at hord
      exact ⟨by simpa [Point.current] using hord, fun hin => (nomatch hin), h.entered, h.returned⟩
  | call c cs hp hq =>
      rw [hp, hq] at hord
      exact ⟨by simpa [Point.current] using hord, fun hin => (nomatch hin), h.entered, h.returned⟩
  | clearCalling hp hq =>
      rw [hp] at hord
      exact ⟨hord, fun _ => hq, h.entered, h.returned⟩
  | called c hp =>
      rw [hp] at hord
      exact ⟨by simpa [Point.current] using hord, fun hin => (nomatch hin), h.entered, h.returned⟩

/-- One thread's call changes: the callbacks of all calls have been pushed. -/
theorem entered_update {t m n : ℕ} {call : ℕ → Option Call} {new : Option Call}
    (h : ∀ u c, call u = some (.enqueue c) → c < m) (hmn : m ≤ n)
    (hnew : ∀ c, new = some (.enqueue c) → c < n) :
    ∀ u c, Function.update call t new u = some (.enqueue c) → c < n := by
  intro u c hc
  by_cases hu : u = t
  · subst hu
    exact hnew c (by simpa using hc)
  · exact (h u c (by simpa [Function.update_of_ne hu] using hc)).trans_le hmn

theorem Ledger.step (h : s.Ledger) (hst : s.step a = some s') : s'.Ledger := by
  cases a with
  | enqueue t =>
      obtain ⟨-, rfl⟩ := enqueue_cases hst
      refine ⟨?_, h.batch, entered_update h.entered (Nat.le_succ _) ?_, ?_⟩
      · simp only [List.range_succ, ← h.order, List.append_assoc]
      · intro c hc
        obtain rfl := Call.enqueue.inj (Option.some.inj hc)
        exact Nat.lt_succ_self _
      · intro c hc
        exact (h.returned c hc).trans (Nat.lt_succ_self _)
  | quit t =>
      obtain ⟨-, -, rfl⟩ := quit_cases hst
      exact ⟨h.order, h.batch, entered_update h.entered (Nat.le_refl _) nofun, h.returned⟩
  | finish t =>
      obtain ⟨r, n, rfl, hr, -⟩ := finish_cases hst
      refine ⟨h.order, h.batch, entered_update h.entered (Nat.le_refl _) nofun, ?_⟩
      intro c hc
      rcases hr with ⟨c', hcall, rfl, -⟩ | ⟨-, rfl⟩
      · rcases List.mem_append.mp hc with hc | hc
        · exact h.returned c hc
        · obtain rfl := List.mem_singleton.mp hc
          exact h.entered t c hcall
      · exact h.returned c hc
  | loop => exact h.loopStep (loop_cases hst).2

/-- A callback whose `EnqueueEventLoop` has returned is executed, being called,
in the batch, or queued. -/
theorem Ledger.mem_of_returned (h : s.Ledger) {c : ℕ} (hc : c ∈ s.returned) :
    c ∈ s.executed ∨ c ∈ s.point.current ∨ c ∈ s.tmpQueue ∨ c ∈ s.pendingCbsQueue := by
  have hmem : c ∈ List.range s.pushes := List.mem_range.mpr (h.returned c hc)
  rw [← h.order] at hmem
  simpa only [List.mem_append, or_assoc] using hmem

/-- A run of the loop and the threads that call it. -/
abbrev LoopRun (threadId : ℕ) (tr : List (EventLoop × LoopAct)) (s : EventLoop) : Prop :=
  Run (stepOf step) (init threadId) tr s

theorem flags_of_run {tr : List (EventLoop × LoopAct)} (hr : LoopRun threadId tr s) : s.Flags :=
  hr.invariant (I := Flags) (flags_init threadId) fun h hst => h.step hst

theorem ledger_of_run {tr : List (EventLoop × LoopAct)} (hr : LoopRun threadId tr s) : s.Ledger :=
  hr.invariant (I := Ledger) (ledger_init threadId) fun h hst => h.step hst

/-- Only `EnqueueEventLoop` pushes, and once. -/
theorem pushes_step (hst : s.step a = some s') :
    s'.pushes = s.pushes + if a.isEnqueue then 1 else 0 := by
  cases a with
  | enqueue t =>
      obtain ⟨-, rfl⟩ := enqueue_cases hst
      rfl
  | quit t =>
      obtain ⟨-, -, rfl⟩ := quit_cases hst
      rfl
  | finish t =>
      obtain ⟨r, n, rfl, -, -⟩ := finish_cases hst
      rfl
  | loop =>
      obtain ⟨-, hst⟩ := loop_cases hst
      cases hst <;> rfl

theorem pushes_of_run {tr : List (EventLoop × LoopAct)} (hr : LoopRun threadId tr s) :
    s.pushes = tr.countP fun p => p.2.isEnqueue := by
  refine hr.invariant_trace (I := fun tr s => s.pushes = tr.countP fun p => p.2.isEnqueue)
    (G := fun _ _ => True) (fun _ _ => trivial) rfl fun {tr t a u} h _ hst => ?_
  rw [pushes_step hst, h, List.countP_append, List.countP_singleton]

/-! ## The batches -/

/-- The callbacks called so far, the one that is being called last. -/
def started (s : EventLoop) : List ℕ := s.executed ++ s.point.current

/-- The step is the swap in `HandlePendingCallbacks`. -/
def swaps (s : EventLoop) (a : LoopAct) : Prop := s.point = .swapping ∧ a = .loop

instance (s : EventLoop) (a : LoopAct) : Decidable (s.swaps a) :=
  inferInstanceAs (Decidable (_ ∧ _))

/-- Only the swap adds to the batch that is being run. -/
theorem started_step (hst : s.step a = some s') (hn : ¬ s.swaps a) :
    s'.started ++ s'.tmpQueue = s.started ++ s.tmpQueue := by
  cases a with
  | enqueue t =>
      obtain ⟨-, rfl⟩ := enqueue_cases hst
      rfl
  | quit t =>
      obtain ⟨-, -, rfl⟩ := quit_cases hst
      rfl
  | finish t =>
      obtain ⟨r, n, rfl, -, -⟩ := finish_cases hst
      rfl
  | loop =>
      obtain ⟨-, hst⟩ := loop_cases hst
      cases hst with
      | swap hp => exact absurd ⟨hp, rfl⟩ hn
      | call c cs hp hq => simp [started, Point.current, hp, hq]
      | called c hp => simp [started, Point.current, hp]
      | enter hp | reset hp | exit hp _ | poll hp _ | polled hp | readWakeUp hp | endHandling hp
      | setCalling hp | clearCalling hp _ | released hp =>
          simp [started, Point.current, hp]

/-- The swap takes what has been pushed so far. -/
theorem started_swap (h : s.Ledger) (hst : s.step a = some s') (hs : s.swaps a) :
    s'.started ++ s'.tmpQueue = List.range s.pushes := by
  obtain ⟨hp, rfl⟩ := hs
  have hord := h.order
  rw [h.batch (by rw [hp]; rfl), hp] at hord
  obtain ⟨-, hst⟩ := loop_cases hst
  cases hst with
  | swap => simpa [started, Point.current] using hord
  | enter hq | reset hq | exit hq _ | poll hq _ | polled hq | readWakeUp hq | endHandling hq
  | setCalling hq | clearCalling hq _ | released hq | call _ _ hq _ | called _ hq =>
      rw [hp] at hq
      cases hq

/-- In every state the callbacks called, the rest of the batch and the queue are, in this order,
all callbacks pushed, one for each `EnqueueEventLoop` of the run.  Since the last swap the calls
and the rest of the batch are what was pushed before it: a callback pushed while the batch is run
is not in the batch. -/
theorem callbacks_once_in_order {tr : List (EventLoop × LoopAct)} (hr : LoopRun threadId tr s) :
    s.started ++ s.tmpQueue ++ s.pendingCbsQueue = List.range s.pushes ∧
      (s.pushes = tr.countP fun p => p.2.isEnqueue) ∧
      ∀ pre t a post, tr = pre ++ (t, a) :: post → t.swaps a → (∀ p ∈ post, ¬ p.1.swaps p.2) →
        s.started ++ s.tmpQueue = List.range t.pushes ∧
          ∀ c, t.pushes ≤ c → c < s.pushes →
            c ∉ s.started ++ s.tmpQueue ∧ c ∈ s.pendingCbsQueue := by
  have hall := (ledger_of_run hr).order
  refine ⟨hall, pushes_of_run hr, ?_⟩
  rintro pre t a post rfl hswap hno
  obtain ⟨v, hpre, hst, hpost⟩ := hr.cut
  have hbatch : s.started ++ s.tmpQueue = List.range t.pushes := by
    refine hpost.invariant_of (I := fun u => u.started ++ u.tmpQueue = List.range t.pushes)
      (G := fun u a => ¬ u.swaps a) hno (started_swap (ledger_of_run hpre) hst hswap) ?_
    exact fun hu hn hst => (started_step hst hn).trans hu
  refine ⟨hbatch, fun c hle hlt => ?_⟩
  have hnot : c ∉ s.started ++ s.tmpQueue := by
    rw [hbatch, List.mem_range]
    exact Nat.not_lt.mpr hle
  have hmem : c ∈ (s.started ++ s.tmpQueue) ++ s.pendingCbsQueue := by
    rw [started, hall]
    exact List.mem_range.mpr hlt
  exact ⟨hnot, (List.mem_append.mp hmem).resolve_left hnot⟩

/-- Thread 1 queues a callback; the loop runs it, and it queues another one. -/
def requeueActs : List LoopAct :=
  [.enqueue 1, .finish 1] ++ List.replicate 9 .loop ++ [.enqueue 0, .finish 0, .loop, .loop]

theorem requeue_waits :
    ∃ tr s, runAll step (init 0) requeueActs = some (tr, s) ∧ s.point = .releasing ∧
      s.started = [0] ∧ s.pendingCbsQueue = [1] ∧
      s.started ++ s.tmpQueue ++ s.pendingCbsQueue = List.range s.pushes := by
  obtain ⟨tr, s, hrun, hp, hstarted, hqueue⟩ : ∃ tr s,
      runAll step (init 0) requeueActs = some (tr, s) ∧ s.point = .releasing ∧
        s.started = [0] ∧ s.pendingCbsQueue = [1] :=
    exists_computed (by decide +kernel)
  exact ⟨tr, s, hrun, hp, hstarted, hqueue, (callbacks_once_in_order (run_of_runAll hrun)).1⟩

end EventLoop

end Muduo
