/-
# `Muduo.EventLoop.Wakeup` — the loop does not sleep on a queued callback

A push needs no wake-up when a swap is still ahead in this iteration.  Whoever
pushes after the swap has to write to the eventfd, and `EnqueueEventLoop`
decides by `callingPendingCbs_` whether its caller is one of these.  It is right
about other threads, handlers of channels and pending callbacks; it is wrong
about the loop thread before `Loop()`, and in the destructors of a batch, where
the flag is cleared already.

`Wakes` is the invariant.  It is kept by every step that meets
`PushSeen`, so in a run of such steps no wake-up is lost (`no_lost_wakeup`);
`queued_unseen_sleeps` shows the two ways to lose one.
-/
import Muduo.EventLoop.Ledger

namespace Muduo

open Runs

/-- A swap of the queue is ahead before the next `Poll`. -/
def Point.swapAhead : Point → Bool
  | handling _ | handled | swapping => true
  | _ => false

namespace EventLoop

variable {s s' : EventLoop} {a : LoopAct} {threadId : ℕ}

/-- Entering `Poll`, either nothing is queued, or the eventfd is readable, or
another thread has pushed and is about to call `WakeUp`. -/
def NoLostWakeup (s : EventLoop) : Prop :=
  s.point = .polling → s.pendingCbsQueue = [] ∨ s.eventfd ≠ 0 ∨
    ∃ t c, t ≠ s.threadId ∧ s.call t = some (.enqueue c)

/-- Where the loop thread itself queues a callback, it does so in a handler of
a channel or while it calls the pending callbacks. -/
def PushSeen (s : EventLoop) : LoopAct → Prop
  | .enqueue t => t = s.threadId → s.eventHandling = true ∨ s.callingPendingCbs = true
  | _ => True

instance (s : EventLoop) : (a : LoopAct) → Decidable (s.PushSeen a)
  | .enqueue _ => inferInstanceAs (Decidable (_ → _))
  | .quit _ | .finish _ | .loop => inferInstanceAs (Decidable True)

/-- Some call of `EnqueueEventLoop` that has pushed will wake the loop up. -/
def WakerPending (s : EventLoop) : Prop := ∃ t c, s.call t = some (.enqueue c) ∧ s.wakes t = true

/-- The invariant: a queued callback is seen by the swap ahead, or the loop is
or will be woken up. -/
def Wakes (s : EventLoop) : Prop :=
  s.point.swapAhead = true ∨ s.pendingCbsQueue = [] ∨ s.eventfd ≠ 0 ∨ s.WakerPending

theorem wakes_init (threadId : ℕ) : (init threadId).Wakes := .inr (.inl rfl)

/-- The loop thread goes on only when it is in no call, so a call that will
wake it up is another thread's, and stays so whatever the flags become. -/
theorem WakerPending.loopStep (h : s.WakerPending) (hcall : s.call s.threadId = none)
    (hst : LoopStep s s') : s'.WakerPending := by
  obtain ⟨t, c, hc, -⟩ := h
  have ht : t ≠ s.threadId := by
    rintro rfl
    rw [hcall] at hc
    exact nomatch hc
  refine ⟨t, c, ?_, ?_⟩
  · cases hst <;> exact hc
  · cases hst <;> simp [wakes, isInLoopThread, ht]

theorem Wakes.loopStep (h : s.Wakes) (hcall : s.call s.threadId = none) (hst : LoopStep s s') :
    s'.Wakes := by
  by_cases hw : s.WakerPending
  · exact .inr (.inr (.inr (hw.loopStep hcall hst)))
  · cases hst with
    | enter hp | reset hp | exit hp _ | poll hp _ | call _ _ hp _ | clearCalling hp _
    | called _ hp | released hp =>
        rw [Wakes, hp] at h
        rcases h with h | h | h | h
        · exact nomatch h
        · exact .inr (.inl h)
        · exact .inr (.inr (.inl h))
        · exact absurd h hw
    | polled hp | readWakeUp hp | endHandling hp | setCalling hp => exact .inl rfl
    | swap hp => exact .inr (.inl rfl)

theorem Wakes.step (hf : s.Flags) (h : s.Wakes) (hg : s.PushSeen a) (hst : s.step a = some s') :
    s'.Wakes := by
  cases a with
  | enqueue t =>
      obtain ⟨-, rfl⟩ := enqueue_cases hst
      by_cases hw : s.wakes t = true
      · exact .inr (.inr (.inr ⟨t, s.pushes, by simp, hw⟩))
      · -- the loop thread, and not in a pending callback: it is in a handler
        simp only [wakes, Bool.or_eq_true, Bool.not_eq_true', isInLoopThread,
          decide_eq_false_iff_not, not_or, not_not] at hw
        rcases hg hw.1 with he | hc
        · left
          rw [hf.handling] at he
          revert he
          simp only
          cases s.point <;> simp [Point.handlesEvents, Point.swapAhead]
        · exact absurd hc hw.2
  | quit t =>
      obtain ⟨hfree, -, rfl⟩ := quit_cases hst
      rcases h with h | h | h | ⟨u, c, hc, hw⟩
      · exact .inl h
      · exact .inr (.inl h)
      · exact .inr (.inr (.inl h))
      · have hu : u ≠ t := by
          rintro rfl
          rw [hfree.1] at hc
          cases hc
        exact .inr (.inr (.inr ⟨u, c, by simpa [hu] using hc, hw⟩))
  | finish t =>
      obtain ⟨r, n, rfl, hcall, hn⟩ := finish_cases hst
      rcases h with h | h | h | ⟨u, c, hc, hw⟩
      · exact .inl h
      · exact .inr (.inl h)
      · rcases hn with hn | rfl
        · exact .inr (.inr (.inl hn))
        · exact .inr (.inr (.inl h))
      · by_cases hu : u = t
        · subst hu
          rcases hcall with ⟨-, -, -, hwakes⟩ | ⟨hquit, -⟩
          · exact .inr (.inr (.inl (hwakes hw)))
          · rw [hc] at hquit
            cases hquit
        · exact .inr (.inr (.inr ⟨u, c, by simpa [hu] using hc, hw⟩))
  | loop =>
      obtain ⟨hcall, hst⟩ := loop_cases hst
      exact h.loopStep hcall hst

/-- In a run in which the loop thread queues callbacks only from handlers and
from pending callbacks, the loop never enters `Poll` on a queued callback with
nothing to wake it up. -/
theorem no_lost_wakeup {tr : List (EventLoop × LoopAct)} (hr : LoopRun threadId tr s)
    (hok : ∀ p ∈ tr, PushSeen p.1 p.2) : s.NoLostWakeup := by
  have hinv : s.Flags ∧ s.Wakes :=
    hr.invariant_of (I := fun s => s.Flags ∧ s.Wakes) hok
      ⟨flags_init threadId, wakes_init threadId⟩
      fun h hg hst => ⟨h.1.step hst, h.2.step h.1 hg hst⟩
  intro hp
  rcases hinv.2 with h | h | h | ⟨t, c, hc, hw⟩
  · rw [hp] at h
    exact nomatch h
  · exact .inl h
  · exact .inr (.inl h)
  · refine .inr (.inr ⟨t, c, ?_, hc⟩)
    rintro rfl
    have huser := hinv.1.user (by simp [hc])
    rw [hp] at huser
    exact nomatch huser

/-- Another thread, a handler and a pending callback queue one callback each. -/
def seenRun : List LoopAct :=
  [.loop, .loop, .loop, .enqueue 1, .finish 1, .loop, .enqueue 0, .finish 0, .loop, .loop, .loop,
    .loop, .loop, .enqueue 0, .finish 0, .loop, .loop, .loop, .loop, .loop, .loop]

theorem seenRun_wakes :
    ∃ tr s, runAll step (init 0) seenRun = some (tr, s) ∧ s.point = .polling ∧
      s.pendingCbsQueue = [2] ∧ s.NoLostWakeup := by
  obtain ⟨tr, s, hrun, hok, hp, hq⟩ : ∃ tr s, runAll step (init 0) seenRun = some (tr, s) ∧
      (∀ p ∈ tr, PushSeen p.1 p.2) ∧ s.point = .polling ∧ s.pendingCbsQueue = [2] :=
    exists_computed (by decide)
  exact ⟨tr, s, hrun, hp, hq, no_lost_wakeup (run_of_runAll hrun) hok⟩

/-! ## The two places where the flag is no help -/

/-- Only the loop thread acts. -/
def Alone (s : EventLoop) : LoopAct → Prop
  | .enqueue t | .quit t | .finish t => t = s.threadId
  | .loop => True

instance (s : EventLoop) : (a : LoopAct) → Decidable (s.Alone a)
  | .enqueue _ | .quit _ | .finish _ => inferInstanceAs (Decidable (_ = _))
  | .loop => inferInstanceAs (Decidable True)

/-- While only the loop thread acts no other thread is in a call. -/
theorem idle_of_alone {tr : List (EventLoop × LoopAct)} (hr : LoopRun threadId tr s)
    (hok : ∀ p ∈ tr, Alone p.1 p.2) : ∀ t, t ≠ s.threadId → s.call t = none := by
  refine hr.invariant_of (I := fun s => ∀ t, t ≠ s.threadId → s.call t = none) hok
    (fun _ _ => rfl) ?_
  intro s a s' h hg hst t ht
  cases a with
  | enqueue u =>
      obtain ⟨-, rfl⟩ := enqueue_cases hst
      simpa [Function.update_of_ne (hg ▸ ht : t ≠ u)] using h t ht
  | quit u =>
      obtain ⟨-, -, rfl⟩ := quit_cases hst
      simpa [Function.update_of_ne (hg ▸ ht : t ≠ u)] using h t ht
  | finish u =>
      obtain ⟨r, n, rfl, -, -⟩ := finish_cases hst
      simpa [Function.update_of_ne (hg ▸ ht : t ≠ u)] using h t ht
  | loop => cases (loop_cases hst).2 <;> exact h t ht

theorem lost_of_alone {tr : List (EventLoop × LoopAct)} (hr : LoopRun threadId tr s)
    (hok : ∀ p ∈ tr, Alone p.1 p.2) (hp : s.point = .polling) (hq : s.pendingCbsQueue ≠ [])
    (he : s.eventfd = 0) : ¬ s.NoLostWakeup := by
  intro h
  rcases h hp with h | h | ⟨t, c, ht, hc⟩
  · exact hq h
  · exact h he
  · rw [idle_of_alone hr hok t ht] at hc
    exact nomatch hc

/-- The loop thread queues a callback and then enters `Loop()`. -/
def queuedBeforeLoop : List LoopAct := [.enqueue 0, .finish 0, .loop, .loop, .loop]

/-- A handler queues a callback, whose destructor queues another one. -/
def queuedOnRelease : List LoopAct :=
  [.loop, .loop, .loop, .loop, .enqueue 0, .finish 0, .loop, .loop, .loop, .loop, .loop, .loop,
    .enqueue 0, .finish 0, .loop, .loop]

theorem queued_unseen_sleeps :
    (∃ tr s, runAll step (init 0) queuedBeforeLoop = some (tr, s) ∧ ¬ s.NoLostWakeup) ∧
    ∃ tr s, runAll step (init 0) queuedOnRelease = some (tr, s) ∧ ¬ s.NoLostWakeup := by
  constructor
  · obtain ⟨tr, s, hr, hok, hp, hq, he⟩ : ∃ tr s,
        runAll step (init 0) queuedBeforeLoop = some (tr, s) ∧ (∀ p ∈ tr, Alone p.1 p.2) ∧
          s.point = .polling ∧ s.pendingCbsQueue ≠ [] ∧ s.eventfd = 0 :=
      exists_computed (by decide)
    exact ⟨tr, s, hr, lost_of_alone (run_of_runAll hr) hok hp hq he⟩
  · obtain ⟨tr, s, hr, hok, hp, hq, he⟩ : ∃ tr s,
        runAll step (init 0) queuedOnRelease = some (tr, s) ∧ (∀ p ∈ tr, Alone p.1 p.2) ∧
          s.point = .polling ∧ s.pendingCbsQueue ≠ [] ∧ s.eventfd = 0 :=
      exists_computed (by decide)
    exact ⟨tr, s, hr, lost_of_alone (run_of_runAll hr) hok hp hq he⟩

end EventLoop

end Muduo
