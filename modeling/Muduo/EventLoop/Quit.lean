/-
# `Muduo.EventLoop.Quit` — what is executed before `Loop()` returns

`quit_` is tested after a batch, and the batch was swapped out before.  A
callback queued between the swap and the test is executed in the next
iteration, and there is none when `Quit` comes in between, too.

`Drained` is the invariant: once `quit_` is set, every callback whose
`EnqueueEventLoop` had returned by then is executed, or will be in this
iteration.  It is kept by every step that meets `QuitInTime`, so in a run of
such steps no work is lost (`quit_loses_no_work`); `quitInBatch` is a run that
loses a callback.
-/
import Muduo.EventLoop.Ledger

namespace Muduo

open Runs

/-- `Loop()` does not return before it has swapped the queue out: the swap of
this iteration is ahead, or `quit_` is about to be reset. -/
def Point.beforeSwap : Point → Bool
  | outside | entered | polling | handling _ | handled | swapping => true
  | testing | between | calling _ | releasing => false

namespace EventLoop

variable {s s' : EventLoop} {a : LoopAct} {threadId : ℕ}

/-- The test of `while (!quit_)` fails: `Loop()` returns and executes nothing more. -/
def Returns (s : EventLoop) : Prop := s.point = .testing ∧ s.quit = true

instance (s : EventLoop) : Decidable s.Returns := inferInstanceAs (Decidable (_ ∧ _))

/-- When `Quit` is called, either `Loop()` will swap the queue out before it
returns, or no callback is queued whose `EnqueueEventLoop` has returned. -/
def QuitInTime (s : EventLoop) : LoopAct → Prop
  | .quit _ => s.point.beforeSwap = true ∨ ∀ c ∈ s.returned, c ∉ s.pendingCbsQueue
  | _ => True

instance (s : EventLoop) : (a : LoopAct) → Decidable (s.QuitInTime a)
  | .quit _ => inferInstanceAs (Decidable (_ ∨ _))
  | .enqueue _ | .finish _ | .loop => inferInstanceAs (Decidable True)

/-- `c` is executed, or will be before `quit_` is tested again. -/
def Served (s : EventLoop) (c : ℕ) : Prop :=
  c ∈ s.executed ∨ c ∈ s.point.current ∨ c ∈ s.tmpQueue ∨
    (s.point.beforeSwap = true ∧ c ∈ s.pendingCbsQueue)

/-- What `Quit` must not lose is served, unless `Loop()` is about to reset `quit_`. -/
def Drained (s : EventLoop) : Prop :=
  s.point = .outside ∨ s.point = .entered ∨ (s.quit = true → ∀ c ∈ s.atQuit, s.Served c)

theorem drained_init (threadId : ℕ) : (init threadId).Drained := .inl rfl

/-- Within an iteration what is served stays served. -/
theorem Served.loopStep {c : ℕ} (hl : s.Ledger) (h : s.Served c) (hst : LoopStep s s')
    (hin : s.point ≠ .outside ∧ s.point ≠ .entered ∧ s.point ≠ .testing) : s'.Served c := by
  have hbat := hl.batch
  cases hst with
  | enter hp => exact absurd hp hin.1
  | reset hp => exact absurd hp hin.2.1
  | exit hp _ | poll hp _ => exact absurd hp hin.2.2
  | polled hp | readWakeUp hp | endHandling hp | setCalling hp | released hp | clearCalling hp _ =>
      rw [Served, hp] at h
      exact h
  | swap hp =>
      rw [Served, hp] at h
      rw [hp] at hbat
      rcases h with h | h | h | ⟨-, h⟩
      · exact .inl h
      · exact nomatch h
      · rw [hbat rfl] at h
        exact nomatch h
      · exact .inr (.inr (.inl h))
  | call c' cs hp hq =>
      rw [Served, hp, hq] at h
      rcases h with h | h | h | ⟨h, -⟩
      · exact .inl h
      · exact nomatch h
      · rcases List.mem_cons.mp h with rfl | h
        · exact .inr (.inl List.mem_cons_self)
        · exact .inr (.inr (.inl h))
      · exact nomatch h
  | called c' hp =>
      rw [Served, hp] at h
      rcases h with h | h | h | ⟨h, -⟩
      · exact .inl (List.mem_append_left _ h)
      · exact .inl (List.mem_append_right _ h)
      · exact .inr (.inr (.inl h))
      · exact nomatch h

theorem Drained.loopStep (hl : s.Ledger) (h : s.Drained) (hst : LoopStep s s') : s'.Drained := by
  by_cases hin : s.point ≠ .outside ∧ s.point ≠ .entered ∧ s.point ≠ .testing
  · right; right
    intro hq c hc
    have hsame : s'.quit = s.quit ∧ s'.atQuit = s.atQuit := by
      cases hst with
      | reset hp => exact absurd hp hin.2.1
      | _ => exact ⟨rfl, rfl⟩
    rcases h with h | h | h
    · exact absurd h hin.1
    · exact absurd h hin.2.1
    · exact (h (hsame.1 ▸ hq) c (hsame.2 ▸ hc)).loopStep hl hst hin
  · cases hst with
    | enter hp => exact .inr (.inl rfl)
    | exit hp _ => exact .inl rfl
    | reset hp => exact .inr (.inr fun hq => nomatch hq)
    | poll hp hq => exact .inr (.inr fun hq' => absurd (hq.symm.trans hq') nofun)
    | polled hp | readWakeUp hp | endHandling hp | setCalling hp | swap hp | call _ _ hp _
    | clearCalling hp _ | called _ hp | released hp => simp [hp] at hin

theorem Drained.step (hl : s.Ledger) (h : s.Drained) (hg : s.QuitInTime a)
    (hst : s.step a = some s') : s'.Drained := by
  cases a with
  | enqueue t =>
      obtain ⟨-, rfl⟩ := enqueue_cases hst
      refine h.imp_right (.imp_right fun h hq c hc => ?_)
      rcases h hq c hc with h | h | h | ⟨hp, h⟩
      · exact .inl h
      · exact .inr (.inl h)
      · exact .inr (.inr (.inl h))
      · exact .inr (.inr (.inr ⟨hp, List.mem_append_left _ h⟩))
  | quit t =>
      obtain ⟨-, -, rfl⟩ := quit_cases hst
      refine .inr (.inr fun _ c hc => ?_)
      rcases hl.mem_of_returned hc with h | h | h | h
      · exact .inl h
      · exact .inr (.inl h)
      · exact .inr (.inr (.inl h))
      · rcases hg with hg | hg
        · exact .inr (.inr (.inr ⟨hg, h⟩))
        · exact absurd h (hg c hc)
  | finish t =>
      obtain ⟨r, n, rfl, -, -⟩ := finish_cases hst
      exact h
  | loop => exact h.loopStep hl (loop_cases hst).2

/-- In a run in which every `Quit` comes in time, when `Loop()` returns every
callback is executed whose `EnqueueEventLoop` had returned before `Quit` was called. -/
theorem quit_loses_no_work {tr : List (EventLoop × LoopAct)} (hr : LoopRun threadId tr s)
    (hok : ∀ p ∈ tr, QuitInTime p.1 p.2) (hret : s.Returns) : ∀ c ∈ s.atQuit, c ∈ s.executed := by
  obtain ⟨hp, hq⟩ := hret
  have hinv : s.Ledger ∧ s.Drained :=
    hr.invariant_of (I := fun s => s.Ledger ∧ s.Drained) hok
      ⟨ledger_init threadId, drained_init threadId⟩
      fun h hg hst => ⟨h.1.step hst, h.2.step h.1 hg hst⟩
  have hbat := hinv.1.batch
  intro c hc
  rcases hinv.2 with h | h | h
  · exact absurd (hp.symm.trans h) nofun
  · exact absurd (hp.symm.trans h) nofun
  · have hserved := h hq c hc
    rw [Served, hp] at hserved
    rw [hp] at hbat
    rcases hserved with h | h | h | ⟨h, -⟩
    · exact h
    · exact nomatch h
    · rw [hbat rfl] at h
      exact nomatch h
    · exact nomatch h

/-- Another thread queues two callbacks while the loop polls and calls `Quit`
before the swap. -/
def quitWhilePolling : List LoopAct :=
  [.loop, .loop, .loop, .enqueue 1, .finish 1, .enqueue 1, .finish 1, .quit 1, .loop, .finish 1,
    .loop, .loop, .loop, .loop, .loop, .loop, .loop, .loop, .loop, .loop]

theorem quitWhilePolling_drained :
    ∃ tr s, runAll step (init 0) quitWhilePolling = some (tr, s) ∧ s.Returns ∧
      s.atQuit = [0, 1] ∧ ∀ c ∈ s.atQuit, c ∈ s.executed := by
  obtain ⟨tr, s, hrun, hok, hret, hq⟩ : ∃ tr s,
      runAll step (init 0) quitWhilePolling = some (tr, s) ∧ (∀ p ∈ tr, QuitInTime p.1 p.2) ∧
        s.Returns ∧ s.atQuit = [0, 1] :=
    exists_computed (by decide)
  exact ⟨tr, s, hrun, hret, hq, quit_loses_no_work (run_of_runAll hrun) hok hret⟩

/-- Another thread queues a callback and calls `Quit` after the swap and before
`quit_` is tested. -/
def quitInBatch : List LoopAct :=
  [.loop, .loop, .loop, .loop, .loop, .loop, .loop, .enqueue 1, .finish 1, .quit 1, .finish 1,
    .loop, .loop]

theorem quitInBatch_loses :
    ∃ tr s, runAll step (init 0) quitInBatch = some (tr, s) ∧ s.Returns ∧
      ∃ c ∈ s.atQuit, c ∉ s.executed :=
  exists_computed (by decide)

end EventLoop

end Muduo
