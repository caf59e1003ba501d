/-
# `Muduo.LoopThread.Handshake` — Run and the thread that it starts

`Run` waits on `cv_` until `loop_` is not null.  The thread publishes `loop_` under
the mutex, and notifies after it; so that a wait can only be in front of

    initCb, publishing, notifying     the notification is to come
    finished                          the loop has ended, and `loop_` is null again

In the first case `Run` returns a loop.  In the second, when code of the user has quit the
loop before `Run` looked at `loop_`, it never returns (`run_hands_over`).
-/
import Muduo.LoopThread.Join

namespace Muduo

open Runs

/-- `Run` has been called, and has not returned. -/
def OwnerPoint.inRun : OwnerPoint → Bool
  | testing | waiting => true
  | _ => false

theorem inRun_of_inQuit {o : OwnerPoint} (h : o.inQuit = true) :
    o.inRun = false ∧ o ≠ .constructed := by
  cases o with
  | asserting | waking => exact ⟨rfl, nofun⟩
  | constructed | testing | waiting | running | exiting | quitting | joining | destroyed =>
      exact nomatch h

/-- `loop_` is not null. -/
def FuncPoint.published : FuncPoint → Bool
  | notifying | calling | looping | clearing => true
  | notStarted | initCb | publishing | finished => false

namespace LoopThread

variable {s s' : LoopThread} {a : ThreadAct}

structure Hands (s : LoopThread) : Prop where
  exit : s.isExit = true → s.owner.inRun = false ∧ s.owner ≠ .constructed
  loop : s.loop = s.thread.published
  waiting : s.owner = .waiting → s.thread = .initCb ∨ s.thread = .publishing ∨
    s.thread = .notifying ∨ s.thread = .finished
  constructed : s.owner = .constructed ↔ s.thread = .notStarted

theorem hands_init : init.Hands :=
  ⟨nofun, rfl, nofun, iff_of_true rfl rfl⟩

/-- A step that leaves `loop_`, the flag and the two program counters alone. -/
theorem Hands.of_ev (h : s.Hands) (ho : s'.owner = s.owner) (ht : s'.thread = s.thread)
    (hl : s'.loop = s.loop) (he : s'.isExit = s.isExit) : s'.Hands := by
  refine ⟨?_, ?_, ?_, ?_⟩
  · rw [he, ho]
    exact h.exit
  · rw [hl, ht]
    exact h.loop
  · rw [ho, ht]
    exact h.waiting
  · rw [ho, ht]
    exact h.constructed

/-- The owner goes on behind `Run`. -/
theorem Hands.of_past (h : s.Hands) (hs : s.owner ≠ .constructed)
    (ho : s'.owner.inRun = false ∧ s'.owner ≠ .constructed) (ht : s'.thread = s.thread)
    (hl : s'.loop = s.loop) : s'.Hands := by
  refine ⟨fun _ => ho, by rw [hl, ht, h.loop], fun hw => ?_, ?_⟩
  · rw [hw] at ho
    exact nomatch ho.1
  · rw [ht, ← h.constructed]
    exact iff_of_false ho.2 hs

/-- The test of `while (loop_ == nullptr && !isExit_)`. -/
theorem hands_testing (h : s.Hands) (ho : s.owner = .testing) (hst : s.ownerNext = some s') :
    s'.Hands ∧ (s.loop = true ∧ s'.owner = .running ∨ s.loop = false ∧ s'.owner = .waiting) := by
  have hexit : s.isExit = false := by
    cases he : s.isExit with
    | false => rfl
    | true =>
        have hin := (h.exit he).1
        rw [ho] at hin
        exact nomatch hin
  have hstarted : s.owner ≠ .constructed := ho ▸ nofun
  simp only [ownerNext, ho, hexit, Bool.or_false] at hst
  cases hl : s.loop with
  | true =>
      rw [hl, if_pos rfl] at hst
      obtain rfl := Option.some.inj hst
      exact ⟨h.of_past hstarted ⟨rfl, nofun⟩ rfl hl.symm, .inl ⟨rfl, rfl⟩⟩
  | false =>
      rw [hl, if_neg (by decide)] at hst
      obtain rfl := Option.some.inj hst
      have hp := h.loop.symm.trans hl
      refine ⟨⟨nofun, hp.symm, fun _ => ?_, ?_⟩, .inr ⟨rfl, rfl⟩⟩
      · show s.thread = _ ∨ s.thread = _ ∨ s.thread = _ ∨ s.thread = _
        cases ht : s.thread with
        | initCb => exact .inl rfl
        | publishing => exact .inr (.inl rfl)
        | finished => exact .inr (.inr (.inr rfl))
        | notifying | calling | looping | clearing =>
            rw [ht] at hp
            exact nomatch hp
        | notStarted => exact absurd (h.constructed.mpr ht) hstarted
      · rw [← h.constructed]
        exact iff_of_false nofun hstarted

theorem hands_owner (h : s.Hands) (hst : s.ownerNext = some s') : s'.Hands := by
  by_cases ho : s.owner = .testing
  · exact (hands_testing h ho hst).1
  cases ownerStep_of_next hst with
  | run ho =>
      have hl := h.loop
      rw [h.constructed.mp ho] at hl
      refine ⟨fun he => absurd ho (h.exit he).2, hl, nofun, iff_of_false nofun nofun⟩
  | found ho' | wait ho' => exact absurd ho' ho
  | tested ho | skipped ho | read ho | quitFailed ho | quit _ ho | woken _ ho | join ho =>
      exact h.of_past (ho ▸ nofun) ⟨rfl, nofun⟩ rfl rfl
  | nullLoop ho => exact h.of_past (ho ▸ nofun) (ho ▸ ⟨rfl, nofun⟩) rfl rfl
  | gone ho =>
      have hpast := inRun_of_inQuit ho
      exact h.of_past hpast.2 hpast rfl rfl

/-- `notify_one` ends a wait. -/
theorem hands_notify {p : FuncPoint} {l : Bool} (h : s.Hands) (hs : s.owner ≠ .constructed)
    (hl : l = p.published) (hp : p ≠ .notStarted) :
    ({ s with thread := p, loop := l } : LoopThread).notify.Hands := by
  unfold notify
  split
  · next hw =>
      have hw : s.owner = .waiting := hw
      refine ⟨fun he => ?_, hl, nofun, iff_of_false nofun hp⟩
      have hin := (h.exit he).1
      rw [hw] at hin
      exact nomatch hin
  · next hw => exact ⟨h.exit, hl, fun hw' => absurd hw' hw, iff_of_false hs hp⟩

/-- The thread goes on to where `loop_` is as it should be. -/
theorem Hands.of_thread {p : FuncPoint} {l : Bool} {ev : EventLoop} (h : s.Hands)
    (hl : l = p.published) (hs : s.owner ≠ .constructed) (hp : p ≠ .notStarted)
    (hw : s.owner = .waiting → p = .publishing ∨ p = .notifying ∨ p = .finished) :
    ({ s with thread := p, loop := l, ev } : LoopThread).Hands :=
  ⟨h.exit, hl, fun hw' => .inr (hw hw'), iff_of_false hs hp⟩

theorem hands_thread (h : s.Hands) (hst : FuncStep s s') : s'.Hands := by
  have hstarted : s.thread ≠ .notStarted → s.owner ≠ .constructed :=
    fun ht ho => ht (h.constructed.mp ho)
  -- in front of the loop the owner does not wait
  have hnot : s.thread ≠ .initCb → s.thread ≠ .publishing → s.thread ≠ .notifying →
      s.thread ≠ .finished → s.owner ≠ .waiting := by
    intro h₁ h₂ h₃ h₄ hw
    rcases h.waiting hw with ht | ht | ht | ht
    · exact h₁ ht
    · exact h₂ ht
    · exact h₃ ht
    · exact h₄ ht
  cases hst with
  | initCb ht =>
      have hl := h.loop
      rw [ht] at hl
      exact h.of_thread hl (hstarted (ht ▸ nofun)) nofun fun _ => .inl rfl
  | publish ht => exact h.of_thread rfl (hstarted (ht ▸ nofun)) nofun fun _ => .inr (.inl rfl)
  | leave ht =>
      have hl := h.loop
      rw [ht] at hl
      exact hands_notify h (hstarted (ht ▸ nofun)) hl nofun
  | notify ht =>
      have hl := h.loop
      rw [ht] at hl
      exact hands_notify h (hstarted (ht ▸ nofun)) hl nofun
  | call ev ht =>
      have hl := h.loop
      rw [ht] at hl
      refine h.of_thread hl (hstarted (ht ▸ nofun)) nofun fun hw => ?_
      exact absurd hw (hnot (ht ▸ nofun) (ht ▸ nofun) (ht ▸ nofun) (ht ▸ nofun))
  | loop ev ht =>
      have hl := h.loop
      rw [ht] at hl
      have hw := hnot (ht ▸ nofun) (ht ▸ nofun) (ht ▸ nofun) (ht ▸ nofun)
      split
      · exact h.of_thread hl (hstarted (ht ▸ nofun)) nofun fun hw' => absurd hw' hw
      · exact h.of_thread hl (hstarted (ht ▸ nofun)) nofun fun hw' => absurd hw' hw
  | clear ht => exact h.of_thread rfl (hstarted (ht ▸ nofun)) nofun fun _ => .inr (.inr rfl)

theorem Hands.step (h : s.Hands) (hst : s.step a = some s') : s'.Hands := by
  obtain ⟨-, hst⟩ := guard_bind_eq_some_iff.mp hst
  cases a with
  | owner => exact hands_owner h hst
  | destroy =>
      obtain ⟨⟨ho, -⟩, hst⟩ := guard_bind_eq_some_iff.mp hst
      exact Option.some.inj hst ▸ h.of_past (ho ▸ nofun) ⟨rfl, nofun⟩ rfl rfl
  | spurious =>
      obtain ⟨ho, hst⟩ := guard_bind_eq_some_iff.mp hst
      obtain rfl := Option.some.inj hst
      refine ⟨fun he => ?_, h.loop, nofun, ?_⟩
      · have hin := (h.exit he).1
        rw [ho] at hin
        exact nomatch hin
      · rw [← h.constructed, ho]
        exact iff_of_false nofun nofun
  | thread => exact hands_thread h (funcStep_of_next hst)
  | quit =>
      obtain ⟨-, hst⟩ := guard_bind_eq_some_iff.mp hst
      rcases callQuit_cases hst with ⟨-, rfl⟩ | ⟨-, ev, -, rfl⟩
      · exact h.of_ev rfl rfl rfl rfl
      · exact h.of_ev rfl rfl rfl rfl
  | enqueue t | finish t =>
      obtain ⟨ev, -, rfl⟩ := call_cases hst
      exact h.of_ev rfl rfl rfl rfl

/-- Once the loop has ended before `Run` has looked, `Run` goes on looking. -/
theorem Hands.stuck_step (h : s.Hands) (hin : s.owner.inRun = true) (ht : s.thread = .finished)
    (hst : s.step a = some s') : s'.owner.inRun = true ∧ s'.thread = .finished := by
  have hloop : s.loop = false := h.loop.trans (ht ▸ rfl)
  obtain ⟨-, hst⟩ := guard_bind_eq_some_iff.mp hst
  cases a with
  | owner =>
      cases ho : s.owner with
      | testing =>
          rcases (hands_testing h ho hst).2 with ⟨hl, -⟩ | ⟨-, ho'⟩
          · exact nomatch hloop.symm.trans hl
          · refine ⟨ho' ▸ rfl, ?_⟩
            cases ownerStep_of_next hst with
            | found | wait => exact ht
            | run hc | tested hc | skipped hc | nullLoop hc | read hc | quitFailed hc
            | quit _ hc | woken _ hc | join hc => exact nomatch ho.symm.trans hc
            | gone hc =>
                rw [ho] at hc
                exact nomatch hc
      | waiting => simp [ownerNext, ho] at hst
      | constructed | running | exiting | quitting | asserting | waking | joining
      | destroyed =>
          rw [ho] at hin
          exact nomatch hin
  | destroy =>
      obtain ⟨⟨ho, -⟩, -⟩ := guard_bind_eq_some_iff.mp hst
      rw [ho] at hin
      exact nomatch hin
  | spurious =>
      obtain ⟨-, hst⟩ := guard_bind_eq_some_iff.mp hst
      exact Option.some.inj hst ▸ ⟨rfl, ht⟩
  | thread =>
      have hst : s.threadNext = some s' := hst
      simp [threadNext, ht] at hst
  | quit =>
      obtain ⟨-, hst⟩ := guard_bind_eq_some_iff.mp hst
      rcases callQuit_cases hst with ⟨-, rfl⟩ | ⟨-, ev, -, rfl⟩
      · exact ⟨hin, ht⟩
      · exact ⟨hin, ht⟩
  | enqueue t | finish t =>
      obtain ⟨ev, -, rfl⟩ := call_cases hst
      exact ⟨hin, ht⟩

/-- In every run: while the owner waits in `Run`, the thread has still to notify it or has
ended; when the owner tests, `Run` returns exactly if `loop_` is not null; and when the
thread has ended before that, `Run` never returns. -/
theorem run_hands_over {tr : List (LoopThread × ThreadAct)} (hr : Run (stepOf step) init tr s) :
    (s.owner = .waiting → s.thread = .initCb ∨ s.thread = .publishing ∨
      s.thread = .notifying ∨ s.thread = .finished) ∧
    (∀ s', s.owner = .testing → s.step .owner = some s' →
      (s'.owner = .running ↔ s.loop = true)) ∧
    (s.owner.inRun = true → s.thread = .finished →
      ∀ tr' t, Run (stepOf step) s tr' t → t.owner.inRun = true) := by
  have h : s.Hands := hr.invariant hands_init Hands.step
  refine ⟨h.waiting, fun s' ho hst => ?_, fun hin ht tr' t hr' => ?_⟩
  · obtain ⟨-, hst⟩ := guard_bind_eq_some_iff.mp hst
    rcases (hands_testing h ho hst).2 with ⟨hl, ho'⟩ | ⟨hl, ho'⟩
    · exact iff_of_true ho' hl
    · exact iff_of_false (ho' ▸ nofun) (hl ▸ nofun)
  · have hall : t.Hands ∧ t.owner.inRun = true ∧ t.thread = .finished := by
      refine hr'.invariant (I := fun t => t.Hands ∧ t.owner.inRun = true ∧ t.thread = .finished)
        ⟨h, hin, ht⟩ ?_
      rintro t a u ⟨h, hin, ht⟩ hst
      exact ⟨h.step hst, h.stuck_step hin ht hst⟩
    exact hall.2.1

/-- A handler quits the loop, and the thread has ended before the owner, which was notified, has
the mutex again. -/
def quitBeforeRun : List ThreadAct :=
  [.owner, .owner, .thread, .thread, .thread, .thread, .thread, .thread, .thread, .quit,
    .finish 1, .thread, .thread, .thread, .thread, .thread, .thread, .thread]

theorem quitBeforeRun_hangs : ∃ tr s, runAll step init quitBeforeRun = some (tr, s) ∧
    s.owner = .testing ∧ ∀ tr' t, Run (stepOf step) s tr' t → t.owner.inRun = true := by
  obtain ⟨tr, s, hrun, ho, ht⟩ : ∃ tr s, runAll step init quitBeforeRun = some (tr, s) ∧
      s.owner = .testing ∧ s.thread = .finished :=
    exists_computed (by decide)
  exact ⟨tr, s, hrun, ho, (run_hands_over (run_of_runAll hrun)).2.2 (ho ▸ rfl) ht⟩

end LoopThread

end Muduo
