/-
# `Muduo.AsyncLog.Wait` — what the back thread waits for

`Append` notifies with the comment "buffers is non-empty now, notifies
back-thread", but the loop around `wait_for` goes on while the queue is not empty:

    while (!buffers_.empty() && status == no_timeout)

So each time the loop's condition is left to the queue it goes the wrong way.

    buffers_     the thread                     when it should
    not empty    waits for flushInterval_       take the batch
    empty        takes currentBuffer_ at once   wait

Only the timeout ends the wait, and a wait that has timed out was no wait for
anything: a run is right exactly when the queue never decides
(`conducts_iff_queue_never_decides`).
-/
import Muduo.AsyncLog.Queue

namespace Muduo

open Runs

namespace AsyncLogger

variable {SIZE : ℕ} {s s' : AsyncLogger SIZE} {a : LogAct}

/-- The thread does not go to wait while `buffers_` is not empty, and takes
`currentBuffer_` only when `buffers_` is not empty or a `wait_for` has returned. -/
def Conducts (s : AsyncLogger SIZE) (a : LogAct) : Prop :=
  match a with
  | .back _ => ∀ s' ∈ s.step a,
      (s'.point = .waiting → s.buffers = []) ∧ (s'.point = .swapped → s.buffers ≠ [])
  | .wake _ => ∀ s' ∈ s.step a, s'.point = .waiting → s.buffers = []
  | .append _ | .start | .stop | .join => True

instance (s : AsyncLogger SIZE) : (a : LogAct) → Decidable (s.Conducts a)
  | .back now => inferInstanceAs (Decidable (∀ s' ∈ s.step (.back now),
      (s'.point = .waiting → s.buffers = []) ∧ (s'.point = .swapped → s.buffers ≠ [])))
  | .wake timeout => inferInstanceAs (Decidable (∀ s' ∈ s.step (.wake timeout),
      s'.point = .waiting → s.buffers = []))
  | .append _ | .start | .stop | .join => inferInstanceAs (Decidable True)

/-- The condition of the loop is evaluated, and `status` is `no_timeout`. -/
def QueueDecides (s : AsyncLogger SIZE) : LogAct → Prop
  | .back _ => s.point = .locking
  | .wake timeout => timeout = false
  | .append _ | .start | .stop | .join => False

instance (s : AsyncLogger SIZE) : (a : LogAct) → Decidable (s.QueueDecides a)
  | .back _ => inferInstanceAs (Decidable (s.point = .locking))
  | .wake timeout => inferInstanceAs (Decidable (timeout = false))
  | .append _ | .start | .stop | .join => inferInstanceAs (Decidable False)

/-- The thread is asleep only while there is something to write. -/
def SleepsFull (s : AsyncLogger SIZE) : Prop := s.point = .waiting → s.buffers ≠ []

/-! ## What a step does to the wait -/

theorem swap_point (h : s.swap = some s') : s'.point = .swapped := by
  obtain ⟨b, next, new2, -, -, rfl⟩ := swap_cases h
  rfl

theorem waitOrSwap_cases {timeout : Bool} (h : s.waitOrSwap timeout = some s') :
    (s.buffers ≠ [] ∧ timeout = false ∧ s' = { s with point := .waiting }) ∨
      ((s.buffers = [] ∨ timeout = true) ∧ s'.point = .swapped) := by
  unfold waitOrSwap at h
  split at h
  · next hwait => exact .inl ⟨hwait.1, hwait.2, (Option.some.inj h).symm⟩
  · next hwait =>
      refine .inr ⟨?_, swap_point h⟩
      rw [not_and_or, not_not, Bool.not_eq_false] at hwait
      exact hwait

/-- Outside its critical section the back thread neither waits nor swaps. -/
theorem back_point {now : String} (h : s.back now = some s') (hp : s.point ≠ .locking) :
    s'.point ≠ .waiting ∧ s'.point ≠ .swapped := by
  have hw : s.point ≠ .waiting := by
    intro hw
    simp [back, hw] at h
  cases backStep_of_back h with
  | begin | enter | leave | write => exact ⟨BackPoint.noConfusion, BackPoint.noConfusion⟩
  | wait hin | swap hin =>
      rcases hin with hin | hin
      · exact absurd hin hp
      · exact absurd hin hw
  | limit now =>
      unfold limit
      split
      · exact ⟨BackPoint.noConfusion, BackPoint.noConfusion⟩
      · exact ⟨BackPoint.noConfusion, BackPoint.noConfusion⟩
  | recycle i hi hb h =>
      obtain ⟨b₁, b₂, -, -, rfl⟩ := recycle_cases h
      exact ⟨BackPoint.noConfusion, BackPoint.noConfusion⟩

theorem SleepsFull.append {line : List Byte} (w : s.SleepsFull) (h : s.append line = some s') :
    s'.SleepsFull := by
  unfold AsyncLogger.append at h
  split at h
  · exact Option.some.inj h ▸ w
  · obtain ⟨_, -, h⟩ := Option.bind_eq_some_iff.mp h
    rw [← Option.some.inj h]
    exact fun _ => List.append_ne_nil_of_right_ne_nil _ (List.cons_ne_nil _ _)

theorem SleepsFull.waitOrSwap {timeout : Bool} (h : s.waitOrSwap timeout = some s') :
    s'.SleepsFull := by
  intro hp
  rcases waitOrSwap_cases h with ⟨hne, -, rfl⟩ | ⟨-, hswap⟩
  · exact hne
  · rw [hswap] at hp
    exact BackPoint.noConfusion hp

theorem SleepsFull.step (w : s.SleepsFull) (h : s.step a = some s') : s'.SleepsFull := by
  cases a with
  | append line => exact w.append h
  | wake timeout => exact SleepsFull.waitOrSwap (guard_bind_eq_some_iff.mp h).2
  | back now =>
      cases hp : s.point with
      | locking =>
          have h : s.waitOrSwap false = some s' := by simpa [AsyncLogger.step, back, hp] using h
          exact SleepsFull.waitOrSwap h
      | notStarted | starting | testing | waiting | swapped | writing | finished =>
          intro hw
          exact absurd hw (back_point h (hp ▸ BackPoint.noConfusion)).1
  | start =>
      cases steps_of_step h with
      | started => exact w
      | start => exact fun hp => BackPoint.noConfusion hp
  | stop =>
      cases steps_of_step h with
      | stop | stopped => exact w
  | join =>
      cases steps_of_step h with
      | join => exact w

theorem sleepsFull_of_run {tr : List (AsyncLogger SIZE × LogAct)}
    (hr : Run (stepOf step) (init SIZE) tr s) : s.SleepsFull :=
  hr.invariant (I := SleepsFull) (fun hp => BackPoint.noConfusion hp) fun w hst => w.step hst

/-! ## When it is right -/

/-- In its critical section, after no timeout: whatever the queue is, the thread is wrong. -/
theorem waitOrSwap_wrong (h : s.waitOrSwap false = some s')
    (hc : s'.point = .waiting → s.buffers = []) : s'.point = .swapped ∧ s.buffers = [] := by
  rcases waitOrSwap_cases h with ⟨hne, -, rfl⟩ | ⟨hor, hswap⟩
  · exact absurd (hc rfl) hne
  · rcases hor with hempty | ht
    · exact ⟨hswap, hempty⟩
    · exact Bool.noConfusion ht

theorem conducts_iff (w : s.SleepsFull) (h : s.step a = some s') :
    s.Conducts a ↔ ¬s.QueueDecides a := by
  cases a with
  | append | start | stop | join => exact ⟨fun _ hd => hd, fun _ => trivial⟩
  | back now =>
      constructor
      · intro hc hd
        have hd : s.point = .locking := hd
        have hwait : s.waitOrSwap false = some s' := by simpa [step, back, hd] using h
        obtain ⟨hw, hs⟩ := hc s' h
        obtain ⟨hswap, hempty⟩ := waitOrSwap_wrong hwait hw
        exact hs hswap hempty
      · intro hd t ht
        obtain rfl := Option.some.inj (h.symm.trans ht)
        obtain ⟨hw, hs⟩ := back_point h hd
        exact ⟨fun hp => absurd hp hw, fun hp => absurd hp hs⟩
  | wake timeout =>
      obtain ⟨hp, hwait⟩ := guard_bind_eq_some_iff.mp h
      constructor
      · intro hc hd
        have hd : timeout = false := hd
        obtain ⟨-, hempty⟩ := waitOrSwap_wrong (hd ▸ hwait) (hc s' h)
        exact w hp hempty
      · intro hd t ht hw
        obtain rfl := Option.some.inj (h.symm.trans ht)
        rcases waitOrSwap_cases hwait with ⟨-, ht, -⟩ | ⟨-, hswap⟩
        · exact absurd ht hd
        · rw [hswap] at hw
          exact BackPoint.noConfusion hw

variable {tr : List (AsyncLogger SIZE × LogAct)}

/-- The thread sleeps and wakes for the right reason in exactly those runs in which the
loop's condition is never left to the queue. -/
theorem conducts_iff_queue_never_decides (hr : Run (stepOf step) (init SIZE) tr s) :
    (∀ p ∈ tr, p.1.Conducts p.2) ↔ ∀ p ∈ tr, ¬p.1.QueueDecides p.2 := by
  refine forall₂_congr fun p hp => ?_
  obtain ⟨pre, post, rfl⟩ := List.append_of_mem hp
  obtain ⟨t, hpre, hst, -⟩ := hr.cut
  exact conducts_iff (sleepsFull_of_run hpre) hst

/-- The back thread has not come to its critical section. -/
def earlyLine : List LogAct := [.start, .append [1, 2], .back "", .back ""]

theorem early_conducts : ∃ tr s, runAll step (init 4) earlyLine = some (tr, s) ∧
    ∀ p ∈ tr, p.1.Conducts p.2 := by
  obtain ⟨tr, s, hrun, hd⟩ : ∃ tr s, runAll step (init 4) earlyLine = some (tr, s) ∧
      ∀ p ∈ tr, ¬p.1.QueueDecides p.2 := exists_computed (by decide +kernel)
  exact ⟨tr, s, hrun, (conducts_iff_queue_never_decides (run_of_runAll hrun)).mpr hd⟩

/-- Nothing is queued and the thread swaps; a buffer is full and it waits. -/
def wrongWay : List LogAct :=
  [.start, .append [1, 2], .back "", .back "", .back "", .back "", .back "", .back "",
    .append [1, 2], .append [3, 4], .back "", .back ""]

theorem waits_with_full_buffers : ∃ tr s, runAll step (init 4) wrongWay = some (tr, s) ∧
    s.point = .waiting ∧ s.buffers ≠ [] ∧
    (∃ p ∈ tr, p.2 = .back "" ∧ p.1.point = .locking ∧ p.1.buffers = [] ∧ ¬p.1.Conducts p.2) ∧
    ¬∀ p ∈ tr, p.1.Conducts p.2 :=
  exists_computed (by decide +kernel)

end AsyncLogger

end Muduo
