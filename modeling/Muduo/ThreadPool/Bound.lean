/-
# `Muduo.ThreadPool.Bound` — the length of the task queue

`Run` tests `IsFull()` once and then waits once: between the notification and
the moment the producer has the mutex again another producer may have filled
the queue, and without a notification it may never have had room.  `IsFull`
tests for equality, so that one task too many switches the bound off.

`bounded_iff` says that nothing else can go wrong: the bound holds, and with it
the assertion in `Run`, exactly in the runs in which no producer comes back
from its wait to a full queue.
-/
import Muduo.ThreadPool.Model

namespace Muduo

open Runs

variable {Task : Type}

namespace ThreadPool

variable {s s' : ThreadPool Task} {a : PoolStep Task} {m n k : ℕ}

/-- A producer that comes back from `notFullCv_.wait` does not find the
condition true that it waited on. -/
def RoomOnReturn (s : ThreadPool Task) : PoolStep Task → Prop
  | .resume _ _ => ¬ (s.isFull = true ∧ s.running = true)
  | _ => True

instance (s : ThreadPool Task) : (a : PoolStep Task) → Decidable (s.RoomOnReturn a)
  | .resume _ _ => inferInstanceAs (Decidable (¬ _))
  | .run _ _ _ | .spuriousProducer _ | .take _ _ | .spuriousWorker _ | .test _ | .done _ | .stop =>
      inferInstanceAs (Decidable True)

/-- At most `m` tasks are queued, and no assertion in `Run` has failed. -/
def Bounded (m : ℕ) (s : ThreadPool Task) : Prop :=
  s.taskQueue.length ≤ m ∧ s.asserted = true

instance (m : ℕ) (s : ThreadPool Task) : Decidable (s.Bounded m) :=
  inferInstanceAs (Decidable (_ ∧ _))

theorem maxQueueSize_step (h : s.step a = some s') : s'.maxQueueSize = s.maxQueueSize := by
  cases steps_of_step h <;> rfl

/-- Room for one more. -/
theorem lt_of_not_isFull (hm : 0 < s.maxQueueSize) (hlen : s.taskQueue.length ≤ s.maxQueueSize)
    (hfull : s.isFull = false) : s.taskQueue.length < s.maxQueueSize := by
  simp only [isFull, decide_eq_false_iff_not] at hfull
  omega

/-- A step that meets the condition keeps the bound. -/
theorem Bounded.step (hm : 0 < s.maxQueueSize) (h : s.Bounded s.maxQueueSize)
    (hg : s.RoomOnReturn a) (hst : s.step a = some s') : s'.Bounded s.maxQueueSize := by
  obtain ⟨hlen, hok⟩ := h
  cases steps_of_step hst with
  | notQueued | block | turnedAway | spuriousProducer | worker | stop => exact ⟨hlen, hok⟩
  | enter p t w pool hroom hrun =>
      have hlt := lt_of_not_isFull hm hlen hroom
      refine ⟨?_, by simp [hok, hroom]⟩
      simp only [List.length_append, List.length_singleton]
      omega
  | resumed p w t n pool hp hrun =>
      have hroom : s.isFull = false := by simpa [RoomOnReturn, hrun] using hg
      have hlt := lt_of_not_isFull hm hlen hroom
      refine ⟨?_, by simp [hok, hroom]⟩
      simp only [List.length_append, List.length_singleton]
      omega
  | taken i p t ts pool hq | takenNotify i p t ts pool producers hq =>
      rw [hq, List.length_cons] at hlen
      exact ⟨by simp only; omega, hok⟩

/-- A failed assertion stays on record, and a step that does not meet the
condition is one. -/
theorem roomOnReturn_of_asserted (hst : s.step a = some s') (h : s'.asserted = true) :
    s.asserted = true ∧ s.RoomOnReturn a := by
  cases steps_of_step hst with
  | notQueued | block | spuriousProducer | taken | takenNotify | stop => exact ⟨h, trivial⟩
  | turnedAway p w t n hp hrun => exact ⟨h, by simp [RoomOnReturn, hrun]⟩
  | enter p t w pool hroom hrun => exact ⟨(Bool.and_eq_true_iff.mp h).1, trivial⟩
  | resumed p w t n pool hp hrun =>
      obtain ⟨hok, hroom⟩ := Bool.and_eq_true_iff.mp h
      exact ⟨hok, by simpa [RoomOnReturn] using fun hfull => absurd hroom (by simp [hfull])⟩
  | worker _ pool ha =>
      refine ⟨h, ?_⟩
      cases a with
      | resume p w => exact absurd rfl (ha p w)
      | _ => trivial

/-- A run of a pool of `n` threads with `k` producers. -/
abbrev ProducerRun (m n k : ℕ) (tr : List (ThreadPool Task × PoolStep Task))
    (s : ThreadPool Task) : Prop :=
  Run (stepOf step) (started m n k) tr s

/-- With a bound of `m > 0`: the queue never holds more than `m` tasks and the
assertion before `push_back` never fails, if and only if no producer of the run
comes back from its wait to a full queue of a running pool. -/
theorem bounded_iff {tr : List (ThreadPool Task × PoolStep Task)} (hm : 0 < m)
    (hr : ProducerRun m n k tr s) :
    (∀ p ∈ tr, RoomOnReturn p.1 p.2) ↔ (∀ p ∈ tr, p.1.Bounded m) ∧ s.Bounded m := by
  refine hr.forall_iff_of_step (I := fun s => s.maxQueueSize = m) (P := Bounded m)
    (G := RoomOnReturn) rfl ⟨Nat.zero_le m, rfl⟩
    (fun hmax hst => (maxQueueSize_step hst).trans hmax) ?_
  intro t a u hmax ht hst
  constructor
  · intro hg
    exact hmax ▸ Bounded.step (hmax ▸ hm) (hmax ▸ ht) hg hst
  · intro hu
    exact (roomOnReturn_of_asserted hst hu.2).2

/-- One thread, two producers, room for one task: the second producer waits and
is notified before it goes on. -/
def oneWaits : List (PoolStep ℕ) :=
  [.test 0, .run 0 (some 7) none, .run 1 (some 8) none, .take 0 (some 1), .resume 1 none, .done 0,
    .test 0, .take 0 none]

theorem oneWaits_bounded :
    ∃ tr s, runAll step (started 1 1 2) oneWaits = some (tr, s) ∧ s.taskQueue = [] ∧
      (∀ p ∈ tr, p.1.Bounded 1) ∧ s.Bounded 1 := by
  obtain ⟨tr, s, hrun, hok, hq⟩ : ∃ tr s, runAll step (started 1 1 2) oneWaits = some (tr, s) ∧
      (∀ p ∈ tr, RoomOnReturn p.1 p.2) ∧ s.taskQueue = [] :=
    exists_computed (by decide)
  obtain ⟨htr, hs⟩ := (bounded_iff (by decide) (run_of_runAll hrun)).mp hok
  exact ⟨tr, s, hrun, hq, htr, hs⟩

/-- Producer 2 comes between the notification of producer 1 and its return. -/
def overtaken : List (PoolStep ℕ) :=
  [.test 0, .run 0 (some 7) none, .run 1 (some 8) none, .take 0 (some 1), .run 2 (some 9) none,
    .resume 1 none]

theorem overtaken_exceeds :
    ∃ tr s, runAll step (started 1 1 3) overtaken = some (tr, s) ∧ s.taskQueue.length = 2 ∧
      s.asserted = false :=
  exists_computed (by decide)

end ThreadPool

end Muduo
