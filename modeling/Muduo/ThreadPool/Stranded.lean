/-
# `Muduo.ThreadPool.Stranded` — producers that wait while there is room

`Take` notifies one producer, and only when it takes a task from a full queue.
While the producer that was notified is on its way a second task may be taken
without a notification; it then fills one place of two, and another producer
goes on waiting although there is room, with nobody to wake it up.

`stranded_iff` says that this is the only way: no producer is ever stranded
exactly in the runs in which the last producer that holds a notification finds
at most one free place when others still wait.
-/
import Muduo.ThreadPool.Model

namespace Muduo

open CondVar Runs

variable {Task : Type}

namespace ThreadPool

variable {s s' : ThreadPool Task} {a : PoolStep Task} {m n k : ℕ}

/-- A producer waits on `notFullCv_`, none holds a notification, and the queue
of the running pool has room. -/
def Stranded (s : ThreadPool Task) : Prop :=
  s.running = true ∧ s.producers.any Producer.waits = true ∧
    s.producers.any Producer.notified = false ∧ s.taskQueue.length < s.maxQueueSize

instance (s : ThreadPool Task) : Decidable s.Stranded := inferInstanceAs (Decidable (_ ∧ _))

/-- The producers other than `p`. -/
def others (s : ThreadPool Task) (p : ℕ) : List (Producer Task) := s.producers.set p .idle

/-- Producer `p` holds a notification, and it is the only one. -/
def LastNotified (s : ThreadPool Task) (p : ℕ) : Prop :=
  s.producers[p]?.map Producer.notified = some true ∧
    (s.others p).any Producer.notified = false

instance (s : ThreadPool Task) (p : ℕ) : Decidable (s.LastNotified p) :=
  inferInstanceAs (Decidable (_ ∧ _))

/-- When the last producer that holds a notification comes back from its wait
and another one waits, the queue is at most one task short of full. -/
def OneFreeAtMost (s : ThreadPool Task) : PoolStep Task → Prop
  | .resume p _ => s.running = true → s.LastNotified p →
      (s.others p).any Producer.waits = true → s.maxQueueSize ≤ s.taskQueue.length + 1
  | _ => True

instance (s : ThreadPool Task) : (a : PoolStep Task) → Decidable (s.OneFreeAtMost a)
  | .resume _ _ => inferInstanceAs (Decidable (_ → _))
  | .run _ _ _ | .spuriousProducer _ | .take _ _ | .spuriousWorker _ | .test _ | .done _ | .stop =>
      inferInstanceAs (Decidable True)

theorem not_stranded_started (m n k : ℕ) : ¬ (started m n k : ThreadPool Task).Stranded := by
  rintro ⟨-, hw, -⟩
  simp [started, Producer.waits] at hw

/-- The return of a woken producer strands another one exactly where it was the
last to hold a notification and leaves room. -/
theorem stranded_resumed {p : ℕ} {t : Option Task} {b : Bool} {w : Option ℕ}
    {pool : List (Worker Task)} {ok : Bool} (hs : ¬ s.Stranded) (hrun : s.running = true)
    (hp : s.producers[p]? = some (.woken t b)) :
    s.OneFreeAtMost (.resume p w) ↔
      ¬ ({ s with producers := s.others p, asserted := ok, taskQueue := s.taskQueue ++ [t], pool } :
        ThreadPool Task).Stranded := by
  have hwaits : (s.others p).any Producer.waits = s.producers.any Producer.waits := any_set hp rfl
  constructor
  · rintro hg ⟨-, hw, hn, hlen⟩
    simp only [List.length_append, List.length_singleton] at hlen
    cases b with
    | true =>
        have hlast : s.LastNotified p := ⟨by simp [hp, Producer.notified], hn⟩
        have := hg hrun hlast hw
        omega
    | false =>
        -- nobody held a notification before
        have hnone : (s.others p).any Producer.notified = s.producers.any Producer.notified :=
          any_set hp rfl
        exact hs ⟨hrun, hwaits ▸ hw, hnone ▸ hn, by omega⟩
  · intro hs' _ hlast hw
    by_contra hlen
    exact hs' ⟨hrun, hw, hlast.2, by simp only [List.length_append, List.length_singleton]; omega⟩

/-- From a state in which no producer is stranded a step leads to another one
if and only if it meets the condition. -/
theorem stranded_step (hs : ¬ s.Stranded) (hst : s.step a = some s') :
    s.OneFreeAtMost a ↔ ¬ s'.Stranded := by
  cases steps_of_step hst with
  | resumed p w t b pool hp hrun => exact stranded_resumed hs hrun hp
  | turnedAway p w t b hp hrun =>
      refine iff_of_true (fun h => ?_) fun h => ?_
      · exact absurd (hrun.symm.trans h) nofun
      · exact absurd (hrun.symm.trans h.1) nofun
  | notQueued => exact iff_of_true trivial hs
  | block p t w hp hfull hrun =>
      refine iff_of_true trivial fun h => ?_
      have hlen := h.2.2.2
      simp only [isFull, decide_eq_true_eq] at hfull
      simp only at hlen
      omega
  | enter p t w pool hroom hrun =>
      refine iff_of_true trivial fun h => hs ⟨h.1, h.2.1, h.2.2.1, ?_⟩
      have hlen := h.2.2.2
      simp only [List.length_append, List.length_singleton] at hlen
      omega
  | spuriousProducer p t hp =>
      have hsame : (s.producers.set p (.woken t false)).any Producer.notified =
          s.producers.any Producer.notified := any_set hp rfl
      exact iff_of_true trivial fun h =>
        hs ⟨h.1, any_of_getElem? hp rfl, hsame.symm.trans h.2.2.1, h.2.2.2⟩
  | taken i p t ts pool hq hn =>
      refine iff_of_true trivial fun h => hs ⟨h.1, h.2.1, h.2.2.1, ?_⟩
      have hlen := h.2.2.2
      simp only at hlen
      rw [hq, List.length_cons]
      omega
  | takenNotify i p t ts pool producers hq hn =>
      refine iff_of_true trivial fun h => ?_
      rcases notifyOne_cases hn with ⟨hw, rfl⟩ | ⟨j, x, hx, hw, rfl⟩
      · exact absurd (hw.symm.trans h.2.1) nofun
      · have hwoken : Producer.notified x.wake = true := by
          cases x with
          | waiting t => rfl
          | idle | woken => exact nomatch hw
        exact absurd ((any_set_self hx hwoken).symm.trans h.2.2.1) nofun
  | worker _ pool ha =>
      refine iff_of_true ?_ hs
      cases a with
      | resume p w => exact absurd rfl (ha p w)
      | _ => trivial
  | stop => exact iff_of_true trivial fun h => nomatch h.1

/-- No state of a run has a stranded producer if and only if every step of the
run meets the condition. -/
theorem stranded_iff {tr : List (ThreadPool Task × PoolStep Task)}
    (hr : Run (stepOf step) (started m n k) tr s) :
    (∀ p ∈ tr, OneFreeAtMost p.1 p.2) ↔ (∀ p ∈ tr, ¬ p.1.Stranded) ∧ ¬ s.Stranded := by
  refine hr.forall_iff_of_step (I := fun _ => True) (P := fun s => ¬ Stranded s) trivial
    (not_stranded_started m n k) (fun _ _ => trivial) ?_
  intro t a u _ ht hst
  exact stranded_step ht hst

/-- Two producers wait for two places that come free one after the other. -/
def oneByOne : List (PoolStep ℕ) :=
  [.test 0, .run 0 (some 1) none, .run 0 (some 2) none, .run 1 (some 3) none, .run 2 (some 4) none,
    .take 0 (some 1), .resume 1 none, .done 0, .test 0, .take 0 (some 2), .resume 2 none]

theorem oneByOne_served :
    ∃ tr s, runAll step (started 2 1 3) oneByOne = some (tr, s) ∧
      s.producers = [.idle, .idle, .idle] ∧ (∀ p ∈ tr, ¬ p.1.Stranded) ∧ ¬ s.Stranded := by
  obtain ⟨tr, s, hrun, hok, hp⟩ : ∃ tr s, runAll step (started 2 1 3) oneByOne = some (tr, s) ∧
      (∀ p ∈ tr, OneFreeAtMost p.1 p.2) ∧ s.producers = [.idle, .idle, .idle] :=
    exists_computed (by decide)
  obtain ⟨htr, hs⟩ := (stranded_iff (run_of_runAll hrun)).mp hok
  exact ⟨tr, s, hrun, hp, htr, hs⟩

/-- Both tasks are taken before the producer notified first goes on. -/
def twoAtOnce : List (PoolStep ℕ) :=
  [.test 0, .test 1, .run 0 (some 1) none, .run 0 (some 2) none, .run 1 (some 3) none,
    .run 2 (some 4) none, .take 0 (some 1), .take 1 none, .resume 1 none]

theorem twoAtOnce_strands :
    ∃ tr s, runAll step (started 2 2 3) twoAtOnce = some (tr, s) ∧ s.Stranded :=
  exists_computed (by decide)

end ThreadPool

end Muduo
