/-
# `Muduo.ThreadPool.Stop` — Stop returns

`Stop` clears `running_`, wakes everyone up and joins the threads.  From then on
nobody goes to sleep again: `Take` comes back from an empty queue, and `Run` does not
wait.  So each thread has only a few steps left (`left`), and as long as it has not
ended it can take the next one:

    waiting, woken, taking     Take, the task, the test
    working                    the end of the task, the test
    testing                    the test

Tasks that are still queued may be left there: a thread tests `running_` before it
comes back to the queue.
-/
import Muduo.ThreadPool.Workers

namespace Muduo

open CondVar Runs

variable {Task : Type}

namespace ThreadPool

variable {s s' : ThreadPool Task} {a : PoolStep Task} {m n k : ℕ}

/-- How many steps a thread has left once the pool has stopped. -/
def left : Worker Task → ℕ
  | .exited => 0
  | .testing => 1
  | .working _ => 2
  | .waiting | .woken | .taking => 3

/-- How many of them thread `i` has left. -/
def leftOf (ws : List (Worker Task)) (i : ℕ) : ℕ := (ws[i]?).elim 0 left

/-- The steps of thread `i` of the pool. -/
def ofThread (i : ℕ) : PoolStep Task → Bool
  | .take j _ | .spuriousWorker j | .test j | .done j => j = i
  | .run _ _ _ | .resume _ _ | .spuriousProducer _ | .stop => false

/-- The pool has stopped, and nobody sleeps. -/
structure Stopped (s : ThreadPool Task) : Prop where
  running : s.running = false
  workers : s.pool.any Worker.waits = false
  producers : s.producers.any Producer.waits = false

theorem any_notifyAll {σ : Type} {waits : σ → Bool} {wake : σ → σ}
    (hw : ∀ x, waits x = true → waits (wake x) = false) (ts : List σ) :
    (notifyAll waits wake ts).any waits = false := by
  refine List.any_eq_false.mpr fun x hx => ?_
  obtain ⟨y, -, rfl⟩ := List.mem_map.mp hx
  cases hy : waits y with
  | true =>
      rw [if_pos rfl, hw y hy]
      decide
  | false =>
      rw [if_neg (by decide), hy]
      decide

theorem stopped_stop (hst : s.step .stop = some s') : s'.Stopped := by
  obtain ⟨_, -, h⟩ := Option.bind_eq_some_iff.mp (show s.stop = some s' from hst)
  obtain rfl := Option.some.inj h
  refine ⟨rfl, any_notifyAll (fun x hx => ?_) _, any_notifyAll (fun x hx => ?_) _⟩
  · cases x with
    | waiting => rfl
    | testing | taking | woken | working | exited => exact nomatch hx
  · cases x with
    | waiting => rfl
    | idle | woken => exact nomatch hx

/-- No producer goes to sleep. -/
theorem Stopped.producers_step (h : s.Stopped) (hst : s.step a = some s') :
    s'.producers.any Producer.waits = false := by
  have hno : ∀ {p : ℕ} {x : Producer Task}, s.producers[p]? = some x → x.waits = false := by
    intro p x hx
    exact Bool.eq_false_iff.mpr (List.any_eq_false.mp h.producers x (List.mem_of_getElem? hx))
  have hrun : s.running ≠ true := by
    rw [h.running]
    decide
  cases steps_of_step hst with
  | notQueued | taken | worker => exact h.producers
  | block _ _ _ _ _ hr | enter _ _ _ _ _ hr | resumed _ _ _ _ _ _ hr => exact absurd hr hrun
  | turnedAway p w t b hp =>
      have hset : (s.producers.set p .idle).any Producer.waits = s.producers.any Producer.waits :=
        any_set hp rfl
      exact hset.trans h.producers
  | spuriousProducer p t hp => exact absurd (hno hp) nofun
  | takenNotify i p t ts pool producers hq hn =>
      rcases notifyOne_cases hn with ⟨hany, rfl⟩ | ⟨j, x, hx, hw, -⟩
      · exact hany
      · exact absurd (hw.symm.trans (hno hx)) nofun
  | stop =>
      exact (stopped_stop hst).producers

/-- A thread that goes on pays for it, and the others are left alone. -/
theorem leftOf_set {ws : List (Worker Task)} {i : ℕ} {x y : Worker Task} (hx : ws[i]? = some x)
    (hxy : left y + 1 ≤ left x) (j : ℕ) :
    leftOf (ws.set i y) j + (if i = j then 1 else 0) ≤ leftOf ws j := by
  unfold leftOf
  by_cases hj : i = j
  · subst hj
    rw [List.getElem?_set_self (List.getElem?_eq_some_iff.mp hx).1, hx, if_pos rfl]
    exact hxy
  · rw [List.getElem?_set_ne hj, if_neg hj]
    exact Nat.le_refl _

/-- A thread of the pool comes nearer to its end with each of its steps, and does not sleep. -/
theorem Stopped.workers_step (h : s.Stopped) (hst : s.step a = some s') :
    s'.running = false ∧ s'.pool.any Worker.waits = false ∧
      ∀ j, leftOf s'.pool j + (if ofThread j a then 1 else 0) ≤ leftOf s.pool j := by
  have hno : ∀ {i : ℕ} {x : Worker Task}, s.pool[i]? = some x → x.waits = false := by
    intro i x hx
    exact Bool.eq_false_iff.mpr (List.any_eq_false.mp h.workers x (List.mem_of_getElem? hx))
  have hrun : s.running ≠ true := by
    rw [h.running]
    decide
  have hthree : ∀ {x : Worker Task}, x.takes = true → left x = 3 := by
    intro x ht
    cases x with
    | taking | woken => rfl
    | testing | waiting | working | exited => exact nomatch ht
  cases works_of_step hst with
  | others hpool hq hr ha =>
      refine ⟨hr.trans h.running, hpool ▸ h.workers, fun j => ?_⟩
      have hw : ofThread j a = false := by
        rcases ha with ⟨p, t, w, rfl⟩ | ⟨p, w, rfl⟩ | ⟨p, rfl⟩
        · rfl
        · rfl
        · rfl
      rw [hpool, hw]
      exact Nat.le_refl _
  | queued _ _ hr | sleeps _ _ _ _ _ hr | stopped hr => exact absurd hr hrun
  | @takes _ x i p t ts hx ht hq hpool hq' hr =>
      have hle : left (workerOf t) + 1 ≤ left x := by
        rw [hthree ht]
        cases t with
        | none => exact Nat.le_succ 2
        | some t => exact Nat.le_refl 3
      refine ⟨hr.trans h.running, ?_, fun j => ?_⟩
      · rw [hpool]
        exact (any_set hx ((wokenOne_workerOf t).2.1.trans (hno hx).symm)).trans h.workers
      · rw [hpool]
        simpa only [ofThread, decide_eq_true_eq] using leftOf_set hx hle j
  | @leaves x i p hx ht hq hr =>
      have hle : left (Worker.testing : Worker Task) + 1 ≤ left x := by
        rw [hthree ht]
        exact Nat.le_succ 2
      refine ⟨h.running, (any_set hx (hno hx).symm).trans h.workers, fun j => ?_⟩
      simpa only [setWorker, ofThread, decide_eq_true_eq] using leftOf_set hx hle j
  | @moved _ x y i hx hg ha =>
      have hxy : left y + 1 ≤ left x ∧ y.waits = false := by
        rw [h.running] at hg
        cases hg with
        | woken => exact absurd (hno hx) nofun
        | ended => exact ⟨Nat.le_refl _, rfl⟩
        | done t => exact ⟨Nat.le_refl _, rfl⟩
      refine ⟨h.running, (any_set hx (hxy.2.trans (hno hx).symm)).trans h.workers, fun j => ?_⟩
      have hw : ofThread j a = decide (i = j) := by
        rcases ha with rfl | rfl | rfl
        · rfl
        · rfl
        · rfl
      rw [hw]
      simpa only [setWorker, decide_eq_true_eq] using leftOf_set hx hxy.1 j

theorem Stopped.step (h : s.Stopped) (hst : s.step a = some s') : s'.Stopped :=
  ⟨(h.workers_step hst).1, (h.workers_step hst).2.1, h.producers_step hst⟩

/-- Either the pool runs, or it has stopped for good. -/
theorem stopped_step (h : s.running = true ∨ s.Stopped) (hst : s.step a = some s') :
    s'.running = true ∨ s'.Stopped := by
  rcases h with hrun | h
  · cases a with
    | stop => exact .inr (stopped_stop hst)
    | take =>
        left
        cases works_of_step hst with
        | others _ _ hr | takes _ _ _ _ _ _ _ _ _ hr => exact hr.trans hrun
        | queued _ _ _ _ _ hr => exact hr
        | sleeps | leaves | moved => exact hrun
    | run | resume | spuriousProducer | spuriousWorker | test | done =>
        left
        cases works_of_step hst with
        | others _ _ hr => exact hr.trans hrun
        | queued _ _ _ _ _ hr => exact hr
        | moved => exact hrun
  · exact .inr (h.step hst)

/-- The steps that a thread of a stopped pool takes are paid for. -/
theorem Stopped.steps_left (h : s.Stopped) {t : ThreadPool Task}
    {tr : List (ThreadPool Task × PoolStep Task)} (hr : Run (stepOf ThreadPool.step) s tr t)
    (i : ℕ) : tr.countP (fun p => ofThread i p.2) + leftOf t.pool i ≤ leftOf s.pool i := by
  have hle := hr.countP_add_rank_le (I := Stopped) (D := fun _ => False) (G := fun _ _ => True)
    (r := fun s => leftOf s.pool i) (c := ofThread i) (fun _ _ => trivial) h Stopped.step
    (fun _ hd => hd.elim) fun ht _ _ hst => .inr (by
      have hstep := (ht.workers_step hst).2.2 i
      omega)
  exact hle.resolve_left id

/-- With no producer asleep, `notify_one` is for nobody. -/
theorem notifyNotFull_none (h : s.producers.any Producer.waits = false) :
    ∃ t, s.notifyNotFull none = some t := by
  unfold notifyNotFull
  split
  · refine ⟨s, Option.bind_eq_some_iff.mpr ⟨s.producers, ?_, rfl⟩⟩
    show (if s.producers.any Producer.waits then none else some s.producers) = _
    rw [h]
    rfl
  · exact ⟨s, rfl⟩

/-- A thread that has not ended can go on. -/
theorem Stopped.progress (h : s.Stopped) {i : ℕ} {w : Worker Task} (hi : s.pool[i]? = some w)
    (hne : w ≠ .exited) : ∃ a t, ofThread i a = true ∧ s.step a = some t := by
  have hself : decide (i = i) = true := decide_eq_true rfl
  have htake : w.takes = true → ∃ t, s.step (.take i none) = some t := by
    intro ht
    show ∃ t, s.take i none = some t
    unfold take
    rw [hi]
    simp only [Option.map_some, ht]
    cases s.taskQueue with
    | nil => exact ⟨_, rfl⟩
    | cons t ts => exact notifyNotFull_none h.producers
  cases w with
  | exited => exact absurd rfl hne
  | waiting => exact absurd h.workers (by rw [any_of_getElem? hi rfl]; decide)
  | taking | woken =>
      obtain ⟨t, ht⟩ := htake rfl
      exact ⟨.take i none, t, hself, ht⟩
  | testing =>
      refine ⟨.test i, s.setWorker i .exited, hself, ?_⟩
      show s.test i = _
      simp only [ThreadPool.test, hi, h.running]
      rfl
  | working t =>
      refine ⟨.done i, s.setWorker i .testing, hself, ?_⟩
      show s.done i = _
      simp only [ThreadPool.done, hi]

theorem leftOf_le (ws : List (Worker Task)) (i : ℕ) : leftOf ws i ≤ 3 := by
  unfold leftOf
  cases ws[i]? with
  | none => exact Nat.zero_le 3
  | some w =>
      cases w with
      | exited => exact Nat.zero_le 3
      | testing => exact Nat.le_add_left 1 2
      | working => exact Nat.le_succ 2
      | waiting | woken | taking => exact Nat.le_refl 3

/-- `Stop` returns as soon as the tasks that are being run do: after it nobody sleeps on one of
the condition variables, ever, each thread of the pool takes at most three more steps, whatever
producers do meanwhile, and as long as it has not ended it can go on. -/
theorem stop_returns {tr : List (ThreadPool Task × PoolStep Task)}
    (hr : Run (stepOf step) (started m n k) tr s) (hrun : s.running = false)
    {tr' : List (ThreadPool Task × PoolStep Task)} {t : ThreadPool Task}
    (hr' : Run (stepOf step) s tr' t) :
    t.Stopped ∧ (∀ i, tr'.countP (fun p => ofThread i p.2) ≤ 3) ∧
      ∀ (i : ℕ) (w : Worker Task), t.pool[i]? = some w → w ≠ .exited →
        ∃ a u, ofThread i a = true ∧ t.step a = some u := by
  have hor : s.running = true ∨ s.Stopped :=
    hr.invariant (I := fun s => s.running = true ∨ s.Stopped) (.inl rfl) stopped_step
  have h : s.Stopped := hor.resolve_left fun ht => absurd (hrun.symm.trans ht) nofun
  have ht : t.Stopped := hr'.invariant h Stopped.step
  refine ⟨ht, fun i => ?_, fun i w hi hne => ht.progress hi hne⟩
  have hle := h.steps_left hr' i
  have hbound := leftOf_le s.pool i
  omega

/-- A pool of two threads is stopped while one is in a task and the other sleeps. -/
def stoppedBusy : List (PoolStep ℕ) :=
  [.test 0, .test 1, .take 1 none, .run 0 (some 7) (some 1), .take 0 none, .stop]

theorem stoppedBusy_returns : ∃ tr s tr' t,
    runAll step (started 0 2 1) stoppedBusy = some (tr, s) ∧ s.running = false ∧
      runAll step s [.done 0, .take 1 none, .test 1, .test 0] = some (tr', t) ∧
        t.pool = [.exited, .exited] ∧ ∀ i, tr'.countP (fun p => ofThread i p.2) ≤ 3 := by
  obtain ⟨tr, s, hrun, hr, tr', t, hrun', hpool⟩ : ∃ tr s,
      runAll step (started 0 2 1) stoppedBusy = some (tr, s) ∧ s.running = false ∧
        ∃ tr' t, runAll step s [.done 0, .take 1 none, .test 1, .test 0] = some (tr', t) ∧
          t.pool = [.exited, .exited] :=
    ⟨_, _, rfl, rfl, _, _, rfl, rfl⟩
  have hstop := stop_returns (run_of_runAll hrun) hr (run_of_runAll hrun')
  exact ⟨tr, s, tr', t, hrun, hr, hrun', hpool, hstop.2.1⟩

end ThreadPool

end Muduo
