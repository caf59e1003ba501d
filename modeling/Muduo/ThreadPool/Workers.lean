/-
# `Muduo.ThreadPool.Workers` — the tasks and the threads that take them

`Steps` says what a step does to the queue and to the producers, `Works` what it does
to the queue and to the threads of the pool: a task comes into the queue with one
notification of `notEmptyCv_`, and a thread takes one or goes to sleep.

    queued    Run: a task behind the others, and notify_one
    takes     Take: the first task
    sleeps    Take: wait, on an empty queue of a running pool
    leaves    Take: back without a task
    moved     the test of the loop, the end of a task, a wake-up
    stopped   Stop
    others    a producer comes, waits or goes away; the queue and the threads are
              left alone

Tasks are taken in the order in which they were accepted (`taken_in_order`).  While a
thread sleeps there are no more tasks than threads that have been woken up
(`Awake`), so that no task is left in the queue while all threads sleep.
-/
import Muduo.Lib.Shares
import Muduo.ThreadPool.Stranded

namespace Muduo

open CondVar Runs

variable {Task : Type}

/-- The task that a producer comes back from its wait with. -/
def Producer.task : Producer Task → List (Option Task)
  | .woken t _ => [t]
  | .idle | .waiting _ => []

namespace ThreadPool

variable {s s' : ThreadPool Task} {a : PoolStep Task} {m n k : ℕ}

/-- What becomes of a thread that has taken a task. -/
def workerOf : Option Task → Worker Task
  | some t => .working t
  | none => .testing

/-- A thread goes on, and neither to sleep nor to the queue. -/
inductive Goes : Worker Task → Bool → Worker Task → Prop
  | woken (running : Bool) : Goes .waiting running .woken
  | again : Goes .testing true .taking
  | ended : Goes .testing false .exited
  | done (t : Task) (running : Bool) : Goes (.working t) running .testing

inductive Works (s : ThreadPool Task) : PoolStep Task → ThreadPool Task → Prop
  | others {a : PoolStep Task} {s' : ThreadPool Task} (hpool : s'.pool = s.pool)
      (hq : s'.taskQueue = s.taskQueue) (hr : s'.running = s.running)
      (ha : (∃ p t w, a = .run p t w) ∨ (∃ p w, a = .resume p w) ∨ ∃ p, a = .spuriousProducer p) :
      Works s a s'
  | queued {a : PoolStep Task} {s' : ThreadPool Task} (t : Option Task) (w : Option ℕ)
      (hrun : s.running = true)
      (hn : notifyOne Worker.waits Worker.wake s.pool w = some s'.pool)
      (hq : s'.taskQueue = s.taskQueue ++ [t]) (hr : s'.running = true)
      (ha : (∃ p, a = .run p t w) ∨ ∃ p b, a = .resume p w ∧ s.producers[p]? = some (.woken t b)) :
      Works s a s'
  | takes {s' : ThreadPool Task} {x : Worker Task} (i : ℕ) (p : Option ℕ) (t : Option Task)
      (ts : List (Option Task)) (hx : s.pool[i]? = some x) (ht : x.takes = true)
      (hq : s.taskQueue = t :: ts) (hpool : s'.pool = s.pool.set i (workerOf t))
      (hq' : s'.taskQueue = ts) (hr : s'.running = s.running) : Works s (.take i p) s'
  | sleeps {x : Worker Task} (i : ℕ) (p : Option ℕ) (hx : s.pool[i]? = some x)
      (ht : x.takes = true) (hq : s.taskQueue = []) (hrun : s.running = true) :
      Works s (.take i p) (s.setWorker i .waiting)
  | leaves {x : Worker Task} (i : ℕ) (p : Option ℕ) (hx : s.pool[i]? = some x)
      (ht : x.takes = true) (hq : s.taskQueue = []) (hrun : s.running = false) :
      Works s (.take i p) (s.setWorker i .testing)
  | moved {a : PoolStep Task} {x y : Worker Task} (i : ℕ) (hx : s.pool[i]? = some x)
      (hg : Goes x s.running y) (ha : a = .spuriousWorker i ∨ a = .test i ∨ a = .done i) :
      Works s a (s.setWorker i y)
  | stopped {s' : ThreadPool Task} (hrun : s.running = true)
      (hpool : s'.pool = notifyAll Worker.waits Worker.wake s.pool)
      (hq : s'.taskQueue = s.taskQueue) (hr : s'.running = false) : Works s .stop s'

theorem push_works {t : Option Task} {w : Option ℕ} (h : s.push t w = some s') :
    s' = s ∨ s.running = true ∧ ∃ pool, notifyOne Worker.waits Worker.wake s.pool w = some pool ∧
      s' = { s with
        asserted := s.asserted && !s.isFull
        taskQueue := s.taskQueue ++ [t]
        pool } := by
  unfold push at h
  split at h
  · exact .inl (Option.some.inj h).symm
  · next hr =>
      obtain ⟨pool, hn, h⟩ := Option.bind_eq_some_iff.mp h
      exact .inr ⟨by simpa using hr, pool, hn, (Option.some.inj h).symm⟩

theorem works_of_step (h : s.step a = some s') : Works s a s' := by
  cases a with
  | run p t w =>
      have ha : (∃ p' t' w', PoolStep.run p t w = .run p' t' w') ∨
          (∃ p' w', PoolStep.run p t w = .resume p' w') ∨
            ∃ p', PoolStep.run p t w = .spuriousProducer p' := .inl ⟨p, t, w, rfl⟩
      have h : s.run p t w = some s' := h
      unfold run at h
      split at h
      · split at h
        · exact Option.some.inj h ▸ .others rfl rfl rfl ha
        · split at h
          · exact Option.some.inj h ▸ .others rfl rfl rfl ha
          · rcases push_works h with rfl | ⟨hrun, pool, hn, rfl⟩
            · exact .others rfl rfl rfl ha
            · exact .queued t w hrun hn rfl hrun (.inl ⟨p, rfl⟩)
      · exact nomatch h
  | resume p w =>
      have h : s.resume p w = some s' := h
      unfold resume at h
      split at h
      · next t b hp =>
          rcases push_works h with rfl | ⟨hrun, pool, hn, rfl⟩
          · exact .others rfl rfl rfl (.inr (.inl ⟨p, w, rfl⟩))
          · exact .queued t w hrun hn rfl hrun (.inr ⟨p, b, rfl, hp⟩)
      · exact nomatch h
  | spuriousProducer p =>
      have h : s.spuriousProducer p = some s' := h
      unfold ThreadPool.spuriousProducer at h
      split at h
      · exact Option.some.inj h ▸ .others rfl rfl rfl (.inr (.inr ⟨p, rfl⟩))
      · exact nomatch h
  | take i p =>
      have h : s.take i p = some s' := h
      unfold take at h
      split at h
      · next htake =>
          obtain ⟨x, hx, ht⟩ := Option.map_eq_some_iff.mp htake
          split at h
          · next hq =>
              cases hr : s.running with
              | true =>
                  rw [hr, if_pos rfl] at h
                  exact Option.some.inj h ▸ .sleeps i p hx ht hq hr
              | false =>
                  rw [hr, if_neg (by decide)] at h
                  exact Option.some.inj h ▸ .leaves i p hx ht hq hr
          · next t ts hq =>
              cases t with
              | none | some =>
                  rcases notifyNotFull_cases h with ⟨-, rfl⟩ | ⟨producers, -, rfl⟩
                  · exact .takes i p _ ts hx ht hq rfl rfl rfl
                  · exact .takes i p _ ts hx ht hq rfl rfl rfl
      · exact nomatch h
  | spuriousWorker i =>
      have h : s.spuriousWorker i = some s' := h
      unfold ThreadPool.spuriousWorker at h
      split at h
      · next hx => exact Option.some.inj h ▸ .moved i hx (.woken _) (.inl rfl)
      · exact nomatch h
  | test i =>
      have h : s.test i = some s' := h
      unfold ThreadPool.test at h
      split at h
      · next hx =>
          refine Option.some.inj h ▸ .moved i hx ?_ (.inr (.inl rfl))
          cases s.running with
          | true => exact .again
          | false => exact .ended
      · exact nomatch h
  | done i =>
      have h : s.done i = some s' := h
      unfold ThreadPool.done at h
      split at h
      · next t hx => exact Option.some.inj h ▸ .moved i hx (.done t _) (.inr (.inr rfl))
      · exact nomatch h
  | stop =>
      obtain ⟨_, hrun, h⟩ := Option.bind_eq_some_iff.mp (show s.stop = some s' from h)
      exact Option.some.inj h ▸ .stopped (assert_eq_some_iff.mp hrun) rfl rfl rfl

/-! ## The order of the tasks -/

/-- The task that a step has queued. -/
def accepted (s : ThreadPool Task) : PoolStep Task → List (Option Task)
  | .run _ t _ => if s.pool ≠ [] ∧ s.isFull = false ∧ s.running = true then [t] else []
  | .resume p _ => if s.running then ((s.producers[p]?).map Producer.task).getD [] else []
  | .spuriousProducer _ | .take _ _ | .spuriousWorker _ | .test _ | .done _ | .stop => []

/-- The task that a step has taken. -/
def taken (s : ThreadPool Task) : PoolStep Task → List (Option Task)
  | .take _ _ => s.taskQueue.take 1
  | .run _ _ _ | .resume _ _ | .spuriousProducer _ | .spuriousWorker _ | .test _ | .done _
  | .stop => []

theorem queue_push {t : Option Task} {w : Option ℕ} (h : s.push t w = some s') :
    s'.taskQueue = s.taskQueue ++ if s.running then [t] else [] := by
  rcases push_cases h with ⟨hr, rfl⟩ | ⟨hr, pool, rfl⟩
  · rw [hr]
    exact (List.append_nil _).symm
  · rw [hr]
    rfl

/-- A step takes in front and queues behind. -/
theorem queue_step (h : s.step a = some s') :
    taken s a ++ s'.taskQueue = s.taskQueue ++ accepted s a := by
  cases a with
  | run p t w =>
      have h : s.run p t w = some s' := h
      unfold run at h
      split at h
      · show s'.taskQueue = s.taskQueue ++
          if s.pool ≠ [] ∧ s.isFull = false ∧ s.running = true then [t] else []
        split at h
        · next hpool =>
            rw [if_neg (fun hc => hc.1 hpool), ← Option.some.inj h, List.append_nil]
        · next hpool =>
            split at h
            · next hfull =>
                obtain ⟨hf, hr⟩ := Bool.and_eq_true_iff.mp hfull
                have hne : ¬ (s.pool ≠ [] ∧ s.isFull = false ∧ s.running = true) :=
                  fun hc => Bool.false_ne_true (hc.2.1.symm.trans hf)
                rw [if_neg hne, ← Option.some.inj h, List.append_nil]
            · next hroom =>
                rw [queue_push h]
                refine congrArg (s.taskQueue ++ ·) ?_
                cases hr : s.running with
                | false => simp
                | true =>
                    have hf : s.isFull = false := by simpa [hr] using hroom
                    simp [hpool, hf]
      · exact nomatch h
  | resume p w =>
      have h : s.resume p w = some s' := h
      unfold resume at h
      split at h
      · next t b hp =>
          show s'.taskQueue = s.taskQueue ++
            if s.running then ((s.producers[p]?).map Producer.task).getD [] else []
          rw [hp]
          exact queue_push (s := { s with producers := s.producers.set p .idle }) h
      · exact nomatch h
  | take i p =>
      cases works_of_step h with
      | takes _ _ t ts hx ht hq hpool hq' hr =>
          rw [taken, hq, hq', accepted, List.append_nil]
          rfl
      | sleeps _ _ hx ht hq hrun | leaves _ _ hx ht hq hrun =>
          rw [taken, hq]
          exact hq
      | others _ _ _ ha => obtain ⟨_, _, _, ha⟩ | ⟨_, _, ha⟩ | ⟨_, ha⟩ := ha <;> exact nomatch ha
      | queued _ _ _ _ _ _ ha => obtain ⟨_, ha⟩ | ⟨_, _, ha, -⟩ := ha <;> exact nomatch ha
      | moved _ _ _ ha => obtain ha | ha | ha := ha <;> exact nomatch ha
  | stop =>
      cases works_of_step h with
      | stopped _ _ hq => exact hq.trans (List.append_nil _).symm
      | others _ hq => exact hq.trans (List.append_nil _).symm
      | moved => exact (List.append_nil _).symm
      | queued _ _ _ _ _ _ ha => obtain ⟨_, ha⟩ | ⟨_, _, ha, -⟩ := ha <;> exact nomatch ha
  | spuriousProducer p | spuriousWorker i | test i | done i =>
      cases works_of_step h with
      | others _ hq => exact hq.trans (List.append_nil _).symm
      | moved => exact (List.append_nil _).symm
      | queued _ _ _ _ _ _ ha => obtain ⟨_, ha⟩ | ⟨_, _, ha, -⟩ := ha <;> exact nomatch ha

/-- In every run the tasks that were taken and those still in the queue are together the tasks
that were accepted, in the order in which `Run` has queued them: none is lost, none is taken
twice or out of turn. -/
theorem taken_in_order {tr : List (ThreadPool Task × PoolStep Task)}
    (hr : Run (stepOf step) (started m n k) tr s) :
    (tr.flatMap fun p => taken p.1 p.2) ++ s.taskQueue =
      tr.flatMap fun p => accepted p.1 p.2 := by
  refine hr.invariant_trace (I := fun tr s => (tr.flatMap fun p => taken p.1 p.2) ++ s.taskQueue =
    tr.flatMap fun p => accepted p.1 p.2) (G := fun _ _ => True) (fun _ _ => trivial) rfl ?_
  intro tr t a u h _ hst
  calc (tr ++ [(t, a)]).flatMap (fun p => taken p.1 p.2) ++ u.taskQueue
      = tr.flatMap (fun p => taken p.1 p.2) ++ (taken t a ++ u.taskQueue) := by
        rw [List.flatMap_append, List.flatMap_singleton, List.append_assoc]
    _ = tr.flatMap (fun p => taken p.1 p.2) ++ (t.taskQueue ++ accepted t a) := by
        rw [queue_step hst]
    _ = (tr ++ [(t, a)]).flatMap fun p => accepted p.1 p.2 := by
        rw [← List.append_assoc, h, List.flatMap_append, List.flatMap_singleton]

theorem oneByOne_in_order : ∃ tr s, runAll step (started 2 1 3) oneByOne = some (tr, s) ∧
    (tr.flatMap fun p => taken p.1 p.2) = [some 1, some 2] ∧ s.taskQueue = [some 3, some 4] ∧
      (tr.flatMap fun p => accepted p.1 p.2) = [some 1, some 2, some 3, some 4] := by
  obtain ⟨tr, s, hrun, htaken, hq⟩ : ∃ tr s,
      runAll step (started 2 1 3) oneByOne = some (tr, s) ∧
        (tr.flatMap fun p => taken p.1 p.2) = [some 1, some 2] ∧
          s.taskQueue = [some 3, some 4] :=
    exists_computed (by decide)
  have horder := taken_in_order (run_of_runAll hrun)
  rw [htaken, hq] at horder
  exact ⟨tr, s, hrun, htaken, hq, horder.symm⟩

/-! ## No task waits for a thread that sleeps -/

/-- A thread that has been woken up and has not come to the queue yet. -/
def wokenOne : Worker Task → ℕ
  | .woken => 1
  | .testing | .taking | .waiting | .working _ | .exited => 0

/-- How many threads have been woken up. -/
def woken (s : ThreadPool Task) : ℕ := (s.pool.map wokenOne).sum

/-- While the pool runs no thread ends, and while one sleeps each task has a thread that has
been woken up. -/
structure Awake (s : ThreadPool Task) : Prop where
  running : s.running = true → .exited ∉ s.pool
  served : s.running = true → s.pool.any Worker.waits = true → s.taskQueue.length ≤ s.woken

theorem awake_started (m n k : ℕ) : (started m n k : ThreadPool Task).Awake where
  running := fun _ h => nomatch List.eq_of_mem_replicate h
  served := fun _ _ => Nat.zero_le _

theorem wokenOne_of_takes {x : Worker Task} (h : x.takes = true) :
    wokenOne x ≤ 1 ∧ x.waits = false := by
  cases x with
  | taking => exact ⟨Nat.zero_le _, rfl⟩
  | woken => exact ⟨Nat.le_refl _, rfl⟩
  | testing | waiting | working | exited => exact nomatch h

theorem wokenOne_workerOf (t : Option Task) :
    wokenOne (workerOf t) = 0 ∧ (workerOf t).waits = false ∧ workerOf t ≠ .exited := by
  cases t with
  | none => exact ⟨rfl, rfl, nofun⟩
  | some t => exact ⟨rfl, rfl, nofun⟩

theorem Awake.step (h : s.Awake) (hst : s.step a = some s') : s'.Awake := by
  cases works_of_step hst with
  | others hpool hq hr =>
      refine ⟨fun hrun => hpool ▸ h.running (hr ▸ hrun), fun hrun hany => ?_⟩
      rw [hq, woken, hpool]
      exact h.served (hr ▸ hrun) (hpool ▸ hany)
  | queued t w hrun hn hq =>
      rcases notifyOne_cases hn with ⟨hnone, he⟩ | ⟨i, x, hx, hw, he⟩
      · refine ⟨fun _ => he ▸ h.running hrun, fun _ hany => ?_⟩
        rw [he, hnone] at hany
        exact nomatch hany
      · obtain rfl : x = .waiting := by
          cases x with
          | waiting => rfl
          | testing | taking | woken | working | exited => exact nomatch hw
        have hany : s.pool.any Worker.waits = true := any_of_getElem? hx rfl
        have hlen := h.served hrun hany
        have hsum : (s'.pool.map wokenOne).sum = s.woken + 1 := by
          rw [he]
          exact Shares.sum_set hx wokenOne Worker.woken
        refine ⟨fun _ hmem => ?_, fun _ _ => ?_⟩
        · rw [he] at hmem
          rcases List.mem_or_eq_of_mem_set hmem with hmem | hmem
          · exact h.running hrun hmem
          · exact nomatch hmem
        · rw [hq, List.length_append, List.length_singleton, woken, hsum]
          omega
  | @takes _ x i p t ts hx ht hq hpool hq' hr =>
      obtain ⟨hone, hwaits⟩ := wokenOne_of_takes ht
      obtain ⟨hzero, hwaits', hexit⟩ := wokenOne_workerOf t
      have hsum := Shares.sum_set hx wokenOne (workerOf t)
      refine ⟨fun hrun hmem => ?_, fun hrun hany => ?_⟩
      · rw [hpool] at hmem
        rcases List.mem_or_eq_of_mem_set hmem with hmem | hmem
        · exact h.running (hr ▸ hrun) hmem
        · exact hexit hmem.symm
      · rw [hpool, any_set hx (hwaits'.trans hwaits.symm)] at hany
        have hlen := h.served (hr ▸ hrun) hany
        rw [hq, List.length_cons] at hlen
        rw [hq', woken, hpool]
        unfold woken at hlen
        omega
  | sleeps i p hx ht hq hrun =>
      refine ⟨fun _ hmem => ?_, fun _ _ => ?_⟩
      · rcases List.mem_or_eq_of_mem_set hmem with hmem | hmem
        · exact h.running hrun hmem
        · exact nomatch hmem
      · show s.taskQueue.length ≤ _
        rw [hq]
        exact Nat.zero_le _
  | leaves i p hx ht hq hrun =>
      exact ⟨fun hr => absurd (hrun.symm.trans hr) nofun,
        fun hr => absurd (hrun.symm.trans hr) nofun⟩
  | @moved _ x y i hx hg ha =>
      refine ⟨fun hrun hmem => ?_, fun hrun hany => ?_⟩
      · rcases List.mem_or_eq_of_mem_set hmem with hmem | rfl
        · exact h.running hrun hmem
        · generalize hr : s.running = r at hg
          cases hg with
          | ended => exact absurd (hr.symm.trans hrun) nofun
      · have hsum := Shares.sum_set hx wokenOne y
        have hsame : s.pool.any Worker.waits = true ∧ wokenOne x ≤ wokenOne y := by
          have hset : y.waits = x.waits → s.pool.any Worker.waits = true :=
            fun hw => (any_set hx hw).symm.trans hany
          generalize s.running = r at hg
          cases hg with
          | woken => exact ⟨any_of_getElem? hx rfl, Nat.zero_le _⟩
          | again | ended | done => exact ⟨hset rfl, Nat.le_refl _⟩
        have hlen := h.served hrun hsame.1
        show s.taskQueue.length ≤ ((s.pool.set i y).map wokenOne).sum
        unfold woken at hlen
        omega
  | stopped hrun hpool hq hr =>
      exact ⟨fun hr' => absurd (hr.symm.trans hr') nofun,
        fun hr' => absurd (hr.symm.trans hr') nofun⟩

theorem length_pool_step (hst : s.step a = some s') : s'.pool.length = s.pool.length := by
  cases works_of_step hst with
  | others hpool => rw [hpool]
  | queued t w hrun hn =>
      rcases notifyOne_cases hn with ⟨-, he⟩ | ⟨i, x, -, -, he⟩
      · rw [he]
      · rw [he, List.length_set]
  | takes i p t ts hx ht hq hpool => rw [hpool, List.length_set]
  | sleeps | leaves | moved => exact List.length_set
  | stopped hrun hpool => rw [hpool, notifyAll, List.length_map]

/-- While the pool runs no wake-up is lost: when a thread sleeps, for each task in the queue a
thread has been woken up that has not come to the queue yet; and with a task in the queue there
is always a thread that is awake. -/
theorem no_task_unattended {tr : List (ThreadPool Task × PoolStep Task)} (hn : 0 < n)
    (hr : Run (stepOf step) (started m n k) tr s) (hrun : s.running = true) :
    (s.pool.any Worker.waits = true → s.taskQueue.length ≤ s.woken) ∧
      (s.taskQueue ≠ [] → ∃ w ∈ s.pool, w ≠ .waiting ∧ w ≠ .exited) := by
  obtain ⟨h, hlen⟩ : s.Awake ∧ s.pool.length = n := by
    refine hr.invariant (I := fun s => s.Awake ∧ s.pool.length = n)
      ⟨awake_started m n k, List.length_replicate⟩ ?_
    rintro t a u ⟨h, hlen⟩ hst
    exact ⟨h.step hst, (length_pool_step hst).trans hlen⟩
  refine ⟨h.served hrun, fun hq => ?_⟩
  by_contra hnone
  have hall : ∀ w ∈ s.pool, w = .waiting := by
    intro w hw
    by_contra hne
    refine hnone ⟨w, hw, hne, fun he => h.running hrun (he ▸ hw)⟩
  have hwoken : s.woken = 0 := by
    have hmap : s.pool.map wokenOne = List.replicate s.pool.length 0 :=
      List.map_eq_replicate_iff.mpr fun w hw => (hall w hw) ▸ rfl
    rw [woken, hmap, List.sum_replicate_nat, Nat.mul_zero]
  obtain ⟨w, hw⟩ := List.exists_mem_of_length_pos (hlen ▸ hn)
  have hany : s.pool.any Worker.waits = true := List.any_eq_true.mpr ⟨w, hw, hall w hw ▸ rfl⟩
  have hle := h.served hrun hany
  rw [hwoken] at hle
  exact hq (List.length_eq_zero_iff.mp (Nat.le_zero.mp hle))

/-- Two threads fall asleep before a task comes. -/
def bothAsleep : List (PoolStep ℕ) :=
  [.test 0, .test 1, .take 0 none, .take 1 none, .run 0 (some 7) (some 0)]

theorem bothAsleep_attended : ∃ tr s, runAll step (started 0 2 1) bothAsleep = some (tr, s) ∧
    s.pool = [.woken, .waiting] ∧ s.taskQueue = [some 7] ∧ s.taskQueue.length ≤ s.woken := by
  obtain ⟨tr, s, hrun, hr, hpool, hq⟩ : ∃ tr s,
      runAll step (started 0 2 1) bothAsleep = some (tr, s) ∧ s.running = true ∧
        s.pool = [.woken, .waiting] ∧ s.taskQueue = [some 7] :=
    exists_computed (by decide)
  have hserved := (no_task_unattended (by decide) (run_of_runAll hrun) hr).1
  rw [hpool] at hserved
  exact ⟨tr, s, hrun, hpool, hq, hserved rfl⟩

end ThreadPool

end Muduo
