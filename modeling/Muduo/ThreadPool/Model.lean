/-
# `Muduo.ThreadPool.Model` — ThreadPool.cpp

Producers call `Run`, the threads of the pool take the tasks.  `taskQueue_` and
the two condition variables are used under `mutex_` only, so a step is what a
thread does from getting the mutex to giving it up, by leaving the function or
by a `wait`; `running_` is read outside of it, by `ThreadFunc`.

    run p t w      Run(t) by producer p, up to its return or notFullCv_.wait
    resume p w     the rest of Run, when the wait has got the mutex back
    take i p       the critical section of Take by thread i of the pool
    test i, done i the test of ThreadFunc's loop; the end of a task
    spurious…      a thread wakes up without a notification
    stop           Stop, up to its joins

`w` and `p` are the threads that `notify_one` wakes up.  A task that calls `Run`
is a producer like any other, its thread going on meanwhile, which allows more
orders than there are.  Nothing is modelled of `threadInitCb_`.

The assertion in `Run` is recorded in `asserted`, and the run goes on as it does
with `NDEBUG`.
-/
import Muduo.Basic
import Muduo.Lib.CondVar
import Muduo.Lib.Runs

namespace Muduo

open CondVar

variable {Task : Type}

/-- A producer: not in `Run`; blocked in `notFullCv_.wait`; woken up there and
not yet in possession of the mutex, by a notification or without. -/
inductive Producer (Task : Type) where
  | idle
  | waiting (t : Option Task)
  | woken (t : Option Task) (notified : Bool)
deriving DecidableEq, Repr

namespace Producer

def waits : Producer Task → Bool
  | waiting _ => true
  | _ => false

/-- Holds a notification it has not acted on. -/
def notified : Producer Task → Bool
  | woken _ n => n
  | _ => false

def wake : Producer Task → Producer Task
  | waiting t => woken t true
  | p => p

end Producer

/-- A thread of the pool: before the test of `while (running_)`; before the mutex
in `Take`; blocked in `notEmptyCv_.wait`; woken up there; in a task; ended. -/
inductive Worker (Task : Type) where
  | testing
  | taking
  | waiting
  | woken
  | working (t : Task)
  | exited
deriving DecidableEq, Repr

namespace Worker

def waits : Worker Task → Bool
  | waiting => true
  | _ => false

def wake : Worker Task → Worker Task
  | waiting => woken
  | w => w

/-- The next thing the thread does in `Take` is to use the queue. -/
def takes : Worker Task → Bool
  | taking | woken => true
  | _ => false

end Worker

/-- `class ThreadPool` with its threads and the producers.  A `Task_t` is empty
(`none`) or can be called. -/
structure ThreadPool (Task : Type) where
  running : Bool
  pool : List (Worker Task)
  taskQueue : List (Option Task)
  maxQueueSize : ℕ
  producers : List (Producer Task)
  asserted : Bool

inductive PoolStep (Task : Type) where
  | run (p : ℕ) (t : Option Task) (w : Option ℕ)
  | resume (p : ℕ) (w : Option ℕ)
  | spuriousProducer (p : ℕ)
  | take (i : ℕ) (p : Option ℕ)
  | spuriousWorker (i : ℕ)
  | test (i : ℕ)
  | done (i : ℕ)
  | stop
deriving DecidableEq, Repr

namespace ThreadPool

/-- A pool of `n` threads after `Start`, with `k` producers. -/
def started (m n k : ℕ) : ThreadPool Task :=
  { running := true, pool := List.replicate n .testing, taskQueue := [], maxQueueSize := m,
    producers := List.replicate k .idle, asserted := true }

def isFull (s : ThreadPool Task) : Bool := 0 < s.maxQueueSize ∧ s.taskQueue.length = s.maxQueueSize

/-- `Run` from `if (!running_)` on. -/
def push (s : ThreadPool Task) (t : Option Task) (w : Option ℕ) : Option (ThreadPool Task) :=
  if !s.running then some s
  else do
    let pool ← notifyOne Worker.waits Worker.wake s.pool w
    return { s with asserted := s.asserted && !s.isFull, taskQueue := s.taskQueue ++ [t], pool }

/-- `Run`. -/
def run (s : ThreadPool Task) (p : ℕ) (t : Option Task) (w : Option ℕ) :
    Option (ThreadPool Task) :=
  match s.producers[p]? with
  | some .idle =>
      if s.pool = [] then some s -- the producer calls the task
      else if s.isFull && s.running then
        some { s with producers := s.producers.set p (.waiting t) }
      else s.push t w
  | _ => none

/-- `Run` after `notFullCv_.wait`. -/
def resume (s : ThreadPool Task) (p : ℕ) (w : Option ℕ) : Option (ThreadPool Task) :=
  match s.producers[p]? with
  | some (.woken t _) => { s with producers := s.producers.set p .idle }.push t w
  | _ => none

def spuriousProducer (s : ThreadPool Task) (p : ℕ) : Option (ThreadPool Task) :=
  match s.producers[p]? with
  | some (.waiting t) => some { s with producers := s.producers.set p (.woken t false) }
  | _ => none

/-- The state of thread `i` of the pool becomes `w`. -/
def setWorker (s : ThreadPool Task) (i : ℕ) (w : Worker Task) : ThreadPool Task :=
  { s with pool := s.pool.set i w }

/-- `Take` after `pop_front`: a waiting producer is notified when the queue has
just been full. -/
def notifyNotFull (s : ThreadPool Task) (p : Option ℕ) : Option (ThreadPool Task) :=
  if 0 < s.maxQueueSize ∧ s.taskQueue.length = s.maxQueueSize - 1 then do
    let producers ← notifyOne Producer.waits Producer.wake s.producers p
    return { s with producers }
  else some s

/-- The critical section of `Take`. -/
def take (s : ThreadPool Task) (i : ℕ) (p : Option ℕ) : Option (ThreadPool Task) :=
  match s.pool[i]?.map Worker.takes with
  | some true =>
      match s.taskQueue with
      | [] => some (s.setWorker i (if s.running then .waiting else .testing))
      | t :: ts =>
          let s := { s with taskQueue := ts }
          (s.setWorker i (match t with | some t => .working t | none => .testing)).notifyNotFull p
  | _ => none

def spuriousWorker (s : ThreadPool Task) (i : ℕ) : Option (ThreadPool Task) :=
  match s.pool[i]? with
  | some .waiting => some (s.setWorker i .woken)
  | _ => none

/-- `while (running_)` in `ThreadFunc`. -/
def test (s : ThreadPool Task) (i : ℕ) : Option (ThreadPool Task) :=
  match s.pool[i]? with
  | some .testing => some (s.setWorker i (if s.running then .taking else .exited))
  | _ => none

def done (s : ThreadPool Task) (i : ℕ) : Option (ThreadPool Task) :=
  match s.pool[i]? with
  | some (.working _) => some (s.setWorker i .testing)
  | _ => none

/-- `Stop`. -/
def stop (s : ThreadPool Task) : Option (ThreadPool Task) := do
  assert (s.running = true)
  return { s with running := false,
                  pool := notifyAll Worker.waits Worker.wake s.pool,
                  producers := notifyAll Producer.waits Producer.wake s.producers }

def step (s : ThreadPool Task) : PoolStep Task → Option (ThreadPool Task)
  | .run p t w => s.run p t w
  | .resume p w => s.resume p w
  | .spuriousProducer p => s.spuriousProducer p
  | .take i p => s.take i p
  | .spuriousWorker i => s.spuriousWorker i
  | .test i => s.test i
  | .done i => s.done i
  | .stop => s.stop

/-! ## What a step can do -/

variable {s s' : ThreadPool Task}

/-- The steps, with what is known of the state they are taken from. -/
inductive Steps (s : ThreadPool Task) : PoolStep Task → ThreadPool Task → Prop
  /-- `Run` calls the task itself, or refuses it -/
  | notQueued (p : ℕ) (t : Option Task) (w : Option ℕ) : Steps s (.run p t w) s
  /-- `Run` waits -/
  | block (p : ℕ) (t : Option Task) (w : Option ℕ) (hp : s.producers[p]? = some .idle)
      (hfull : s.isFull = true) (hrun : s.running = true) :
      Steps s (.run p t w) { s with producers := s.producers.set p (.waiting t) }
  /-- `Run` queues the task without a wait -/
  | enter (p : ℕ) (t : Option Task) (w : Option ℕ) (pool : List (Worker Task))
      (hroom : s.isFull = false) (hrun : s.running = true) :
      Steps s (.run p t w)
        { s with asserted := s.asserted && !s.isFull, taskQueue := s.taskQueue ++ [t], pool }
  /-- `Run` refuses the task after its wait -/
  | turnedAway (p : ℕ) (w : Option ℕ) (t : Option Task) (n : Bool)
      (hp : s.producers[p]? = some (.woken t n)) (hrun : s.running = false) :
      Steps s (.resume p w) { s with producers := s.producers.set p .idle }
  /-- `Run` queues the task after its wait -/
  | resumed (p : ℕ) (w : Option ℕ) (t : Option Task) (n : Bool) (pool : List (Worker Task))
      (hp : s.producers[p]? = some (.woken t n)) (hrun : s.running = true) :
      Steps s (.resume p w)
        { s with producers := s.producers.set p .idle, asserted := s.asserted && !s.isFull,
                 taskQueue := s.taskQueue ++ [t], pool }
  | spuriousProducer (p : ℕ) (t : Option Task) (hp : s.producers[p]? = some (.waiting t)) :
      Steps s (.spuriousProducer p) { s with producers := s.producers.set p (.woken t false) }
  /-- `Take` takes a task -/
  | taken (i : ℕ) (p : Option ℕ) (t : Option Task) (ts : List (Option Task))
      (pool : List (Worker Task)) (hq : s.taskQueue = t :: ts)
      (hn : ¬ (0 < s.maxQueueSize ∧ ts.length = s.maxQueueSize - 1)) :
      Steps s (.take i p) { s with taskQueue := ts, pool }
  /-- `Take` takes a task and notifies `notFullCv_` -/
  | takenNotify (i : ℕ) (p : Option ℕ) (t : Option Task) (ts : List (Option Task))
      (pool : List (Worker Task)) (producers : List (Producer Task)) (hq : s.taskQueue = t :: ts)
      (hn : notifyOne Producer.waits Producer.wake s.producers p = some producers) :
      Steps s (.take i p) { s with taskQueue := ts, pool, producers }
  /-- a thread of the pool goes on and uses neither the queue nor `notFullCv_` -/
  | worker (a : PoolStep Task) (pool : List (Worker Task)) (ha : ∀ p w, a ≠ .resume p w) :
      Steps s a { s with pool }
  | stop : Steps s .stop
      { s with running := false,
               pool := notifyAll Worker.waits Worker.wake s.pool,
               producers := notifyAll Producer.waits Producer.wake s.producers }

theorem push_cases {t : Option Task} {w : Option ℕ} (h : s.push t w = some s') :
    (s.running = false ∧ s' = s) ∨ (s.running = true ∧ ∃ pool, s' =
      { s with asserted := s.asserted && !s.isFull, taskQueue := s.taskQueue ++ [t], pool }) := by
  unfold push at h
  cases hr : s.running with
  | false =>
      simp only [hr, Bool.not_false, if_true] at h
      exact .inl ⟨rfl, (Option.some.inj h).symm⟩
  | true =>
      simp only [hr, Bool.not_true, Bool.false_eq_true, if_false, Option.bind_eq_bind,
        Option.bind_eq_some_iff] at h
      obtain ⟨pool, -, h⟩ := h
      have he := (Option.some.inj h).symm
      exact .inr ⟨rfl, pool, by simpa only [hr] using he⟩

theorem notifyNotFull_cases {p : Option ℕ} (h : s.notifyNotFull p = some s') :
    (¬ (0 < s.maxQueueSize ∧ s.taskQueue.length = s.maxQueueSize - 1) ∧ s' = s) ∨
      ∃ producers, notifyOne Producer.waits Producer.wake s.producers p = some producers ∧
        s' = { s with producers } := by
  unfold notifyNotFull at h
  split at h
  next =>
    obtain ⟨producers, hn, h⟩ := Option.bind_eq_some_iff.mp h
    exact .inr ⟨producers, hn, (Option.some.inj h).symm⟩
  next hn => exact .inl ⟨hn, (Option.some.inj h).symm⟩

theorem steps_of_run {p : ℕ} {t : Option Task} {w : Option ℕ} (h : s.run p t w = some s') :
    Steps s (.run p t w) s' := by
  unfold run at h
  split at h
  next hp =>
    split at h
    next => exact Option.some.inj h ▸ .notQueued p t w
    next =>
      split at h
      next hfull =>
        obtain ⟨hf, hr⟩ := Bool.and_eq_true_iff.mp hfull
        exact Option.some.inj h ▸ .block p t w hp hf hr
      next hroom =>
        rcases push_cases h with ⟨-, rfl⟩ | ⟨hr, pool, rfl⟩
        · exact .notQueued p t w
        · exact .enter p t w pool (by simpa [hr] using hroom) hr
  next => exact nomatch h

theorem steps_of_resume {p : ℕ} {w : Option ℕ} (h : s.resume p w = some s') :
    Steps s (.resume p w) s' := by
  unfold resume at h
  split at h
  next t n hp =>
    rcases push_cases h with ⟨hr, rfl⟩ | ⟨hr, pool, rfl⟩
    · exact .turnedAway p w t n hp hr
    · exact .resumed p w t n pool hp hr
  next => exact nomatch h

theorem steps_of_take {i : ℕ} {p : Option ℕ} (h : s.take i p = some s') :
    Steps s (.take i p) s' := by
  unfold take at h
  split at h
  next =>
    split at h
    next => exact Option.some.inj h ▸ .worker _ _ nofun
    next t ts hq =>
      rcases notifyNotFull_cases h with ⟨hn, rfl⟩ | ⟨producers, hn, rfl⟩
      · exact .taken i p t ts _ hq hn
      · exact .takenNotify i p t ts _ producers hq hn
  next => exact nomatch h

theorem steps_of_step {a : PoolStep Task} (h : s.step a = some s') : Steps s a s' := by
  cases a with
  | run p t w => exact steps_of_run h
  | resume p w => exact steps_of_resume h
  | take i p => exact steps_of_take h
  | spuriousProducer p =>
      simp only [step, ThreadPool.spuriousProducer] at h
      split at h
      next t hp => exact Option.some.inj h ▸ .spuriousProducer p t hp
      next => exact nomatch h
  | spuriousWorker i | test i | done i =>
      simp only [step, ThreadPool.spuriousWorker, ThreadPool.test, ThreadPool.done] at h
      split at h
      next => exact Option.some.inj h ▸ .worker _ _ nofun
      next => exact nomatch h
  | stop =>
      simp only [step, ThreadPool.stop, Option.bind_eq_bind, Option.bind_eq_some_iff] at h
      obtain ⟨-, -, h⟩ := h
      exact Option.some.inj h ▸ .stop

end ThreadPool

end Muduo
