/-
# `Muduo.Timer.Calls` — AddTimer and CancelTimer of any thread, TimerQueue.cpp and EventLoop.cpp

`RunInEventLoop` runs its callback at once on the loop thread and queues it from
any other.

    fetch, enqueueAdd     AddTimer of another thread: fetch_add on the counter of the
                          ids, then the push of AddTimerInLoop; the id is returned
    enqueueCancel         CancelTimer of another thread: the push of CancelTimerInLoop
    add, cancel           the same calls on the loop thread
    expire                HandleExpiredTimers, up to and with GetExpiredTimers
    run                   the next timer of the batch is run
    swap, task            HandlePendingCallbacks: the swap, the next callback

What a timer's callback, a queued callback or a handler does with timers are the
steps `add` and `cancel` that come after its begin; so they may come at any
point.  Other callbacks in the queue are left out.

`issued`, `returned`, `expired`, `cancelled` and `ran` are no fields of the
source: the number of calls of AddTimer, the ids they have returned, the ids
that have been in a batch, those for which CancelTimer was called after
they were returned and before they were in a batch, and the timers that were run.
-/
import Muduo.Timer.Expire

namespace Muduo

variable {Cb : Type}

/-- The callbacks that the two calls queue. -/
inductive TimerTask (Cb : Type)
  | addTimerInLoop (t : Timer Cb)
  | cancelTimerInLoop (id : ℤ)
deriving DecidableEq, Repr

/-- The timer that a queued callback is to add. -/
def TimerTask.add? : TimerTask Cb → Option (Timer Cb)
  | addTimerInLoop t => some t
  | cancelTimerInLoop _ => none

/-- A timer queue with the callbacks of its loop that are about timers. -/
structure TimerLoop (Cb : Type) where
  timerQueue : TimerQueue Cb
  /-- the timers of calls of other threads that have their id and are still to be queued -/
  fetched : List (Timer Cb)
  pendingCbsQueue : List (TimerTask Cb)
  tmpQueue : List (TimerTask Cb)
  /-- the timers of the batch that are still to be run -/
  expiredTimers : List (Timer Cb)
  issued : ℕ
  returned : List ℤ
  expired : List ℤ
  cancelled : List ℤ
  ran : List ℤ

inductive TimerAct (Cb : Type)
  | fetch (when interval : ℤ) (cb : Cb)
  | enqueueAdd (i : ℕ)
  | enqueueCancel (id : ℤ)
  | add (when interval : ℤ) (cb : Cb)
  | cancel (id : ℤ)
  | expire (fuel : ℕ) (clock : ℕ → ℤ)
  | run
  | swap
  | task

namespace TimerLoop

def init : TimerLoop Cb :=
  { timerQueue := .init, fetched := [], pendingCbsQueue := [], tmpQueue := [], expiredTimers := [],
    issued := 0, returned := [], expired := [], cancelled := [], ran := [] }

/-- The callbacks still to be called, in order. -/
def tasks (s : TimerLoop Cb) : List (TimerTask Cb) := s.tmpQueue ++ s.pendingCbsQueue

/-- The ids of the timers in the heap. -/
def live (s : TimerLoop Cb) : List ℤ :=
  s.timerQueue.heap.timerList.filterMap fun o => o.map Timer.id

/-- `CancelTimer` is called: in time, when the id was returned and was in no batch. -/
def note (s : TimerLoop Cb) (id : ℤ) : TimerLoop Cb :=
  if id ∈ s.returned ∧ id ∉ s.expired then { s with cancelled := id :: s.cancelled } else s

def step (s : TimerLoop Cb) : TimerAct Cb → Option (TimerLoop Cb)
  | .fetch when interval cb => do
      let (q, t) ← s.timerQueue.addTimer when interval cb
      some { s with timerQueue := q, fetched := s.fetched ++ [t], issued := s.issued + 1 }
  | .enqueueAdd i => do
      let t ← s.fetched[i]?
      some { s with fetched := s.fetched.eraseIdx i,
                    pendingCbsQueue := s.pendingCbsQueue ++ [.addTimerInLoop t],
                    returned := s.returned ++ [t.id] }
  | .enqueueCancel id =>
      let s := s.note id
      some { s with pendingCbsQueue := s.pendingCbsQueue ++ [.cancelTimerInLoop id] }
  | .add when interval cb => do
      let (q, t) ← s.timerQueue.addTimer when interval cb
      let q ← q.addTimerInLoop t
      some { s with timerQueue := q, issued := s.issued + 1, returned := s.returned ++ [t.id] }
  | .cancel id => do
      let q ← s.timerQueue.cancelTimerInLoop id
      some { s.note id with timerQueue := q }
  | .expire fuel clock => do
      guard (s.expiredTimers.isEmpty ∧ s.tmpQueue.isEmpty)
      let (q, batch) ← s.timerQueue.getExpiredTimers fuel clock
      some { s with timerQueue := q, expiredTimers := batch,
                    expired := s.expired ++ batch.map Timer.id }
  | .run =>
      match s.expiredTimers with
      | t :: ts => some { s with expiredTimers := ts, ran := s.ran ++ [t.id] }
      | [] => none
  | .swap => do
      guard (s.expiredTimers.isEmpty ∧ s.tmpQueue.isEmpty)
      some { s with tmpQueue := s.pendingCbsQueue, pendingCbsQueue := [] }
  | .task => do
      guard (s.expiredTimers.isEmpty)
      match s.tmpQueue with
      | .addTimerInLoop t :: ts => do
          let q ← s.timerQueue.addTimerInLoop t
          some { s with timerQueue := q, tmpQueue := ts }
      | .cancelTimerInLoop id :: ts => do
          let q ← s.timerQueue.cancelTimerInLoop id
          some { s with timerQueue := q, tmpQueue := ts }
      | [] => none

/-! ## What a step can do -/

variable {s s' : TimerLoop Cb} {a : TimerAct Cb}

/-- `AddTimer` does not take `TimePoint_t::max()`; it hands out the value of the counter. -/
theorem addTimer_eq {q q' : TimerQueue Cb} {w i : ℤ} {cb : Cb} {t : Timer Cb}
    (h : q.addTimer w i cb = some (q', t)) :
    w ≠ timePointMax ∧ t = ⟨cb, w, i, q.nextTimerId.toInt⟩ ∧
      q' = { q with nextTimerId := q.nextTimerId + 1 } := by
  obtain ⟨_, hw, h⟩ := Option.bind_eq_some_iff.mp h
  obtain ⟨rfl, rfl⟩ := Prod.mk.inj (Option.some.inj h)
  exact ⟨assert_eq_some_iff.mp hw, rfl, rfl⟩

theorem step_fetch_eq {w i : ℤ} {cb : Cb} (h : s.step (.fetch w i cb) = some s') :
    w ≠ timePointMax ∧
      s' = { s with timerQueue := { s.timerQueue with nextTimerId := s.timerQueue.nextTimerId + 1 },
                    fetched := s.fetched ++ [⟨cb, w, i, s.timerQueue.nextTimerId.toInt⟩],
                    issued := s.issued + 1 } := by
  obtain ⟨⟨q, t⟩, hadd, h⟩ := Option.bind_eq_some_iff.mp h
  obtain ⟨hw, rfl, rfl⟩ := addTimer_eq hadd
  exact ⟨hw, (Option.some.inj h).symm⟩

theorem step_add_eq {w i : ℤ} {cb : Cb} (h : s.step (.add w i cb) = some s') :
    w ≠ timePointMax ∧ ∃ q,
      ({ s.timerQueue with nextTimerId := s.timerQueue.nextTimerId + 1 } :
        TimerQueue Cb).addTimerInLoop ⟨cb, w, i, s.timerQueue.nextTimerId.toInt⟩ = some q ∧
      s' = { s with timerQueue := q, issued := s.issued + 1,
                    returned := s.returned ++ [s.timerQueue.nextTimerId.toInt] } := by
  obtain ⟨⟨q, t⟩, hadd, h⟩ := Option.bind_eq_some_iff.mp h
  obtain ⟨hw, rfl, rfl⟩ := addTimer_eq hadd
  dsimp only at h
  obtain ⟨q', hq, h⟩ := Option.bind_eq_some_iff.mp h
  exact ⟨hw, q', hq, (Option.some.inj h).symm⟩

theorem note_eq (s : TimerLoop Cb) (id : ℤ) :
    ∃ c, s.note id = { s with cancelled := c } ∧
      (c = s.cancelled ∨ (c = id :: s.cancelled ∧ id ∈ s.returned ∧ id ∉ s.expired)) := by
  unfold note
  split
  · next h => exact ⟨_, rfl, .inr ⟨rfl, h⟩⟩
  · exact ⟨_, rfl, .inl rfl⟩

/-- The steps, with what the calls of the timer queue in them give. -/
inductive Steps (s : TimerLoop Cb) : TimerAct Cb → TimerLoop Cb → Prop
  | fetch (w i : ℤ) (cb : Cb) (t : Timer Cb) (ht : t.id = s.timerQueue.nextTimerId.toInt) :
      Steps s (.fetch w i cb)
        { s with timerQueue := { s.timerQueue with nextTimerId := s.timerQueue.nextTimerId + 1 },
                 fetched := s.fetched ++ [t], issued := s.issued + 1 }
  | enqueueAdd (i : ℕ) (t : Timer Cb) (ht : s.fetched[i]? = some t) :
      Steps s (.enqueueAdd i)
        { s with fetched := s.fetched.eraseIdx i,
                 pendingCbsQueue := s.pendingCbsQueue ++ [.addTimerInLoop t],
                 returned := s.returned ++ [t.id] }
  | enqueueCancel (id : ℤ) (c : List ℤ)
      (hc : c = s.cancelled ∨ (c = id :: s.cancelled ∧ id ∈ s.returned ∧ id ∉ s.expired)) :
      Steps s (.enqueueCancel id)
        { s with cancelled := c,
                 pendingCbsQueue := s.pendingCbsQueue ++ [.cancelTimerInLoop id] }
  | add (w i : ℤ) (cb : Cb) (t : Timer Cb) (q : TimerQueue Cb)
      (ht : t.id = s.timerQueue.nextTimerId.toInt)
      (hq : ({ s.timerQueue with nextTimerId := s.timerQueue.nextTimerId + 1 } :
        TimerQueue Cb).addTimerInLoop t = some q) :
      Steps s (.add w i cb)
        { s with timerQueue := q, issued := s.issued + 1, returned := s.returned ++ [t.id] }
  | cancel (id : ℤ) (c : List ℤ) (q : TimerQueue Cb)
      (hc : c = s.cancelled ∨ (c = id :: s.cancelled ∧ id ∈ s.returned ∧ id ∉ s.expired))
      (hq : s.timerQueue.cancelTimerInLoop id = some q) :
      Steps s (.cancel id) { s with cancelled := c, timerQueue := q }
  | expire (fuel : ℕ) (clock : ℕ → ℤ) (q : TimerQueue Cb) (batch : List (Timer Cb))
      (hb : s.expiredTimers = [])
      (hq : s.timerQueue.getExpiredTimers fuel clock = some (q, batch)) :
      Steps s (.expire fuel clock)
        { s with timerQueue := q, expiredTimers := batch,
                 expired := s.expired ++ batch.map Timer.id }
  | run (t : Timer Cb) (ts : List (Timer Cb)) (ht : s.expiredTimers = t :: ts) :
      Steps s .run { s with expiredTimers := ts, ran := s.ran ++ [t.id] }
  | swap (ht : s.tmpQueue = []) :
      Steps s .swap { s with tmpQueue := s.pendingCbsQueue, pendingCbsQueue := [] }
  | taskAdd (t : Timer Cb) (ts : List (TimerTask Cb)) (q : TimerQueue Cb)
      (hts : s.tmpQueue = .addTimerInLoop t :: ts)
      (hq : s.timerQueue.addTimerInLoop t = some q) :
      Steps s .task { s with timerQueue := q, tmpQueue := ts }
  | taskCancel (id : ℤ) (ts : List (TimerTask Cb)) (q : TimerQueue Cb)
      (hts : s.tmpQueue = .cancelTimerInLoop id :: ts) (hb : s.expiredTimers = [])
      (hq : s.timerQueue.cancelTimerInLoop id = some q) :
      Steps s .task { s with timerQueue := q, tmpQueue := ts }

theorem steps_of_step (h : s.step a = some s') : Steps s a s' := by
  cases a with
  | fetch w i cb =>
      obtain ⟨-, rfl⟩ := step_fetch_eq h
      exact .fetch w i cb _ rfl
  | enqueueAdd i =>
      obtain ⟨t, ht, h⟩ := Option.bind_eq_some_iff.mp h
      exact Option.some.inj h ▸ .enqueueAdd i t ht
  | enqueueCancel id =>
      obtain ⟨c, hnote, hc⟩ := s.note_eq id
      simp only [step, hnote] at h
      exact Option.some.inj h ▸ .enqueueCancel id c hc
  | add w i cb =>
      obtain ⟨-, q, hq, rfl⟩ := step_add_eq h
      exact .add w i cb _ q rfl hq
  | cancel id =>
      obtain ⟨q, hq, h⟩ := Option.bind_eq_some_iff.mp h
      obtain ⟨c, hnote, hc⟩ := s.note_eq id
      rw [hnote] at h
      exact Option.some.inj h ▸ .cancel id c q hc hq
  | expire fuel clock =>
      obtain ⟨⟨hb, -⟩, h⟩ := guard_bind_eq_some_iff.mp h
      obtain ⟨⟨q, batch⟩, hq, h⟩ := Option.bind_eq_some_iff.mp h
      exact Option.some.inj h ▸ .expire fuel clock q batch (List.isEmpty_iff.mp hb) hq
  | run =>
      simp only [step] at h
      split at h
      · next t ts ht => exact Option.some.inj h ▸ .run t ts ht
      · exact nomatch h
  | swap =>
      obtain ⟨⟨-, ht⟩, h⟩ := guard_bind_eq_some_iff.mp h
      exact Option.some.inj h ▸ .swap (List.isEmpty_iff.mp ht)
  | task =>
      obtain ⟨hb, h⟩ := guard_bind_eq_some_iff.mp h
      split at h
      · next t ts hts =>
          obtain ⟨q, hq, h⟩ := Option.bind_eq_some_iff.mp h
          exact Option.some.inj h ▸ .taskAdd t ts q hts hq
      · next id ts hts =>
          obtain ⟨q, hq, h⟩ := Option.bind_eq_some_iff.mp h
          exact Option.some.inj h ▸ .taskCancel id ts q hts (List.isEmpty_iff.mp hb) hq
      · exact nomatch h

end TimerLoop

end Muduo
