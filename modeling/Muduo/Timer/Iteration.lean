/-
# `Muduo.Timer.Iteration` — GetExpiredTimers in the iterations of the loop

An iteration polls, handles the channels that poll reported, and calls the queued
callbacks.  Whether the channel of the timerfd is among the active ones is settled at
poll; which handlers come before its own depends on the order of the list.

    poll                     fixes the active channels: the timerfd's is one of them
                             when `latestTime` has been reached
    addTimerInLoop,          what handlers, timers and queued callbacks do with timers,
    cancelTimerInLoop        at any point of an iteration
    handleExpiredTimers      the handler of the timerfd's channel
    nextIteration            all handlers and callbacks have been called

`failed` is no field of the source: the assertion of `GetExpiredTimers` has failed.
-/
import Muduo.Lib.Runs
import Muduo.Timer.Queue

namespace Muduo

open BinHeap Runs TimerMinHeap

variable {Cb : Type}

/-- Where the loop is: before poll, or after it, with the timerfd's channel still to be
handled or not. -/
inductive LoopPhase
  | polling
  | handling (timerfdActive : Bool)
deriving DecidableEq, Repr

structure TimerIteration (Cb : Type) where
  queue : TimerQueue Cb
  readings : ℕ
  phase : LoopPhase
  failed : Bool

inductive IterationAct (Cb : Type)
  | poll
  | addTimerInLoop (t : Timer Cb)
  | cancelTimerInLoop (id : ℤ)
  | handleExpiredTimers (fuel : ℕ)
  | nextIteration

namespace TimerIteration

def init : TimerIteration Cb := ⟨.init, 0, .polling, false⟩

/-- `assert(latestTime_ < heap_->Top()->ExpirationTime())`, for the deadline before the loop
and the heap after it. -/
def assertsDeadline (latestTime : ℤ) (h : TimerMinHeap Cb) : Bool :=
  h.isEmpty || h.top.elim false fun t => decide (latestTime < t.expirationTime)

/-- One step; `clock k` is the reading `k` of the run.  `handleExpiredTimers fuel` is a call
whose loop has ended within `fuel` rounds. -/
def step (clock : ℕ → ℤ) (s : TimerIteration Cb) : IterationAct Cb → Option (TimerIteration Cb)
  | .poll => do
      guard (s.phase = .polling)
      some { s with readings := s.readings + 1,
                    phase := .handling (decide (s.queue.latestTime ≤ clock s.readings)) }
  | .addTimerInLoop t => do
      let q ← s.queue.addTimerInLoop t
      some { s with queue := q }
  | .cancelTimerInLoop id => do
      let q ← s.queue.cancelTimerInLoop id
      some { s with queue := q }
  | .handleExpiredTimers fuel => do
      guard (s.phase = .handling true)
      let (q, batch) ← s.queue.getExpiredTimers fuel fun i => clock (s.readings + i)
      let readings := batch.foldl (fun k t => k + t.readings) s.readings
      some { queue := q, readings := if q.heap.isEmpty then readings else readings + 1,
             phase := .handling false,
             failed := s.failed || !assertsDeadline s.queue.latestTime q.heap }
  | .nextIteration => do
      guard (s.phase = .handling false)
      some { s with phase := .polling }

/-- When the handler of the timerfd's channel is called, the deadline is not ahead of the clock:
the handlers before it have not put it off. -/
def StillDue (clock : ℕ → ℤ) (s : TimerIteration Cb) : IterationAct Cb → Prop
  | .handleExpiredTimers _ => s.queue.heap.isEmpty ∨ s.queue.latestTime ≤ clock s.readings
  | _ => True

instance (clock : ℕ → ℤ) (s : TimerIteration Cb) :
    (a : IterationAct Cb) → Decidable (s.StillDue clock a)
  | .handleExpiredTimers _ => inferInstanceAs (Decidable (_ ∨ _))
  | .poll | .addTimerInLoop _ | .cancelTimerInLoop _ | .nextIteration =>
      inferInstanceAs (Decidable True)

/-! ## The assertion in one call -/

section Call

variable {clock : ℕ → ℤ} {k : ℕ} {ts batch ts' : List (Timer Cb)} {q q' : TimerQueue Cb}

/-- The loop leaves nothing, or a root that expires after its last reading. -/
theorem left_later (e : Expires clock k ts batch ts') :
    ∀ t ∈ ts'[0]?, ∃ j, k ≤ j ∧ clock j < t.expiration := by
  induction e with
  | done => exact fun t ht => absurd ht.symm (Option.some_ne_none t)
  | @wait k t tl hlt =>
      rintro u ⟨⟩
      exact ⟨k, Nat.le_refl k, hlt⟩
  | again _ _ _ ih =>
      intro t ht
      obtain ⟨j, hj, hlt⟩ := ih t ht
      exact ⟨j, by omega, hlt⟩
  | once _ _ _ ih =>
      intro t ht
      obtain ⟨j, hj, hlt⟩ := ih t ht
      exact ⟨j, by omega, hlt⟩

theorem assertsDeadline_iff {h : TimerMinHeap Cb} {latestTime : ℤ} (r : Represents h ts) :
    assertsDeadline latestTime h = true ↔ ∀ t ∈ ts[0]?, latestTime < t.expiration := by
  unfold assertsDeadline top
  rw [r.isEmpty, r.deref]
  cases ts with
  | nil => exact ⟨fun _ t ht => absurd ht.symm (Option.some_ne_none t), fun _ => rfl⟩
  | cons t tl =>
      constructor
      · rintro hlt u ⟨⟩
        exact of_decide_eq_true hlt
      · intro hall
        exact decide_eq_true (hall t rfl)

/-- The assertion holds exactly when the queue was empty or its deadline was reached. -/
theorem asserts_iff (hclock : Steady clock) (hq : q.Holds ts) {fuel : ℕ}
    (h : q.getExpiredTimers fuel clock = some (q', batch)) :
    assertsDeadline q.latestTime q'.heap = true ↔
      q.heap.isEmpty = true ∨ q.latestTime ≤ clock 0 := by
  obtain ⟨ts', e, hq'⟩ := hq.expire h
  rw [assertsDeadline_iff hq'.represents, hq.represents.isEmpty, hq.latest]
  cases ts with
  | nil =>
      cases e with
      | done => exact ⟨fun _ => .inl rfl, fun _ t ht => absurd ht.symm (Option.some_ne_none t)⟩
  | cons t tl =>
      have hfirst : TimerQueue.firstExpiration (t :: tl) = t.expiration := rfl
      rw [hfirst]
      rcases le_or_gt t.expiration (clock 0) with hle | hlt
      · refine ⟨fun _ => .inr hle, fun _ u hu => ?_⟩
        obtain ⟨j, hj, hlt⟩ := left_later e u hu
        exact (hle.trans (hclock hj)).trans_lt hlt
      · -- the root is not due: it stays, and with it the deadline
        have hts' : ts' = t :: tl := by
          cases e with
          | wait => rfl
          | again hle => exact absurd hle (not_le.mpr hlt)
          | once hle => exact absurd hle (not_le.mpr hlt)
        rw [hts']
        constructor
        · intro hall
          exact absurd (hall t rfl) (lt_irrefl _)
        · rintro (hempty | hle)
          · exact absurd hempty Bool.false_ne_true
          · exact absurd hle (not_le.mpr hlt)

end Call

/-! ## Runs -/

variable {clock : ℕ → ℤ} {s s' : TimerIteration Cb} {a : IterationAct Cb}

theorem holds_step (hs : ∃ ts, s.queue.Holds ts) (h : s.step clock a = some s') :
    ∃ ts, s'.queue.Holds ts := by
  obtain ⟨ts, hq⟩ := hs
  cases a with
  | poll =>
      obtain ⟨-, h⟩ := guard_bind_eq_some_iff.mp h
      exact Option.some.inj h ▸ ⟨ts, hq⟩
  | addTimerInLoop t =>
      obtain ⟨q, hadd, h⟩ := Option.bind_eq_some_iff.mp h
      obtain ⟨x, hx, -⟩ := Option.bind_eq_some_iff.mp hadd
      obtain ⟨q', ts', e, hq', -⟩ := hq.add (hq.represents.fresh_of_add hx)
      obtain rfl := Option.some.inj (e.symm.trans hadd)
      exact Option.some.inj h ▸ ⟨ts', hq'⟩
  | cancelTimerInLoop id =>
      obtain ⟨q, hcancel, h⟩ := Option.bind_eq_some_iff.mp h
      obtain ⟨q', ts', e, hq', -⟩ := hq.cancel id
      obtain rfl := Option.some.inj (e.symm.trans hcancel)
      exact Option.some.inj h ▸ ⟨ts', hq'⟩
  | handleExpiredTimers fuel =>
      obtain ⟨-, h⟩ := guard_bind_eq_some_iff.mp h
      obtain ⟨⟨q, batch⟩, hexp, h⟩ := Option.bind_eq_some_iff.mp h
      obtain ⟨ts', -, hq'⟩ := hq.expire hexp
      exact Option.some.inj h ▸ ⟨ts', hq'⟩
  | nextIteration =>
      obtain ⟨-, h⟩ := guard_bind_eq_some_iff.mp h
      exact Option.some.inj h ▸ ⟨ts, hq⟩

/-- The assertion fails in a step exactly when the deadline is not due any more. -/
theorem failed_step_iff (hclock : Steady clock) (hs : ∃ ts, s.queue.Holds ts)
    (h : s.step clock a = some s') :
    s'.failed = false ↔ s.failed = false ∧ s.StillDue clock a := by
  obtain ⟨ts, hq⟩ := hs
  cases a with
  | poll =>
      obtain ⟨-, h⟩ := guard_bind_eq_some_iff.mp h
      exact Option.some.inj h ▸ (and_iff_left trivial).symm
  | addTimerInLoop t =>
      obtain ⟨q, -, h⟩ := Option.bind_eq_some_iff.mp h
      exact Option.some.inj h ▸ (and_iff_left trivial).symm
  | cancelTimerInLoop id =>
      obtain ⟨q, -, h⟩ := Option.bind_eq_some_iff.mp h
      exact Option.some.inj h ▸ (and_iff_left trivial).symm
  | handleExpiredTimers fuel =>
      obtain ⟨-, h⟩ := guard_bind_eq_some_iff.mp h
      obtain ⟨⟨q, batch⟩, hexp, h⟩ := Option.bind_eq_some_iff.mp h
      have hsteady : Steady fun i => clock (s.readings + i) := fun i j hij =>
        hclock (Nat.add_le_add_left hij _)
      have hiff := asserts_iff hsteady hq hexp
      rw [← Option.some.inj h]
      simp only [Bool.or_eq_false_iff, Bool.not_eq_false', hiff]
      rfl
  | nextIteration =>
      obtain ⟨-, h⟩ := guard_bind_eq_some_iff.mp h
      exact Option.some.inj h ▸ (and_iff_left trivial).symm

/-- Whatever handlers, timers and callbacks do: the assertion has failed in no call of a run
exactly when each time the timerfd's handler was called the deadline was still due. -/
theorem deadline_asserted_iff {tr : List (TimerIteration Cb × IterationAct Cb)}
    (hclock : Steady clock) (hr : Run (stepOf (step clock)) init tr s) :
    s.failed = false ↔ ∀ p ∈ tr, StillDue clock p.1 p.2 := by
  exact hr.iff_forall_of_step (I := fun s => ∃ ts, s.queue.Holds ts)
    (P := fun s => s.failed = false) (G := StillDue clock) ⟨[], TimerQueue.holds_init⟩ rfl
    holds_step fun hs hst => failed_step_iff hclock hs hst

/-- A handler before the timerfd's adds a timer and cancels one that is not due. -/
def harmlessHandlers : List (IterationAct Unit) :=
  [.addTimerInLoop ⟨(), 10, 0, 0⟩, .addTimerInLoop ⟨(), 20, 0, 1⟩, .poll,
    .addTimerInLoop ⟨(), 30, 0, 2⟩, .cancelTimerInLoop 1, .handleExpiredTimers 3, .nextIteration]

theorem harmlessHandlers_asserted :
    ∃ tr s, runAll (step fun _ => 10) init harmlessHandlers = some (tr, s) ∧
      s.queue.latestTime = 30 ∧ s.failed = false := by
  obtain ⟨tr, s, hrun, hdue, hlatest⟩ : ∃ tr s,
      runAll (step fun _ => 10) init harmlessHandlers = some (tr, s) ∧
        (∀ p ∈ tr, StillDue (fun _ => 10) p.1 p.2) ∧ s.queue.latestTime = 30 :=
    exists_computed (by decide +kernel)
  exact ⟨tr, s, hrun, hlatest,
    (deadline_asserted_iff (fun _ _ _ => Int.le_refl 10) (run_of_runAll hrun)).mpr hdue⟩

/-- A handler before the timerfd's cancels the timer whose deadline poll has reported. -/
theorem cancelledDeadline_fails :
    ∃ tr s, runAll (step fun _ => 10) init
        [.addTimerInLoop ⟨(), 10, 0, 0⟩, .addTimerInLoop ⟨(), 20, 0, 1⟩, .poll,
          .cancelTimerInLoop 0, .handleExpiredTimers 3] =
        some (tr, (s : TimerIteration Unit)) ∧
      s.failed = true :=
  exists_computed (by decide +kernel)

end TimerIteration

end Muduo
