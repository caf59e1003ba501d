/-
# `Muduo.Timer.Terminate` — does GetExpiredTimers come to an end?

The timers of a queue come from `RunAt`, `RunAfter` and `RunEvery`, which pass any
interval on.  `AddTimerInLoop` follows its call at once on the loop thread; for
another thread it is queued, and may come after that of a later call.

    RunAt(when)          expires at `when`                interval 0
    RunAfter(delay)      expires at `now() + delay`       interval 0
    RunEvery(interval)   expires at `now() + interval`    interval `interval`

The sums are those of 64 bits.  On a clock that stands still at `now` the loop ends
exactly when `now + interval` is later than `now` for each due timer that repeats
(`expiry_ends_iff`).  Two kinds of intervals break this, and such a timer is due again
as soon as it is re-armed:

    a negative one       the sum is before `now`
    one so large that the sum overflows and comes out before `now`
-/
import Muduo.Timer.InOrder

namespace Muduo

open BinHeap Runs TimerMinHeap

variable {Cb : Type}

namespace TimerQueue

/-! ## RunAt, RunAfter, RunEvery

Each up to the call of `RunInEventLoop`; `now` is the reading of the clock in it. -/

def runAt (q : TimerQueue Cb) (when : ℤ) (cb : Cb) : Option (TimerQueue Cb × Timer Cb) :=
  q.addTimer when 0 cb

def runAfter (q : TimerQueue Cb) (now delay : ℤ) (cb : Cb) :
    Option (TimerQueue Cb × Timer Cb) :=
  q.runAt (addInterval64 now delay) cb

def runEvery (q : TimerQueue Cb) (now interval : ℤ) (cb : Cb) :
    Option (TimerQueue Cb × Timer Cb) :=
  q.addTimer (addInterval64 now interval) interval cb

theorem addTimer_heap {q q' : TimerQueue Cb} {when interval : ℤ} {cb : Cb} {t : Timer Cb}
    (h : q.addTimer when interval cb = some (q', t)) : q'.heap = q.heap := by
  obtain ⟨_, -, h⟩ := Option.bind_eq_some_iff.mp h
  obtain ⟨rfl, -⟩ := Prod.mk.inj (Option.some.inj h)
  rfl

end TimerQueue

/-- A queue that is being filled. -/
structure Filling (Cb : Type) where
  queue : TimerQueue Cb
  /-- the timers of the calls made whose AddTimerInLoop is still to come -/
  coming : List (Timer Cb)

inductive FillAct (Cb : Type)
  | runAt (when : ℤ) (cb : Cb)
  | runAfter (now delay : ℤ) (cb : Cb)
  | runEvery (now interval : ℤ) (cb : Cb)
  | addTimerInLoop (i : ℕ)

namespace Filling

def init : Filling Cb := ⟨.init, []⟩

def step (s : Filling Cb) : FillAct Cb → Option (Filling Cb)
  | .runAt when cb => do
      let (q, t) ← s.queue.runAt when cb
      some ⟨q, s.coming ++ [t]⟩
  | .runAfter now delay cb => do
      let (q, t) ← s.queue.runAfter now delay cb
      some ⟨q, s.coming ++ [t]⟩
  | .runEvery now interval cb => do
      let (q, t) ← s.queue.runEvery now interval cb
      some ⟨q, s.coming ++ [t]⟩
  | .addTimerInLoop i => do
      let t ← s.coming[i]?
      let q ← s.queue.addTimerInLoop t
      some ⟨q, s.coming.eraseIdx i⟩

variable {s s' : Filling Cb} {a : FillAct Cb}

/-- AddTimerInLoop keeps the order of the heap. -/
theorem addTimerInLoop_inOrder {q q' : TimerQueue Cb} {t : Timer Cb} (hh : InOrder q.heap)
    (h : q.addTimerInLoop t = some q') : InOrder q'.heap := by
  obtain ⟨ts, r, ho⟩ := hh
  obtain ⟨x, hadd, -⟩ := Option.bind_eq_some_iff.mp h
  obtain ⟨q'', e, l⟩ := TimerQueue.addTimerInLoop_spec r (r.fresh_of_add hadd)
  obtain rfl := Option.some.inj (e.symm.trans h)
  exact ⟨_, l.represents, push_ordered ho t⟩

theorem inOrder_step (hh : InOrder s.queue.heap) (h : s.step a = some s') :
    InOrder s'.queue.heap := by
  cases a with
  | runAt when cb =>
      obtain ⟨⟨q, t⟩, hcall, h⟩ := Option.bind_eq_some_iff.mp h
      rw [← TimerQueue.addTimer_heap hcall] at hh
      exact Option.some.inj h ▸ hh
  | runAfter now delay cb =>
      obtain ⟨⟨q, t⟩, hcall, h⟩ := Option.bind_eq_some_iff.mp h
      rw [← TimerQueue.addTimer_heap hcall] at hh
      exact Option.some.inj h ▸ hh
  | runEvery now interval cb =>
      obtain ⟨⟨q, t⟩, hcall, h⟩ := Option.bind_eq_some_iff.mp h
      rw [← TimerQueue.addTimer_heap hcall] at hh
      exact Option.some.inj h ▸ hh
  | addTimerInLoop i =>
      obtain ⟨t, -, h⟩ := Option.bind_eq_some_iff.mp h
      obtain ⟨q, hadd, h⟩ := Option.bind_eq_some_iff.mp h
      exact Option.some.inj h ▸ addTimerInLoop_inOrder hh hadd

theorem inOrder_of_run {tr : List (Filling Cb × FillAct Cb)}
    (hr : Run (stepOf step) init tr s) : InOrder s.queue.heap :=
  hr.invariant (I := fun s => InOrder s.queue.heap) ⟨[], represents_init, fun _ _ => le_top⟩
    fun hh hst => inOrder_step hh hst

/-! ## The end of the loop -/

/-- The loop ends only when each due timer is re-armed for a later time. -/
theorem later_of_getExpiredTimers {q q' : TimerQueue Cb} {now : ℤ} {fuel : ℕ}
    {batch : List (Timer Cb)} (hh : InOrder q.heap)
    (h : q.getExpiredTimers64 fuel (fun _ => now) = some (q', batch)) :
    ∀ t ∈ q.heap.timers, due now t = true → Later addInterval64 now t := by
  obtain ⟨ts, r, ho⟩ := hh
  obtain ⟨ts', e, -⟩ := TimerQueue.expires_of_getExpiredTimersBy r h
  rw [r.timers]
  exact e.later ho

/-- The loop of `GetExpiredTimers` ends, on a clock that shows `now` throughout, and the
batch has no id twice. -/
def Ends (q : TimerQueue Cb) (now : ℤ) : Prop :=
  ∃ n q' batch, (∀ fuel, n ≤ fuel → q.getExpiredTimers64 fuel (fun _ => now) = some (q', batch)) ∧
    (batch.map Timer.id).Nodup

theorem ends_of_later {q : TimerQueue Cb} {now : ℤ} (hh : InOrder q.heap)
    (hl : ∀ t ∈ q.heap.timers, due now t = true → Later addInterval64 now t) : Ends q now := by
  obtain ⟨ts, r, ho⟩ := hh
  rw [r.timers] at hl
  obtain ⟨batch, ts', e, -⟩ := expires_total (k := 0) hl
  obtain ⟨q', hq, -⟩ := TimerQueue.getExpiredTimersBy_spec r e
  refine ⟨batch.length + 1, q', batch, fun fuel hf => hq (Nat.lt_of_succ_le hf), ?_⟩
  exact TimerQueue.nodup_of_due r (e.exact hl ho).1

/-- Whatever calls have filled the queue: the loop ends, each id returned once, exactly
when every due timer that repeats is re-armed for a later time, in 64 bits. -/
theorem expiry_ends_iff {tr : List (Filling Cb × FillAct Cb)}
    (hr : Run (stepOf step) init tr s) (now : ℤ) :
    Ends s.queue now ↔ ∀ t ∈ s.queue.heap.timers, t.expiration ≤ now → t.repeats = true →
      now < addInterval64 now t.interval := by
  have hh := inOrder_of_run hr
  constructor
  · rintro ⟨n, q', batch, hend, -⟩ t ht hle
    exact later_of_getExpiredTimers hh (hend n (Nat.le_refl n)) t ht (decide_eq_true hle)
  · intro hl
    exact ends_of_later hh fun t ht hd => hl t ht (of_decide_eq_true hd)

/-- Where no sum overflows, it ends exactly when no due timer has a negative interval. -/
theorem ends_iff_nonneg {tr : List (Filling Cb × FillAct Cb)}
    (hr : Run (stepOf step) init tr s) {now : ℤ}
    (hfits : ∀ t ∈ s.queue.heap.timers, Fits64 (addInterval now t.interval)) :
    Ends s.queue now ↔ ∀ t ∈ s.queue.heap.timers, t.expiration ≤ now → 0 ≤ t.interval := by
  rw [expiry_ends_iff hr]
  refine forall₃_congr fun t ht _ => ?_
  rw [lt_addInterval64_iff (hfits t ht), Timer.repeats, bne_iff_ne]
  omega

/-- A timer that repeats, one that does not, and one with a negative interval that is not due. -/
def mixedCalls : List (FillAct Unit) :=
  [.runEvery 0 2 (), .runAfter 0 1 (), .addTimerInLoop 1, .addTimerInLoop 0,
    .runEvery 9000000 (-1) (), .addTimerInLoop 0]

theorem mixedCalls_end :
    ∃ tr s, runAll step init mixedCalls = some (tr, s) ∧ s.queue.heap.timers.length = 3 ∧
      Ends s.queue 5000000 := by
  obtain ⟨tr, s, hrun, hlen, hl⟩ : ∃ tr s, runAll step init mixedCalls = some (tr, s) ∧
      s.queue.heap.timers.length = 3 ∧ ∀ t ∈ s.queue.heap.timers, t.expiration ≤ 5000000 →
        t.repeats = true → 5000000 < addInterval64 5000000 t.interval :=
    exists_computed (by decide +kernel)
  exact ⟨tr, s, hrun, hlen, (expiry_ends_iff (run_of_runAll hrun) _).mpr hl⟩

/-- A queue for which the loop never ends. -/
theorem spins_of_not_later {q : TimerQueue Cb} {now : ℤ} (hh : InOrder q.heap) {t : Timer Cb}
    (ht : t ∈ q.heap.timers) (hd : due now t = true) (hl : ¬ Later addInterval64 now t) :
    (∀ fuel, q.getExpiredTimers64 fuel (fun _ => now) = none) ∧ ¬ Ends q now := by
  have hnone : ∀ fuel, q.getExpiredTimers64 fuel (fun _ => now) = none := by
    intro fuel
    cases hres : q.getExpiredTimers64 fuel (fun _ => now) with
    | none => rfl
    | some r => exact absurd (later_of_getExpiredTimers hh hres t ht hd) hl
  refine ⟨hnone, ?_⟩
  rintro ⟨n, q', batch, hend, -⟩
  exact Option.some_ne_none _ ((hend n (Nat.le_refl n)).symm.trans (hnone n))

/-- A timer that expired a millisecond ago when the clock reads 9000000, and does so again when
it is re-armed. -/
theorem runEvery_spins {i : ℤ} (hi : i = -1 ∨ i = 2 ^ 63 - 1) :
    ∃ tr s, runAll step init [.runEvery 9000000 i (), .addTimerInLoop 0] =
        some (tr, (s : Filling Unit)) ∧
      (∀ fuel, s.queue.getExpiredTimers64 fuel (fun _ => 9000000) = none) ∧
      ¬ Ends s.queue 9000000 := by
  obtain ⟨tr, s, hrun, htimers, hsum, hrep⟩ : ∃ tr s,
      runAll step init [.runEvery 9000000 i (), .addTimerInLoop 0] =
        some (tr, (s : Filling Unit)) ∧
      s.queue.heap.timers = [⟨(), 8000000, i, 0⟩] ∧ addInterval64 9000000 i = 8000000 ∧
      (⟨(), 8000000, i, 0⟩ : Timer Unit).repeats = true := by
    rcases hi with rfl | rfl
    · exact exists_computed (by decide +kernel)
    · exact exists_computed (by decide +kernel)
  have hmem : (⟨(), 8000000, i, 0⟩ : Timer Unit) ∈ s.queue.heap.timers := by
    rw [htimers]
    exact List.mem_cons_self
  refine ⟨tr, s, hrun, spins_of_not_later (inOrder_of_run (run_of_runAll hrun)) hmem rfl ?_⟩
  intro hl
  have hlt := hl hrep
  rw [hsum] at hlt
  exact absurd hlt (by decide)

/-- `RunEvery` with an interval of minus one millisecond, and with `milliseconds::max()`. -/
theorem runEvery_early_spins :
    (∃ tr s, runAll step init [.runEvery 9000000 (-1) (), .addTimerInLoop 0] =
        some (tr, (s : Filling Unit)) ∧
      (∀ fuel, s.queue.getExpiredTimers64 fuel (fun _ => 9000000) = none) ∧
      ¬ Ends s.queue 9000000) ∧
    (∃ tr s, runAll step init [.runEvery 9000000 (2 ^ 63 - 1) (), .addTimerInLoop 0] =
        some (tr, (s : Filling Unit)) ∧
      (∀ fuel, s.queue.getExpiredTimers64 fuel (fun _ => 9000000) = none) ∧
      ¬ Ends s.queue 9000000) :=
  ⟨runEvery_spins (.inl rfl), runEvery_spins (.inr rfl)⟩

end Filling

end Muduo
