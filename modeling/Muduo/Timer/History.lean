/-
# `Muduo.Timer.History` — runs of a timer queue, with their course of events

A history is a `TimerQueue` together with the events so far and the number of times
the clock was read.  `clock k` is the reading `k` of the whole run: the clock may
advance within a call of `GetExpiredTimers`.

    course_of_run      every run with distinct ids is a course of events
    index_exact        the heap holds the live timers, its index is exact, no call fails
    returns_on_time    what the events promise (`OnTime`)

None of this needs the heap to be in order.
-/
import Muduo.Lib.Runs
import Muduo.Timer.Course
import Muduo.Timer.Queue

namespace Muduo

open BinHeap Runs TimerMinHeap TimerEvent

variable {Cb : Type}

structure TimerHistory (Cb : Type) where
  queue : TimerQueue Cb
  readings : ℕ
  log : List (TimerEvent Cb)

inductive QueueOp (Cb : Type)
  | addTimerInLoop (t : Timer Cb)
  | cancelTimerInLoop (id : ℤ)
  | getExpiredTimers (fuel : ℕ)

namespace TimerHistory

def init : TimerHistory Cb := ⟨.init, 0, []⟩

/-- The returns of a batch, the first of which was found due at reading `k`; and the
number of readings after the last one. -/
def returns : ℕ → List (Timer Cb) → List (TimerEvent Cb) × ℕ
  | k, [] => ([], k)
  | k, t :: ts =>
      (.returned t k :: (returns (k + t.readings) ts).1, (returns (k + t.readings) ts).2)

/-- One operation.  `getExpiredTimers fuel` is a call whose loop has ended within `fuel` rounds;
if timers are left, the last reading is the one that found none of them due. -/
def exec (clock : ℕ → ℤ) (s : TimerHistory Cb) : QueueOp Cb → Option (TimerHistory Cb)
  | .addTimerInLoop t => do
      let q ← s.queue.addTimerInLoop t
      some ⟨q, s.readings, s.log ++ [.added t]⟩
  | .cancelTimerInLoop id => do
      let q ← s.queue.cancelTimerInLoop id
      some ⟨q, s.readings, s.log ++ [.cancelled id]⟩
  | .getExpiredTimers fuel => do
      let (q, batch) ← s.queue.getExpiredTimers fuel fun i => clock (s.readings + i)
      let (events, k) := returns s.readings batch
      some ⟨q, if q.heap.isEmpty then k else k + 1, s.log ++ events⟩

/-- A timer that is added has an id of its own. -/
def Valid (s : TimerHistory Cb) : QueueOp Cb → Prop
  | .addTimerInLoop t => ∀ u ∈ addedTimers s.log, u.id ≠ t.id
  | .cancelTimerInLoop _ | .getExpiredTimers _ => True

instance (s : TimerHistory Cb) : (op : QueueOp Cb) → Decidable (s.Valid op)
  | .addTimerInLoop _ => inferInstanceAs (Decidable (∀ _ ∈ _, _))
  | .cancelTimerInLoop _ | .getExpiredTimers _ => inferInstanceAs (Decidable True)

variable {clock : ℕ → ℤ} {s s' : TimerHistory Cb} {ts : List (Timer Cb)} {op : QueueOp Cb}

/-! ## The events of a batch -/

/-- The rounds of the loop, one event each. -/
theorem course_of_expires {base k : ℕ} {batch ts' : List (Timer Cb)}
    (e : Expires (fun i => clock (base + i)) k ts batch ts') :
    ∀ {log : List (TimerEvent Cb)}, Course clock (base + k) log → ts.Perm (live clock log) →
      (ts.map Timer.id).Nodup →
      Course clock (returns (base + k) batch).2 (log ++ (returns (base + k) batch).1) ∧
        ts'.Perm (live clock (log ++ (returns (base + k) batch).1)) := by
  induction e with
  | done =>
      intro log c hp _
      rw [returns, List.append_nil]
      exact ⟨c, hp⟩
  | wait =>
      intro log c hp _
      rw [returns, List.append_nil]
      exact ⟨c, hp⟩
  | @again k t tl batch ts' hle hrep _ ih =>
      intro log c hp hnd
      have hroot := replaceRoot_perm Timer.expirationTime (r := t) tl
        (t.rearm (clock (base + k + 1)))
      have hc := c.returned (hp.mem_iff.mp List.mem_cons_self) hle
      have hlive : (t.rearm (clock (base + k + 1)) :: tl).Perm
          (live clock (log ++ [.returned t (base + k)])) := by
        rw [live_snoc, apply_returned_again hrep]
        exact (perm_filter_ne hp hnd).cons _
      have hk : base + k + t.readings = base + (k + 2) := by
        rw [Timer.readings, if_pos hrep, Nat.add_assoc]
      rw [hk] at hc
      have := ih hc (hroot.trans hlive) ((hroot.map Timer.id).nodup_iff.mpr hnd)
      rwa [← hk, List.append_assoc] at this
  | @once k t tl batch ts' hle hrep _ ih =>
      intro log c hp hnd
      have hroot := removeAt_root_perm t tl
      have hc := c.returned (hp.mem_iff.mp List.mem_cons_self) hle
      have hlive : tl.Perm (live clock (log ++ [.returned t (base + k)])) := by
        rw [live_snoc, apply_returned_once hrep]
        exact perm_filter_ne hp hnd
      have hk : base + k + t.readings = base + (k + 1) := by
        rw [Timer.readings, if_neg (hrep ▸ Bool.false_ne_true), Nat.add_assoc]
      rw [hk] at hc
      have := ih hc (hroot.trans hlive)
        ((hroot.map Timer.id).nodup_iff.mpr (List.nodup_cons.mp hnd).2)
      rwa [← hk, List.append_assoc] at this

/-! ## Runs -/

/-- The queue holds the live timers of a course of events. -/
structure Follows (clock : ℕ → ℤ) (s : TimerHistory Cb) (ts : List (Timer Cb)) : Prop where
  holds : s.queue.Holds ts
  course : Course clock s.readings s.log
  live : ts.Perm (live clock s.log)

theorem follows_init : Follows clock (init : TimerHistory Cb) [] :=
  ⟨TimerQueue.holds_init, .nil, .nil⟩

theorem Follows.live_added (f : Follows clock s ts) :
    ∀ u ∈ ts, ∃ a ∈ addedTimers s.log, a.id = u.id := by
  intro u hu
  obtain ⟨a, ha, haid, -⟩ := f.course.origin u (f.live.mem_iff.mp hu)
  exact ⟨a, ha, haid⟩

theorem Follows.exec (f : Follows clock s ts) (hv : s.Valid op) (h : s.exec clock op = some s') :
    ∃ ts', Follows clock s' ts' := by
  cases op with
  | addTimerInLoop t =>
      have hfresh : ∀ u ∈ ts, u.id ≠ t.id := by
        intro u hu heq
        obtain ⟨a, ha, haid⟩ := f.live_added u hu
        exact hv a ha (haid.trans heq)
      obtain ⟨q, ts', e, hq, hp⟩ := f.holds.add hfresh
      obtain ⟨q', hq', h⟩ := Option.bind_eq_some_iff.mp h
      obtain rfl := Option.some.inj (e.symm.trans hq')
      refine ⟨ts', Option.some.inj h ▸ ⟨hq, f.course.added hv, ?_⟩⟩
      rw [live_snoc]
      exact hp.trans (f.live.cons t)
  | cancelTimerInLoop id =>
      obtain ⟨q, ts', e, hq, hp⟩ := f.holds.cancel id
      obtain ⟨q', hq', h⟩ := Option.bind_eq_some_iff.mp h
      obtain rfl := Option.some.inj (e.symm.trans hq')
      refine ⟨ts', Option.some.inj h ▸ ⟨hq, f.course.cancelled, ?_⟩⟩
      rw [live_snoc]
      exact hp.trans (f.live.filter _)
  | getExpiredTimers fuel =>
      obtain ⟨⟨q, batch⟩, hq, h⟩ := Option.bind_eq_some_iff.mp h
      obtain ⟨ts', e, hq'⟩ := f.holds.expire hq
      obtain ⟨hc, hp⟩ := course_of_expires e f.course f.live f.holds.represents.nodup
      refine ⟨ts', Option.some.inj h ▸ ⟨hq', ?_, hp⟩⟩
      dsimp only
      split
      · exact hc
      · exact hc.read

theorem follows_of_run {tr : List (TimerHistory Cb × QueueOp Cb)}
    (hr : Run (stepOf (exec clock)) init tr s) (hv : ∀ p ∈ tr, Valid p.1 p.2) :
    ∃ ts, Follows clock s ts := by
  refine hr.invariant_of (I := fun s => ∃ ts, Follows clock s ts) (G := Valid) hv
    ⟨[], follows_init⟩ ?_
  rintro t op u ⟨ts, f⟩ hv hst
  exact f.exec hv hst

/-- In every state of a run with distinct ids, no entry of `timerList` is null, its timers
are the live ones, each once, and `positions` maps their ids, and no others, to where
they stand.  None of the operations that may come next dereferences a null entry or
fails in an assertion; of `GetExpiredTimers` this is said round by round. -/
theorem index_exact {tr : List (TimerHistory Cb × QueueOp Cb)}
    (hr : Run (stepOf (exec clock)) init tr s) (hv : ∀ p ∈ tr, Valid p.1 p.2) :
    (∃ ts : List (Timer Cb), s.queue.heap.timerList = ts.map some ∧ ts.Perm (live clock s.log) ∧
      (ts.map Timer.id).Nodup ∧
      ∀ id i, s.queue.heap.positions.lookup id = some i ↔ (ts.map Timer.id)[i]? = some id) ∧
    (∀ t, s.Valid (.addTimerInLoop t) → ∃ q, s.queue.addTimerInLoop t = some q) ∧
    (∀ id, ∃ q, s.queue.cancelTimerInLoop id = some q) ∧
    ∀ k h, Rounds (fun i => clock (s.readings + i)) 0 s.queue.heap k h →
      (∃ o, expireRound (fun i => clock (s.readings + i)) k h = some o) ∧
        ∃ latest, TimerQueue.latestOf h = some latest := by
  obtain ⟨ts, f⟩ := follows_of_run hr hv
  have r := f.holds.represents
  refine ⟨⟨ts, r.list, f.live, r.nodup, r.exact⟩, fun t hv => ?_, fun id => ?_,
    fun k h hrounds => ?_⟩
  · obtain ⟨q, -, e, -⟩ := f.holds.add fun u hu heq => by
      obtain ⟨a, ha, haid⟩ := f.live_added u hu
      exact hv a ha (haid.trans heq)
    exact ⟨q, e⟩
  · obtain ⟨q, -, e, -⟩ := f.holds.cancel id
    exact ⟨q, e⟩
  · obtain ⟨ts', r'⟩ := hrounds.represents r
    obtain ⟨o, ho, -⟩ := expireRound_spec r'
    exact ⟨⟨o, ho⟩, _, TimerQueue.latestOf_represents r'⟩

/-- In a run with distinct ids, whatever the clock shows as long as it does not go back,
timers are returned when and as often as promised. -/
theorem returns_on_time {tr : List (TimerHistory Cb × QueueOp Cb)} (hclock : Steady clock)
    (hr : Run (stepOf (exec clock)) init tr s) (hv : ∀ p ∈ tr, Valid p.1 p.2) :
    OnTime clock s.log := by
  obtain ⟨ts, f⟩ := follows_of_run hr hv
  exact f.course.onTime hclock

/-- A clock that advances by a millisecond with every reading. -/
def ticking (k : ℕ) : ℤ := 1000000 * k

theorem steady_ticking : Steady ticking := by
  intro j k hle
  exact Int.mul_le_mul_of_nonneg_left (Int.ofNat_le.mpr hle) (by decide)

/-- The repeating timer is returned, re-armed, and returned again in the same call. -/
def tickingRun : List (QueueOp Unit) :=
  [.addTimerInLoop ⟨(), 0, 2, 0⟩, .addTimerInLoop ⟨(), 1, 0, 1⟩, .addTimerInLoop ⟨(), 2, 0, 2⟩,
    .cancelTimerInLoop 2, .cancelTimerInLoop 7, .getExpiredTimers 4]

theorem index_tickingRun :
    ∃ tr s, runAll (exec ticking) init tickingRun = some (tr, s) ∧
      live ticking s.log = [⟨(), 6000000, 2, 0⟩] ∧
      (∃ ts : List (Timer Unit), s.queue.heap.timerList = ts.map some ∧
        ts.Perm (live ticking s.log)) ∧
      ∃ q, s.queue.cancelTimerInLoop 0 = some q := by
  obtain ⟨tr, s, hrun, hv, hlive⟩ : ∃ tr s, runAll (exec ticking) init tickingRun = some (tr, s) ∧
      (∀ p ∈ tr, Valid p.1 p.2) ∧ live ticking s.log = [⟨(), 6000000, 2, 0⟩] :=
    exists_computed (by decide +kernel)
  obtain ⟨⟨ts, hts, hp, -⟩, -, hcancel, -⟩ := index_exact (run_of_runAll hrun) hv
  exact ⟨tr, s, hrun, hlive, ⟨ts, hts, hp⟩, hcancel 0⟩

theorem tickingRun_on_time :
    ∃ tr s, runAll (exec ticking) init tickingRun = some (tr, s) ∧
      returnsOf 0 s.log = [0, 3] ∧ returnsOf 1 s.log = [2] ∧ returnsOf 2 s.log = [] ∧
      OnTime ticking s.log := by
  obtain ⟨tr, s, hrun, hv, h₀, h₁, h₂⟩ : ∃ tr s,
      runAll (exec ticking) init tickingRun = some (tr, s) ∧ (∀ p ∈ tr, Valid p.1 p.2) ∧
        returnsOf 0 s.log = [0, 3] ∧ returnsOf 1 s.log = [2] ∧ returnsOf 2 s.log = [] :=
    exists_computed (by decide +kernel)
  exact ⟨tr, s, hrun, h₀, h₁, h₂, returns_on_time steady_ticking (run_of_runAll hrun) hv⟩

/-- A cancellation that comes before its timer is not remembered. -/
theorem cancelled_first_returned :
    ∃ tr s, runAll (exec ticking) init
        [.cancelTimerInLoop 5, .addTimerInLoop ⟨(), 0, 0, 5⟩, .getExpiredTimers 2] = some (tr, s) ∧
      Steady ticking ∧ (∀ p ∈ tr, Valid p.1 p.2) ∧
      ∃ post, s.log = .cancelled 5 :: post ∧ returnsOf 5 post = [0] := by
  obtain ⟨tr, s, hrun, hv, hlog⟩ : ∃ tr s, runAll (exec ticking) init
        [.cancelTimerInLoop 5, .addTimerInLoop ⟨(), 0, 0, 5⟩, .getExpiredTimers 2] = some (tr, s) ∧
      (∀ p ∈ tr, Valid p.1 p.2) ∧
      s.log = [.cancelled 5, .added ⟨(), 0, 0, 5⟩, .returned ⟨(), 0, 0, 5⟩ 0] :=
    exists_computed (by decide +kernel)
  exact ⟨tr, s, hrun, steady_ticking, hv, _, hlog, by decide⟩

end TimerHistory

end Muduo
