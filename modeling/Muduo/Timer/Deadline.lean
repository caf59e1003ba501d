/-
# `Muduo.Timer.Deadline` — is the timerfd armed for the earliest live timer?

A session is a `TimerQueue` together with the list of the timers that are live:
added, and neither cancelled nor taken out for good by `GetExpiredTimers`.  The
list is bookkeeping; no operation of the queue reads it.

`latestTime_` is the earliest expiration of a live timer after every run whose
cancellations keep the heap order.  `Del` moves the last timer into the gap and
only sifts it down, so that a cancellation keeps the order exactly when the
parent of the gap does not expire after the last timer (`KeepsOrder`); a run
with one that does not is at the end.
-/
import Muduo.Lib.Runs
import Muduo.Timer.Queue

namespace Muduo

open BinHeap Runs TimerMinHeap

variable {Cb : Type}

/-- The earliest expiration, `TimePoint_t::max()` when there is no timer. -/
def earliest (ts : List (Timer Cb)) : ℤ := ((ts.map Timer.expiration).min?).getD timePointMax

/-- A queue and the timers that are live in it. -/
structure Session (Cb : Type) where
  queue : TimerQueue Cb
  live : List (Timer Cb)

/-- The operations of the loop thread. -/
inductive TimerOp (Cb : Type)
  | addTimerInLoop (t : Timer Cb)
  | cancelTimerInLoop (id : ℤ)
  | getExpiredTimers (now : ℤ)

namespace Session

def init : Session Cb := ⟨.init, []⟩

/-- What is live once `batch` was returned at `now`. -/
def liveAfter (now : ℤ) (batch live : List (Timer Cb)) : List (Timer Cb) :=
  live.filter (fun t => t.id ∉ batch.map Timer.id) ++ rearmed now batch

/-- One operation.  Within a `GetExpiredTimers` the clock stands still; each of
its rounds deals with another timer, so that one round more than there are
timers is enough. -/
def exec (s : Session Cb) : TimerOp Cb → Option (Session Cb)
  | .addTimerInLoop t => do
      let q ← s.queue.addTimerInLoop t
      some ⟨q, t :: s.live⟩
  | .cancelTimerInLoop id => do
      let q ← s.queue.cancelTimerInLoop id
      some ⟨q, s.live.filter fun t => t.id ≠ id⟩
  | .getExpiredTimers now => do
      let r ← s.queue.getExpiredTimers (s.queue.heap.timerList.length + 1) fun _ => now
      some ⟨r.1, liveAfter now r.2 s.live⟩

/-- What a caller owes: a timer that is added has an id of its own, an
expiration other than `TimePoint_t::max()` and no negative interval. -/
def Valid (s : Session Cb) : TimerOp Cb → Prop
  | .addTimerInLoop t =>
      t.expiration ≠ timePointMax ∧ 0 ≤ t.interval ∧ ∀ u ∈ s.live, u.id ≠ t.id
  | _ => True

/-- In the heap `h`, the last timer may take the place of the one at `idx`
without being sifted up. -/
def LastMayMoveTo (h : TimerMinHeap Cb) (idx : ℕ) : Prop :=
  0 < idx → idx + 1 < h.timerList.length →
    ∀ p ∈ h.deref ((idx - 1) / 2), ∀ b ∈ h.deref (h.timerList.length - 1),
      p.expiration ≤ b.expiration

/-- A cancellation keeps the heap order. -/
def KeepsOrder (s : Session Cb) : TimerOp Cb → Prop
  | .cancelTimerInLoop id =>
      ∀ idx ∈ s.queue.heap.positions.lookup id, LastMayMoveTo s.queue.heap idx
  | _ => True

instance (s : Session Cb) : (op : TimerOp Cb) → Decidable (s.Valid op)
  | .addTimerInLoop _ => by unfold Valid; infer_instance
  | .cancelTimerInLoop _ => inferInstanceAs (Decidable True)
  | .getExpiredTimers _ => inferInstanceAs (Decidable True)

instance (h : TimerMinHeap Cb) (idx : ℕ) : Decidable (LastMayMoveTo h idx) := by
  unfold LastMayMoveTo; infer_instance

instance (s : Session Cb) : (op : TimerOp Cb) → Decidable (s.KeepsOrder op)
  | .addTimerInLoop _ => inferInstanceAs (Decidable True)
  | .cancelTimerInLoop _ => by unfold KeepsOrder; infer_instance
  | .getExpiredTimers _ => inferInstanceAs (Decidable True)

end Session

/-! ## The earliest expiration -/

section Earliest

variable {ts us : List (Timer Cb)} {t : Timer Cb}

theorem earliest_eq (ht : t ∈ ts) (hle : ∀ u ∈ ts, t.expiration ≤ u.expiration) :
    earliest ts = t.expiration := by
  have hmin : (ts.map Timer.expiration).min? = some t.expiration := by
    rw [List.min?_eq_some_iff]
    refine ⟨List.mem_map_of_mem ht, fun e he => ?_⟩
    obtain ⟨u, hu, rfl⟩ := List.mem_map.mp he
    exact hle u hu
  rw [earliest, hmin, Option.getD_some]

theorem earliest_perm (h : ts.Perm us) : earliest ts = earliest us := by
  cases hts : ts with
  | nil => rw [hts] at h; rw [h.nil_eq]
  | cons a tl =>
      obtain ⟨m, hm⟩ : ∃ m, (ts.map Timer.expiration).min? = some m :=
        Option.isSome_iff_exists.mp (by simp [hts])
      obtain ⟨hmem, hle⟩ := List.min?_eq_some_iff.mp hm
      obtain ⟨t, ht, rfl⟩ := List.mem_map.mp hmem
      have hle' : ∀ u ∈ ts, t.expiration ≤ u.expiration := fun u hu =>
        hle _ (List.mem_map_of_mem hu)
      rw [← hts, earliest_eq ht hle',
        earliest_eq (h.mem_iff.mp ht) fun u hu => hle' u (h.mem_iff.mpr hu)]

theorem earliest_of_ordered {tl : List (Timer Cb)}
    (ho : HeapOrdered Timer.expirationTime (t :: tl)) : earliest (t :: tl) = t.expiration :=
  earliest_eq List.mem_cons_self (ho.root_le (r := t) rfl)

/-- In heap order the root has the earliest expiration. -/
theorem firstExpiration_of_ordered (ho : HeapOrdered Timer.expirationTime ts) :
    TimerQueue.firstExpiration ts = earliest ts := by
  cases ts with
  | nil => rfl
  | cons t tl => exact (earliest_of_ordered ho).symm

end Earliest

/-! ## What every operation keeps -/

namespace Session

/-- The condition of `removeAt_ordered_iff` in terms of the timers. -/
theorem removeAt_ordered_iff_lastMayMoveTo {h : TimerMinHeap Cb} {ts : List (Timer Cb)} {i : ℕ}
    (r : Represents h ts) (ho : HeapOrdered Timer.expirationTime ts) (hi : i < ts.length) :
    HeapOrdered Timer.expirationTime (removeAt Timer.expirationTime ts i) ↔
      LastMayMoveTo h i := by
  have hpi : parent i < ts.length := Nat.lt_of_le_of_lt (by unfold parent; omega) hi
  have hp : ts[parent i]? = some ts[parent i] := List.getElem?_eq_getElem hpi
  have hb : ts[ts.length - 1]? = some ts[ts.length - 1] := List.getElem?_eq_getElem (by omega)
  have hp' : ts[(i - 1) / 2]? = some ts[parent i] := hp
  rw [removeAt_ordered_iff ho hi, LastMayMoveTo, r.length, keyAt_of_getElem? hp,
    keyAt_of_getElem? hb, WithTop.coe_le_coe, r.deref, r.deref, hp', hb]
  refine forall_congr' fun _ => forall_congr' fun _ => ⟨?_, fun hall => ?_⟩
  · rintro hle _ ⟨⟩ _ ⟨⟩
    exact hle
  · exact hall _ rfl _ rfl

/-- The queue holds the live timers, in heap order, and is set for the earliest. -/
structure Tracks (s : Session Cb) (ts : List (Timer Cb)) : Prop where
  represents : Represents s.queue.heap ts
  ordered : HeapOrdered Timer.expirationTime ts
  live : ts.Perm s.live
  intervals : ∀ t ∈ ts, 0 ≤ t.interval
  latest : s.queue.latestTime = earliest ts
  armed : s.queue.timerfd = TimerQueue.toItimerspec s.queue.latestTime

variable {s : Session Cb} {ts : List (Timer Cb)} {op : TimerOp Cb}

theorem tracks_init : Tracks (init : Session Cb) [] where
  represents := represents_init
  ordered := fun _ _ => le_top
  live := .nil
  intervals := fun _ h => absurd h List.not_mem_nil
  latest := rfl
  armed := rfl

theorem Tracks.holds (k : Tracks s ts) : s.queue.Holds ts :=
  ⟨k.represents, k.latest.trans (firstExpiration_of_ordered k.ordered).symm⟩

theorem Tracks.add {t : Timer Cb} (k : Tracks s ts) (hv : s.Valid (.addTimerInLoop t)) :
    ∃ s' ts', s.exec (.addTimerInLoop t) = some s' ∧ Tracks s' ts' := by
  obtain ⟨-, hi, hid⟩ := hv
  obtain ⟨q, e, l⟩ := TimerQueue.addTimerInLoop_spec k.represents fun u hu =>
    hid u (k.live.mem_iff.mp hu)
  have hperm := @push_perm _ _ _ Timer.expirationTime ts t
  have hord := push_ordered k.ordered t
  refine ⟨⟨q, t :: s.live⟩, (push Timer.expirationTime ts t).1, ?_, ?_⟩
  · simp only [exec, e, Option.bind_eq_bind, Option.bind_some]
  · exact
      { represents := l.represents
        ordered := hord
        live := hperm.trans (k.live.cons t)
        intervals := by
          intro u hu
          rcases List.mem_cons.mp (hperm.mem_iff.mp hu) with rfl | hu
          · exact hi
          · exact k.intervals u hu
        latest := (k.holds.pushed l).latest.trans (firstExpiration_of_ordered hord)
        armed := l.armed k.armed }

theorem Tracks.cancel {id : ℤ} (k : Tracks s ts) (hk : s.KeepsOrder (.cancelTimerInLoop id)) :
    ∃ s' ts', s.exec (.cancelTimerInLoop id) = some s' ∧ Tracks s' ts' := by
  rcases TimerQueue.cancelTimerInLoop_cases k.represents id with
    ⟨e, hid⟩ | ⟨i, t, q, ht, rfl, e, l⟩
  · have hlive : s.live.filter (fun t => t.id ≠ id) = s.live := by
      rw [List.filter_eq_self]
      intro t ht
      simpa using hid t (k.live.mem_iff.mpr ht)
    refine ⟨s, ts, ?_, k⟩
    simp only [exec, e, hlive, Option.bind_eq_bind, Option.bind_some]
  · obtain ⟨hi, -⟩ := List.getElem?_eq_some_iff.mp ht
    have hperm := removeAt_perm Timer.expirationTime ht
    have hord : HeapOrdered Timer.expirationTime (removeAt Timer.expirationTime ts i) :=
      (removeAt_ordered_iff_lastMayMoveTo k.represents k.ordered hi).mpr
        (hk i (k.represents.lookup ht))
    refine ⟨⟨q, s.live.filter fun u => u.id ≠ t.id⟩, removeAt Timer.expirationTime ts i, ?_, ?_⟩
    · simp only [exec, e, Option.bind_eq_bind, Option.bind_some]
    · exact
        { represents := l.represents
          ordered := hord
          live := (k.represents.removeAt_perm ht).trans (k.live.filter _)
          intervals := fun u hu =>
            k.intervals u (hperm.mem_iff.mpr (List.mem_cons_of_mem _ hu))
          latest := (k.holds.removed hi l).latest.trans (firstExpiration_of_ordered hord)
          armed := l.armed k.armed }

/-- `GetExpiredTimers` takes out what is due, and nothing that is left is due. -/
theorem Tracks.expire (k : Tracks s ts) (now : ℤ) :
    ∃ s' ts', s.exec (.getExpiredTimers now) = some s' ∧ Tracks s' ts' ∧
      ∀ t ∈ s'.live, now < t.expiration := by
  obtain ⟨batch, ts', e, hlen⟩ : ∃ batch ts', Expires (fun _ => now) 0 ts batch ts' ∧
      batch.length ≤ ts.countP (due now) :=
    expires_total fun t ht _ => later_of_nonneg (k.intervals t ht)
  obtain ⟨hbatch, -, hts', hord⟩ :=
    e.exact (fun t ht _ => later_of_nonneg (k.intervals t ht)) k.ordered
  have hfuel : batch.length < s.queue.heap.timerList.length + 1 := by
    rw [k.represents.length]
    exact Nat.lt_succ_of_le (hlen.trans List.countP_le_length)
  obtain ⟨q, hq, l⟩ := TimerQueue.getExpiredTimers_spec k.represents e
  -- a timer is in the batch exactly when it is due
  have hin : ∀ t ∈ ts, t.id ∉ batch.map Timer.id ↔ (!due now t) = true := by
    intro t ht
    rw [List.mem_map]
    constructor
    · intro hn
      by_contra hd
      exact hn ⟨t, hbatch.mem_iff.mpr (List.mem_filter.mpr ⟨ht, by simpa using hd⟩), rfl⟩
    · rintro hd ⟨u, hu, heq⟩
      obtain ⟨hu, hdu⟩ := List.mem_filter.mp (hbatch.mem_iff.mp hu)
      have : u = t := List.inj_on_of_nodup_map k.represents.nodup hu ht heq
      rw [← this, hdu] at hd
      exact Bool.noConfusion hd
  have hlive : ts'.Perm (liveAfter now batch s.live) := by
    refine hts'.trans (List.Perm.append_right _ ?_)
    refine List.Perm.trans ?_ (k.live.filter _)
    rw [List.filter_congr fun t ht => ?_]
    rw [Bool.eq_iff_iff, decide_eq_true_iff]
    exact (hin t ht).symm
  have hbint : ∀ t ∈ batch, 0 ≤ t.interval := fun t ht =>
    k.intervals t (List.mem_of_mem_filter (hbatch.mem_iff.mp ht))
  have hre : ∀ t ∈ ts', 0 ≤ t.interval ∧ due now t = false := by
    intro t ht
    rcases List.mem_append.mp (hts'.mem_iff.mp ht) with ht | ht
    · obtain ⟨hm, hd⟩ := List.mem_filter.mp ht
      exact ⟨k.intervals t hm, by simpa using hd⟩
    · obtain ⟨u, hu, rfl⟩ := List.mem_map.mp ht
      obtain ⟨hu, hrep⟩ := List.mem_filter.mp hu
      exact ⟨hbint u hu, not_due_rearm (later_of_nonneg (hbint u hu)) hrep⟩
  refine ⟨⟨q, liveAfter now batch s.live⟩, ts', ?_,
    ⟨l.represents, hord, hlive, fun t ht => (hre t ht).1,
    l.latest.trans (firstExpiration_of_ordered hord), l.armed k.armed⟩, fun t ht => ?_⟩
  · rw [exec, hq hfuel]
    rfl
  · exact not_le.mp (of_decide_eq_false (hre t (hlive.mem_iff.mpr ht)).2)

/-- Every valid operation that keeps the order has a result that is tracked. -/
theorem Tracks.exec (k : Tracks s ts) (hv : s.Valid op) (hk : s.KeepsOrder op) :
    ∃ s' ts', s.exec op = some s' ∧ Tracks s' ts' := by
  cases op with
  | addTimerInLoop t => exact k.add hv
  | cancelTimerInLoop id => exact k.cancel hk
  | getExpiredTimers now =>
      obtain ⟨s', ts', e, k', -⟩ := k.expire now
      exact ⟨s', ts', e, k'⟩

theorem tracks_of_run {tr : List (Session Cb × TimerOp Cb)}
    (hr : Run (stepOf exec) init tr s) (hv : ∀ p ∈ tr, Valid p.1 p.2)
    (hk : ∀ p ∈ tr, KeepsOrder p.1 p.2) : ∃ ts, Tracks s ts := by
  refine hr.invariant_of (I := fun s => ∃ ts, Tracks s ts)
    (G := fun s op => s.Valid op ∧ s.KeepsOrder op) (fun p hp => ⟨hv p hp, hk p hp⟩)
    ⟨[], tracks_init⟩ ?_
  rintro t op u ⟨ts, k⟩ ⟨hv, hk⟩ hst
  obtain ⟨u', ts', e, k'⟩ := k.exec hv hk
  obtain rfl : u' = u := Option.some.inj (e.symm.trans hst)
  exact ⟨ts', k'⟩

/-! ## The deadline -/

/-- When every cancellation of a run keeps the heap order, `latestTime_` is the
earliest expiration of a live timer and the timerfd is set for it, the next
`GetExpiredTimers` leaves no live timer overdue, and no further operation that
keeps the order fails. -/
theorem latestTime_eq_earliest {tr : List (Session Cb × TimerOp Cb)}
    (hr : Run (stepOf exec) init tr s) (hv : ∀ p ∈ tr, Valid p.1 p.2)
    (hk : ∀ p ∈ tr, KeepsOrder p.1 p.2) :
    s.queue.latestTime = earliest s.live ∧
      s.queue.timerfd = TimerQueue.toItimerspec (earliest s.live) ∧
      (∀ now, ∃ s', s.exec (.getExpiredTimers now) = some s' ∧
        ∀ t ∈ s'.live, now < t.expiration) ∧
      ∀ op, s.Valid op → s.KeepsOrder op → ∃ s', s.exec op = some s' := by
  obtain ⟨ts, k⟩ := tracks_of_run hr hv hk
  have hlatest : s.queue.latestTime = earliest s.live := k.latest.trans (earliest_perm k.live)
  refine ⟨hlatest, hlatest ▸ k.armed, fun now => ?_, fun op hv hk => ?_⟩
  · obtain ⟨s', -, e, -, hn⟩ := k.expire now
    exact ⟨s', e, hn⟩
  · obtain ⟨s', -, e, -⟩ := k.exec hv hk
    exact ⟨s', e⟩

/-- A timer that expires once, at `expiration`. -/
def oneShot (id expiration : ℤ) : Timer Unit := ⟨(), expiration, 0, id⟩

/-- Two timers, one of them repeating; the other is cancelled, and the clock then reads 5. -/
def steadyRun : List (TimerOp Unit) :=
  [.addTimerInLoop ⟨(), 4, 2, 0⟩, .addTimerInLoop (oneShot 1 3), .cancelTimerInLoop 1,
    .getExpiredTimers 5]

theorem latestTime_steadyRun :
    ∃ tr s, runAll exec init steadyRun = some (tr, s) ∧ s.queue.latestTime = 2000005 ∧
      s.queue.latestTime = earliest s.live ∧ ∃ s', s.exec (.cancelTimerInLoop 0) = some s' := by
  obtain ⟨tr, s, hrun, hv, hk, hlatest, hkeeps⟩ : ∃ tr s,
      runAll exec init steadyRun = some (tr, s) ∧ (∀ p ∈ tr, Valid p.1 p.2) ∧
        (∀ p ∈ tr, KeepsOrder p.1 p.2) ∧ s.queue.latestTime = 2000005 ∧
        s.KeepsOrder (.cancelTimerInLoop 0) :=
    exists_computed (by decide +kernel)
  obtain ⟨hmin, -, -, hnext⟩ := latestTime_eq_earliest (run_of_runAll hrun) hv hk
  exact ⟨tr, s, hrun, hlatest, hmin, hnext _ trivial hkeeps⟩

/-- The timer 3 stands under the timer 1, which expires at 10; the last timer,
which expires at 3, takes its place and stays there.  When the clock reads 3 the
two earliest timers are taken out, and the one that is due next is hidden. -/
def hiddenRun : List (TimerOp Unit) :=
  [.addTimerInLoop (oneShot 0 1), .addTimerInLoop (oneShot 1 10), .addTimerInLoop (oneShot 2 2),
    .addTimerInLoop (oneShot 3 11), .addTimerInLoop (oneShot 4 12), .addTimerInLoop (oneShot 5 3),
    .cancelTimerInLoop 3, .addTimerInLoop (oneShot 6 20), .getExpiredTimers 3]

theorem hiddenRun_misses_deadline :
    ∃ tr s, runAll exec init hiddenRun = some (tr, s) ∧ (∀ p ∈ tr, Valid p.1 p.2) ∧
      s.queue.latestTime = 10 ∧ earliest s.live = 3 ∧ oneShot 5 3 ∈ s.live :=
  exists_computed (by decide +kernel)

end Session

end Muduo
