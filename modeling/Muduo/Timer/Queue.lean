/-
# `Muduo.Timer.Queue` — what the operations of TimerQueue do to a list of timers

`Leaves q q' ts' latest`: an operation on `q` has left `q'`, whose heap represents
`ts'`, and `latest` as the deadline.

    AddTimerInLoop       the list with the timer pushed
    CancelTimerInLoop    the list without the timer, if there is such a timer
    GetExpiredTimers     what its rounds leave

`Holds q ts`: the heap represents `ts`, and the deadline is the expiration of the
first of them, the root.  All operations keep it, in heap order or not; that the
root is the earliest timer is another matter.
-/
import Muduo.Timer.Expire

namespace Muduo

open BinHeap TimerMinHeap

variable {Cb : Type}

/-- Without the timer at the front, the others are those under another id. -/
theorem perm_filter_ne {t : Timer Cb} {tl l : List (Timer Cb)} (h : (t :: tl).Perm l)
    (hnd : ((t :: tl).map Timer.id).Nodup) : tl.Perm (l.filter fun u => u.id ≠ t.id) := by
  have hne : ∀ u ∈ tl, u.id ≠ t.id := by
    intro u hu heq
    exact (List.nodup_cons.mp hnd).1 (heq ▸ List.mem_map_of_mem hu)
  have hf := h.filter fun u => decide (u.id ≠ t.id)
  rwa [List.filter_cons_of_neg (by simp),
    List.filter_eq_self.mpr fun u hu => decide_eq_true (hne u hu)] at hf

/-- The timers left when the one at `i` is taken out. -/
theorem TimerMinHeap.Represents.removeAt_perm {h : TimerMinHeap Cb} {ts : List (Timer Cb)} {i : ℕ}
    {t : Timer Cb} (r : Represents h ts) (ht : ts[i]? = some t) :
    (removeAt Timer.expirationTime ts i).Perm (ts.filter fun u => u.id ≠ t.id) := by
  have hperm := BinHeap.removeAt_perm Timer.expirationTime ht
  exact perm_filter_ne hperm.symm ((hperm.map Timer.id).nodup_iff.mp r.nodup)

namespace TimerQueue

/-- The expiration of the root, `TimePoint_t::max()` when there is none. -/
def firstExpiration (ts : List (Timer Cb)) : ℤ := ts[0]?.elim timePointMax Timer.expiration

/-- What an operation leaves of `q`: a heap that represents `ts'`, and the deadline `latest`;
the timerfd is set for the deadline if it was before. -/
structure Leaves (q q' : TimerQueue Cb) (ts' : List (Timer Cb)) (latest : ℤ) : Prop where
  represents : Represents q'.heap ts'
  latest : q'.latestTime = latest
  nextTimerId : q'.nextTimerId = q.nextTimerId
  armed : q.timerfd = toItimerspec q.latestTime → q'.timerfd = toItimerspec q'.latestTime

variable {q q' : TimerQueue Cb} {h : TimerMinHeap Cb} {ts : List (Timer Cb)} {t : Timer Cb}

/-- `latestTime_` as it is read from the heap. -/
theorem latestOf_represents (r : Represents h ts) : latestOf h = some (firstExpiration ts) := by
  unfold latestOf top
  rw [r.isEmpty, r.deref]
  cases ts <;> rfl

/-! ## One operation -/

/-- AddTimerInLoop notes the deadline of a timer that has become the root. -/
theorem addTimerInLoop_spec (r : Represents q.heap ts) (ht : ∀ u ∈ ts, u.id ≠ t.id) :
    ∃ q', q.addTimerInLoop t = some q' ∧ q.Leaves q' (push Timer.expirationTime ts t).1
      (if (push Timer.expirationTime ts t).2 = 0 then t.expiration else q.latestTime) := by
  obtain ⟨h', e', r'⟩ := add_spec r ht
  by_cases h0 : (push Timer.expirationTime ts t).2 = 0
  · refine ⟨{ q with heap := h', latestTime := t.expiration }.resetTimerfd, ?_, r', ?_, rfl,
      fun _ => rfl⟩
    · simp [addTimerInLoop, e', h0, Timer.expirationTime]
    · rw [if_pos h0]
      rfl
  · refine ⟨{ q with heap := h' }, ?_, r', ?_, rfl, fun harmed => harmed⟩
    · simp [addTimerInLoop, e', h0]
    · rw [if_neg h0]

theorem cancelTimerInLoop_absent {id : ℤ} (r : Represents q.heap ts) (hid : ∀ u ∈ ts, u.id ≠ id) :
    q.cancelTimerInLoop id = some q := by
  simp only [cancelTimerInLoop, del_spec_absent r hid, Option.bind_eq_bind, Option.bind_some,
    Bool.false_eq_true, if_false]

/-- CancelTimerInLoop looks for another deadline when it has taken out the root. -/
theorem cancelTimerInLoop_spec {i : ℕ} (r : Represents q.heap ts) (ht : ts[i]? = some t) :
    ∃ q', q.cancelTimerInLoop t.id = some q' ∧
      q.Leaves q' (removeAt Timer.expirationTime ts i)
        (if i = 0 then firstExpiration (removeAt Timer.expirationTime ts i) else q.latestTime) := by
  obtain ⟨h', e', r'⟩ := del_spec r ht
  by_cases h0 : i = 0
  · refine ⟨{ q with
        heap := h',
        latestTime := firstExpiration (removeAt Timer.expirationTime ts i) }.resetTimerfd, ?_, r',
      ?_, rfl, fun _ => rfl⟩
    · simp [cancelTimerInLoop, e', h0, latestOf_represents (h0 ▸ r')]
    · rw [if_pos h0]
      rfl
  · refine ⟨{ q with heap := h' }, ?_, r', ?_, rfl, fun harmed => harmed⟩
    · simp [cancelTimerInLoop, e', h0]
    · rw [if_neg h0]

/-- Either there is no such timer, and CancelTimerInLoop does nothing, or it takes it out. -/
theorem cancelTimerInLoop_cases (r : Represents q.heap ts) (id : ℤ) :
    (q.cancelTimerInLoop id = some q ∧ ∀ u ∈ ts, u.id ≠ id) ∨
      ∃ i t q', ts[i]? = some t ∧ t.id = id ∧ q.cancelTimerInLoop id = some q' ∧
        q.Leaves q' (removeAt Timer.expirationTime ts i)
          (if i = 0 then firstExpiration (removeAt Timer.expirationTime ts i)
            else q.latestTime) := by
  by_cases hid : ∀ u ∈ ts, u.id ≠ id
  · exact .inl ⟨cancelTimerInLoop_absent r hid, hid⟩
  · push Not at hid
    obtain ⟨t, htm, rfl⟩ := hid
    obtain ⟨i, ht⟩ := List.mem_iff_getElem?.mp htm
    obtain ⟨q', e', l⟩ := cancelTimerInLoop_spec r ht
    exact .inr ⟨i, t, q', ht, rfl, e', l⟩

/-- GetExpiredTimers ends when its rounds do, and has read the deadline from the heap. -/
theorem getExpiredTimersBy_spec {sum : ℤ → ℤ → ℤ} {clock : ℕ → ℤ} {batch ts' : List (Timer Cb)}
    (r : Represents q.heap ts) (e : ExpiresBy sum clock 0 ts batch ts') :
    ∃ q', (∀ {fuel : ℕ}, batch.length < fuel →
        q.getExpiredTimersBy sum fuel clock = some (q', batch)) ∧
      q.Leaves q' ts' (firstExpiration ts') := by
  obtain ⟨h', e', r'⟩ := expireLoop_spec e [] r
  refine ⟨{ q with heap := h', latestTime := firstExpiration ts' }.resetTimerfd,
    fun {fuel} hf => ?_, r', rfl, rfl, fun _ => rfl⟩
  simp only [getExpiredTimersBy, e' hf, latestOf_represents r', List.nil_append,
    Option.bind_eq_bind, Option.bind_some]

theorem getExpiredTimers_spec {clock : ℕ → ℤ} {batch ts' : List (Timer Cb)}
    (r : Represents q.heap ts) (e : Expires clock 0 ts batch ts') :
    ∃ q', (∀ {fuel : ℕ}, batch.length < fuel →
        q.getExpiredTimers fuel clock = some (q', batch)) ∧
      q.Leaves q' ts' (firstExpiration ts') :=
  getExpiredTimersBy_spec r e

/-- A call of GetExpiredTimers that has ended has taken the rounds of a batch. -/
theorem expires_of_getExpiredTimersBy {sum : ℤ → ℤ → ℤ} {fuel : ℕ} {clock : ℕ → ℤ}
    {batch : List (Timer Cb)} (r : Represents q.heap ts)
    (h : q.getExpiredTimersBy sum fuel clock = some (q', batch)) :
    ∃ ts', ExpiresBy sum clock 0 ts batch ts' ∧ q.Leaves q' ts' (firstExpiration ts') := by
  obtain ⟨⟨h', res⟩, hloop, h⟩ := Option.bind_eq_some_iff.mp h
  obtain ⟨latest, hlatest, h⟩ := Option.bind_eq_some_iff.mp h
  obtain ⟨rfl, rfl⟩ := Prod.mk.inj (Option.some.inj h)
  obtain ⟨batch, ts', e, rfl, r'⟩ := expires_of_expireLoop r hloop
  rw [latestOf_represents r'] at hlatest
  exact ⟨ts', e, r', (Option.some.inj hlatest).symm, rfl, fun _ => rfl⟩

theorem expires_of_getExpiredTimers {fuel : ℕ} {clock : ℕ → ℤ} {batch : List (Timer Cb)}
    (r : Represents q.heap ts) (h : q.getExpiredTimers fuel clock = some (q', batch)) :
    ∃ ts', Expires clock 0 ts batch ts' ∧ q.Leaves q' ts' (firstExpiration ts') :=
  expires_of_getExpiredTimersBy r h

/-- While no sum of the call overflows, what the machine computes is GetExpiredTimers with the
sums as integers. -/
theorem getExpiredTimers64_eq {clock : ℕ → ℤ} (r : Represents q.heap ts)
    (hfits : ∀ t ∈ ts, t.repeats = true → ∀ k, Fits64 (addInterval (clock k) t.interval))
    (fuel : ℕ) : q.getExpiredTimers64 fuel clock = q.getExpiredTimers fuel clock := by
  rw [getExpiredTimers64, getExpiredTimers, getExpiredTimersBy, getExpiredTimersBy,
    expireLoop_congr r fun t ht hrep k => addInterval64_of_fits (hfits t ht hrep k)]

/-! ## The deadline is that of the root -/

/-- The queue holds `ts`, and its deadline is the expiration of the first of them. -/
structure Holds (q : TimerQueue Cb) (ts : List (Timer Cb)) : Prop where
  represents : Represents q.heap ts
  latest : q.latestTime = firstExpiration ts

theorem holds_init : Holds (init : TimerQueue Cb) [] := ⟨represents_init, rfl⟩

/-- The root after a push, and with it the deadline. -/
theorem Holds.pushed (hq : Holds q ts)
    (l : q.Leaves q' (push Timer.expirationTime ts t).1
      (if (push Timer.expirationTime ts t).2 = 0 then t.expiration else q.latestTime)) :
    Holds q' (push Timer.expirationTime ts t).1 := by
  refine ⟨l.represents, l.latest.trans ?_⟩
  rw [firstExpiration, getElem?_zero_push]
  split
  · rfl
  · exact hq.latest

/-- Unless it is taken out the root stays, and with it the deadline. -/
theorem Holds.removed {i : ℕ} (hq : Holds q ts) (hi : i < ts.length)
    (l : q.Leaves q' (removeAt Timer.expirationTime ts i)
      (if i = 0 then firstExpiration (removeAt Timer.expirationTime ts i) else q.latestTime)) :
    Holds q' (removeAt Timer.expirationTime ts i) := by
  refine ⟨l.represents, l.latest.trans ?_⟩
  split
  · rfl
  · next h0 =>
      rw [firstExpiration, getElem?_zero_removeAt hi (Nat.pos_of_ne_zero h0)]
      exact hq.latest

theorem Holds.add (hq : Holds q ts) (ht : ∀ u ∈ ts, u.id ≠ t.id) :
    ∃ q' ts', q.addTimerInLoop t = some q' ∧ Holds q' ts' ∧ ts'.Perm (t :: ts) := by
  obtain ⟨q', e', l⟩ := addTimerInLoop_spec hq.represents ht
  exact ⟨q', _, e', hq.pushed l, push_perm _ _⟩

theorem Holds.cancel (hq : Holds q ts) (id : ℤ) :
    ∃ q' ts', q.cancelTimerInLoop id = some q' ∧ Holds q' ts' ∧
      ts'.Perm (ts.filter fun u => u.id ≠ id) := by
  rcases cancelTimerInLoop_cases hq.represents id with ⟨e, hid⟩ | ⟨i, t, q', ht, rfl, e, l⟩
  · refine ⟨q, ts, e, hq, ?_⟩
    rw [List.filter_eq_self.mpr fun u hu => decide_eq_true (hid u hu)]
  · obtain ⟨hi, -⟩ := List.getElem?_eq_some_iff.mp ht
    exact ⟨q', _, e, hq.removed hi l, hq.represents.removeAt_perm ht⟩

theorem Holds.expire {fuel : ℕ} {clock : ℕ → ℤ} {batch : List (Timer Cb)} (hq : Holds q ts)
    (h : q.getExpiredTimers fuel clock = some (q', batch)) :
    ∃ ts', Expires clock 0 ts batch ts' ∧ Holds q' ts' := by
  obtain ⟨ts', e, l⟩ := expires_of_getExpiredTimers hq.represents h
  exact ⟨ts', e, l.represents, l.latest⟩

end TimerQueue

end Muduo
