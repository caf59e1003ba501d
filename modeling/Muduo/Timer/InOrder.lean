/-
# `Muduo.Timer.InOrder` — Add, Del and GetExpiredTimers on a heap in order

`InOrder h`: no timer of `timerList` expires before its parent, no entry is
null, and `positions` is exact.

    addTimerInLoop_exact       Add puts its timer in, in order, and says true for a timer
                               that expires before all others; the deadline and the
                               timerfd change with the earliest expiration
    del_inOrder_iff            Del takes out its timer and no other, and says true for
                               the root alone; the others are in order again exactly
                               when the last one may stand in the gap
    getExpiredTimers_exact     on a clock that stands still, the batch is what is due;
                               the queue keeps the rest and the re-armed timers
-/
import Muduo.Timer.Deadline

namespace Muduo

open BinHeap Runs TimerMinHeap

variable {Cb : Type}

namespace TimerMinHeap

/-- `timerList` is in heap order by `ExpirationTime()`, and `positions` is exact. -/
def InOrder (h : TimerMinHeap Cb) : Prop :=
  ∃ ts, Represents h ts ∧ HeapOrdered Timer.expirationTime ts

variable {h : TimerMinHeap Cb} {ts : List (Timer Cb)} {i : ℕ} {id : ℤ}

/-- An entry does not expire before its parent. -/
theorem InOrder.parent_le (hh : InOrder h) {p c : Timer Cb} (h0 : 0 < i)
    (hp : h.deref (parent i) = some p) (hc : h.deref i = some c) : p.expiration ≤ c.expiration := by
  obtain ⟨ts, r, ho⟩ := hh
  rw [r.deref] at hp hc
  have hle := ho i h0
  rwa [keyAt_of_getElem? hp, keyAt_of_getElem? hc, WithTop.coe_le_coe] at hle

/-! ## Add -/

/-- `Add(t)` has put `t` into the heap, in order and under a position of its own; the
Boolean says that no timer was there or that all expire later. -/
structure Added (h : TimerMinHeap Cb) (t : Timer Cb) (h' : TimerMinHeap Cb) (first : Bool) :
    Prop where
  add : h.add t = some (h', first)
  inOrder : InOrder h'
  timers : h'.timers.Perm (t :: h.timers)
  first_iff : first = true ↔ h.timers = [] ∨ ∀ u ∈ h.timers, t.expiration < u.expiration

theorem added_of_inOrder (hh : InOrder h) {t : Timer Cb} (hid : ∀ u ∈ h.timers, u.id ≠ t.id) :
    ∃ h' first, Added h t h' first := by
  obtain ⟨ts, r, ho⟩ := hh
  rw [r.timers] at hid
  obtain ⟨h', e', r'⟩ := add_spec r hid
  refine ⟨h', _, e', ⟨_, r', push_ordered ho t⟩, ?_, ?_⟩
  · rw [r'.timers, r.timers]
    exact push_perm ts t
  · have hroot : (push Timer.expirationTime ts t).2 = 0 ↔ ∀ u ∈ ts, t.expiration < u.expiration :=
      push_root_iff ho t
    rw [decide_eq_true_iff, r.timers, hroot]
    constructor
    · exact Or.inr
    · rintro (rfl | hlt)
      · exact fun u hu => absurd hu List.not_mem_nil
      · exact hlt

/-- The earliest expiration of the timers, if there is one. -/
def deadline? (h : TimerMinHeap Cb) : Option ℤ := (h.timers.map Timer.expiration).min?

/-- Add says true exactly when the earliest expiration is another afterwards. -/
theorem Added.first_iff_deadline {t : Timer Cb} {h' : TimerMinHeap Cb} {first : Bool}
    (a : Added h t h' first) : first = true ↔ h'.deadline? ≠ h.deadline? := by
  have hexp : ∀ e, e ∈ h'.timers.map Timer.expiration ↔
      e = t.expiration ∨ e ∈ h.timers.map Timer.expiration := by
    intro e
    rw [(a.timers.map Timer.expiration).mem_iff, List.map_cons, List.mem_cons]
  rw [a.first_iff]
  constructor
  · rintro hfirst heq
    have hnew : h'.deadline? = some t.expiration := by
      rw [deadline?, List.min?_eq_some_iff]
      refine ⟨(hexp _).mpr (.inl rfl), fun e he => ?_⟩
      rcases (hexp e).mp he with rfl | he
      · exact le_refl _
      · obtain ⟨u, hu, rfl⟩ := List.mem_map.mp he
        rcases hfirst with hnil | hlt
        · exact absurd (hnil ▸ hu) List.not_mem_nil
        · exact (hlt u hu).le
    obtain ⟨hold, -⟩ := List.min?_eq_some_iff.mp (heq.symm.trans hnew)
    obtain ⟨u, hu, he⟩ := List.mem_map.mp hold
    rcases hfirst with hnil | hlt
    · exact absurd (hnil ▸ hu) List.not_mem_nil
    · exact absurd he (hlt u hu).ne'
  · intro hne
    by_contra hnot
    push Not at hnot
    obtain ⟨hsome, u, hu, hle⟩ := hnot
    obtain ⟨m, hm⟩ : ∃ m, h.deadline? = some m :=
      Option.isSome_iff_exists.mp (by simpa [deadline?] using hsome)
    obtain ⟨hmem, hmin⟩ := List.min?_eq_some_iff.mp hm
    refine hne (hm ▸ List.min?_eq_some_iff.mpr ⟨(hexp m).mpr (.inr hmem), fun e he => ?_⟩)
    rcases (hexp e).mp he with rfl | he
    · exact (hmin _ (List.mem_map_of_mem hu)).trans hle
    · exact hmin e he

/-! ## Del -/

/-- `Del(id)` has taken out the timer at `i` and no other, and returned true
exactly when that is the root. -/
def Deleted (h : TimerMinHeap Cb) (i : ℕ) (id : ℤ) (h' : TimerMinHeap Cb) : Prop :=
  h.del id = some (h', decide (i = 0)) ∧ ∃ t, h.deref i = some t ∧ h.timers.Perm (t :: h'.timers)

/-- `Del` of a timer in a heap in order: the result holds exactly the others, with
exact positions, and the Boolean says that the timer was the root.  The result is in
order exactly when the timer's parent does not expire after the last timer, which
is moved into the gap. -/
theorem del_inOrder_iff (hh : InOrder h) (hid : h.positions.lookup id = some i) :
    (∃ h', Deleted h i id h' ∧ Represents h' h'.timers) ∧
      ((∃ h', Deleted h i id h' ∧ InOrder h') ↔ Session.LastMayMoveTo h i) := by
  obtain ⟨ts, r, ho⟩ := hh
  obtain ⟨t, ht, rfl⟩ := r.getElem?_of_lookup hid
  obtain ⟨hi, -⟩ := List.getElem?_eq_some_iff.mp ht
  obtain ⟨h', e', r'⟩ := del_spec r ht
  have hdel : Deleted h i t.id h' := by
    refine ⟨e', t, by rw [r.deref, ht], ?_⟩
    rw [r.timers, r'.timers]
    exact removeAt_perm _ ht
  refine ⟨⟨h', hdel, by rwa [r'.timers]⟩, ?_⟩
  rw [← Session.removeAt_ordered_iff_lastMayMoveTo r ho hi]
  constructor
  · rintro ⟨h'', ⟨e'', -⟩, ts'', r'', ho''⟩
    rw [e'] at e''
    obtain ⟨rfl, -⟩ := Prod.mk.inj (Option.some.inj e'')
    rwa [← r'.timers, r''.timers]
  · intro hord
    exact ⟨h', hdel, _, r', hord⟩

/-- The six timers of `Session.hiddenRun`. -/
def sixTimers : List (TimerOp Unit) := Session.hiddenRun.take 6

theorem inOrder_of_tracks {s : Session Cb} (k : Session.Tracks s ts) : InOrder s.queue.heap :=
  ⟨ts, k.represents, k.ordered⟩

theorem del_sixTimers :
    ∃ tr s h', runAll Session.exec Session.init sixTimers = some (tr, s) ∧
      Deleted s.queue.heap 2 2 h' ∧ InOrder h' := by
  obtain ⟨tr, s, hrun, hv, hk, hlook, hmay⟩ : ∃ tr s,
      runAll Session.exec Session.init sixTimers = some (tr, s) ∧
        (∀ p ∈ tr, Session.Valid p.1 p.2) ∧ (∀ p ∈ tr, Session.KeepsOrder p.1 p.2) ∧
        s.queue.heap.positions.lookup 2 = some 2 ∧ Session.LastMayMoveTo s.queue.heap 2 :=
    exists_computed (by decide +kernel)
  obtain ⟨ts, k⟩ := Session.tracks_of_run (run_of_runAll hrun) hv hk
  obtain ⟨h', hdel, ho⟩ := (del_inOrder_iff (inOrder_of_tracks k) hlook).2.mpr hmay
  exact ⟨tr, s, h', hrun, hdel, ho⟩

/-- The timer that expires at 3 is moved under the one that expires at 10. -/
theorem del_sixTimers_not_inOrder :
    ∃ tr s, runAll Session.exec Session.init sixTimers = some (tr, s) ∧ InOrder s.queue.heap ∧
      s.queue.heap.positions.lookup 3 = some 3 ∧
      ¬ ∃ h', Deleted s.queue.heap 3 3 h' ∧ InOrder h' := by
  obtain ⟨tr, s, hrun, hv, hk, hlook, hleft⟩ : ∃ tr s,
      runAll Session.exec Session.init sixTimers = some (tr, s) ∧
        (∀ p ∈ tr, Session.Valid p.1 p.2) ∧ (∀ p ∈ tr, Session.KeepsOrder p.1 p.2) ∧
        s.queue.heap.positions.lookup 3 = some 3 ∧
        (s.queue.heap.del 3).map (fun r => (r.1.deref 1, r.1.deref 3)) =
          some (some (Session.oneShot 1 10), some (Session.oneShot 5 3)) :=
    exists_computed (by decide +kernel)
  obtain ⟨⟨h', b⟩, hdel, hleft⟩ := Option.map_eq_some_iff.mp hleft
  obtain ⟨hp, hc⟩ := Prod.mk.inj hleft
  obtain ⟨ts, k⟩ := Session.tracks_of_run (run_of_runAll hrun) hv hk
  refine ⟨tr, s, hrun, inOrder_of_tracks k, hlook, ?_⟩
  rintro ⟨h'', ⟨e'', -⟩, ho⟩
  rw [hdel] at e''
  obtain ⟨rfl, -⟩ := Prod.mk.inj (Option.some.inj e'')
  exact absurd (ho.parent_le (i := 3) (by decide) hp hc) (by decide)

end TimerMinHeap

/-! ## AddTimerInLoop -/

namespace TimerQueue

variable {q : TimerQueue Cb} {t : Timer Cb}

/-- Every heap in order and every timer under an id that is not in it: `Add` keeps the
order, the positions and the other timers and says whether the timer expires first;
`AddTimerInLoop` then sets `latestTime_` and the timerfd to the new timer, and otherwise
leaves both.  It does so exactly when the earliest expiration has changed. -/
theorem addTimerInLoop_exact (hh : InOrder q.heap) (hid : ∀ u ∈ q.heap.timers, u.id ≠ t.id) :
    ∃ h' first, Added q.heap t h' first ∧
      (first = true ↔ h'.deadline? ≠ q.heap.deadline?) ∧
      q.addTimerInLoop t = some (if first then
        { q with heap := h', latestTime := t.expiration, timerfd := toItimerspec t.expiration }
        else { q with heap := h' }) := by
  obtain ⟨h', first, a⟩ := added_of_inOrder hh hid
  refine ⟨h', first, a, a.first_iff_deadline, ?_⟩
  rw [addTimerInLoop, a.add]
  cases first <;> rfl

theorem addTimerInLoop_sixTimers :
    ∃ tr s, runAll Session.exec Session.init sixTimers = some (tr, s) ∧
      ∃ h' first, Added s.queue.heap (Session.oneShot 6 1) h' first ∧
        (first = true ↔ h'.deadline? ≠ s.queue.heap.deadline?) ∧
        s.queue.addTimerInLoop (Session.oneShot 6 1) = some (if first then
          { s.queue with heap := h', latestTime := 1, timerfd := toItimerspec 1 }
          else { s.queue with heap := h' }) := by
  obtain ⟨tr, s, hrun, hv, hk, hfresh⟩ : ∃ tr s,
      runAll Session.exec Session.init sixTimers = some (tr, s) ∧
        (∀ p ∈ tr, Session.Valid p.1 p.2) ∧ (∀ p ∈ tr, Session.KeepsOrder p.1 p.2) ∧
        ∀ u ∈ s.queue.heap.timers, u.id ≠ 6 :=
    exists_computed (by decide +kernel)
  obtain ⟨ts, k⟩ := Session.tracks_of_run (run_of_runAll hrun) hv hk
  exact ⟨tr, s, hrun, addTimerInLoop_exact (inOrder_of_tracks k) hfresh⟩

end TimerQueue

/-! ## GetExpiredTimers -/

namespace TimerQueue

variable {q : TimerQueue Cb}

/-- What is due is in a heap once, and so it is in the batch. -/
theorem nodup_of_due {h : TimerMinHeap Cb} {ts batch : List (Timer Cb)} {now : ℤ}
    (r : Represents h ts) (hdue : batch.Perm (ts.filter (due now))) :
    (batch.map Timer.id).Nodup := by
  refine (hdue.map Timer.id).nodup_iff.mpr ?_
  exact r.nodup.sublist ((List.filter_sublist).map Timer.id)

/-- `GetExpiredTimers` returned `batch` and left `q'`: what was due at `now`, each timer
once and in order of expiration, is in the batch; the queue is in order, holds what was
not due and the re-armed timers, and has the earliest expiration as its deadline. -/
structure TookDue (q : TimerQueue Cb) (now : ℤ) (q' : TimerQueue Cb) (batch : List (Timer Cb)) :
    Prop where
  due : batch.Perm (q.heap.timers.filter (due now))
  once : (batch.map Timer.id).Nodup
  sorted : batch.Pairwise fun t u => t.expiration ≤ u.expiration
  inOrder : InOrder q'.heap
  left : q'.heap.timers.Perm
    (q.heap.timers.filter (fun t => !Muduo.due now t) ++ rearmed now batch)
  latest : q'.latestTime = earliest q'.heap.timers

/-- On a clock that stands still, whenever the heap is in order and no due timer has a
negative interval, the loop of `GetExpiredTimers` ends, and takes what is due. -/
theorem tookDue_of_inOrder (hh : InOrder q.heap) {now : ℤ}
    (hi : ∀ t ∈ q.heap.timers, due now t = true → 0 ≤ t.interval) :
    ∃ n q' batch, (∀ fuel, n ≤ fuel → q.getExpiredTimers fuel (fun _ => now) = some (q', batch)) ∧
      TookDue q now q' batch := by
  obtain ⟨ts, r, ho⟩ := hh
  rw [r.timers] at hi
  have hl : ∀ t ∈ ts, due now t = true → Later addInterval now t :=
    fun t ht hd => later_of_nonneg (hi t ht hd)
  obtain ⟨batch, ts', e, -⟩ := expires_total (k := 0) hl
  obtain ⟨hdue, hsorted, hleft, ho'⟩ := e.exact hl ho
  obtain ⟨q', hq, l⟩ := getExpiredTimers_spec r e
  refine ⟨batch.length + 1, q', batch, fun fuel hf => hq (Nat.lt_of_succ_le hf), ?_⟩
  exact
    { due := by rwa [r.timers]
      once := nodup_of_due r hdue
      sorted := hsorted
      inOrder := ⟨ts', l.represents, ho'⟩
      left := by rwa [r.timers, l.represents.timers]
      latest := by rw [l.latest, l.represents.timers, firstExpiration_of_ordered ho'] }

/-- Every heap in order whose intervals are not negative, and every clock whose readings
during the call are all `now`: the call ends, and takes exactly what is due. -/
theorem getExpiredTimers_exact (hh : InOrder q.heap) (hi : ∀ t ∈ q.heap.timers, 0 ≤ t.interval)
    {clock : ℕ → ℤ} {now : ℤ} (hclock : ∀ k, clock k = now) :
    ∃ n q' batch, (∀ fuel, n ≤ fuel → q.getExpiredTimers fuel clock = some (q', batch)) ∧
      TookDue q now q' batch := by
  have hstill : clock = fun _ => now := funext hclock
  rw [hstill]
  exact tookDue_of_inOrder hh fun t ht _ => hi t ht

/-- Two timers are due when the clock reads 5, one of them repeating. -/
def threeTimers : List (TimerOp Unit) :=
  [.addTimerInLoop ⟨(), 4, 2, 0⟩, .addTimerInLoop (Session.oneShot 1 3),
    .addTimerInLoop (Session.oneShot 2 9)]

theorem getExpiredTimers_threeTimers :
    ∃ tr s, runAll Session.exec Session.init threeTimers = some (tr, s) ∧
      s.queue.heap.timers.filter (due 5) = [Session.oneShot 1 3, ⟨(), 4, 2, 0⟩] ∧
      ∃ n q' batch,
        (∀ fuel, n ≤ fuel → s.queue.getExpiredTimers fuel (fun _ => 5) = some (q', batch)) ∧
        TookDue s.queue 5 q' batch := by
  obtain ⟨tr, s, hrun, hv, hk, hint, hdue⟩ : ∃ tr s,
      runAll Session.exec Session.init threeTimers = some (tr, s) ∧
        (∀ p ∈ tr, Session.Valid p.1 p.2) ∧ (∀ p ∈ tr, Session.KeepsOrder p.1 p.2) ∧
        (∀ t ∈ s.queue.heap.timers, 0 ≤ t.interval) ∧
        s.queue.heap.timers.filter (due 5) = [Session.oneShot 1 3, ⟨(), 4, 2, 0⟩] :=
    exists_computed (by decide +kernel)
  obtain ⟨ts, k⟩ := Session.tracks_of_run (run_of_runAll hrun) hv hk
  exact ⟨tr, s, hrun, hdue, getExpiredTimers_exact (inOrder_of_tracks k) hint fun _ => rfl⟩

end TimerQueue

end Muduo
