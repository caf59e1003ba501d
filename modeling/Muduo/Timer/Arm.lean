/-
# `Muduo.Timer.Arm` — what ResetTimerfd passes to the timerfd

`timerfd_settime` takes a value with two parts that are not negative, and all zero
disarms.  The source means to disarm "when _pioneer = Timer_t::max", that is, with no
timer left.

    0 < latestTime        the value is valid, not zero, and exact to the nanosecond
    latestTime = 0        the value is zero: the timerfd is disarmed
    latestTime < 0        a part of the value is negative: timerfd_settime refuses it

A timer at the epoch of the clock or before it always goes to the root, so that it
blocks every timer behind it.  In every run in which the clock stays after its epoch,
the timerfd is armed throughout exactly when no such timer is added
(`armed_of_afterEpoch`).
-/
import Muduo.Timer.Cancel

namespace Muduo

open BinHeap Runs TimerMinHeap

variable {Cb : Type}

/-! ## The value for a deadline -/

/-- What `timerfd_settime` accepts. -/
def Itimerspec.Valid (v : Itimerspec) : Prop := 0 ≤ v.tvSec ∧ 0 ≤ v.tvNsec ∧ v.tvNsec < 1000000000

/-- A timer the timerfd can be armed for. -/
def Timer.Armable (t : Timer Cb) : Prop := 0 < t.expiration ∧ t.expiration ≠ timePointMax

namespace TimerQueue

theorem toItimerspec_of_ne {d : ℤ} (hd : d ≠ timePointMax) :
    toItimerspec d = ⟨Int.tdiv d 1000000000, Int.tmod d 1000000000⟩ := by
  have hmod : d - Int.tdiv d 1000000000 * 1000000000 = Int.tmod d 1000000000 :=
    sub_eq_of_eq_add' (Int.tdiv_mul_add_tmod d 1000000000).symm
  rw [toItimerspec, if_pos hd]
  exact congrArg _ hmod

/-- A deadline after the epoch is passed on to the nanosecond, and is not all zero. -/
theorem toItimerspec_of_pos {d : ℤ} (hpos : 0 < d) (hd : d ≠ timePointMax) :
    (toItimerspec d).Valid ∧ toItimerspec d ≠ ⟨0, 0⟩ ∧
      (toItimerspec d).tvSec * 1000000000 + (toItimerspec d).tvNsec = d := by
  have hsum := Int.tdiv_mul_add_tmod d 1000000000
  rw [toItimerspec_of_ne hd]
  refine ⟨⟨Int.tdiv_nonneg hpos.le (by decide), Int.tmod_nonneg _ hpos.le,
    Int.tmod_lt_of_pos d (by decide)⟩, fun hzero => ?_, hsum⟩
  obtain ⟨hsec, hnsec⟩ := Itimerspec.mk.inj hzero
  rw [hsec, hnsec] at hsum
  exact absurd hsum hpos.ne

/-- Any other deadline is not: the value is zero, or has a negative part. -/
theorem not_valid_of_nonpos {d : ℤ} (hd : d ≤ 0) :
    ¬ ((toItimerspec d).Valid ∧ toItimerspec d ≠ ⟨0, 0⟩) := by
  have hne : d ≠ timePointMax := by
    unfold timePointMax
    omega
  have hsum := Int.tdiv_mul_add_tmod d 1000000000
  rw [toItimerspec_of_ne hne]
  rintro ⟨⟨hsec, hnsec, -⟩, hzero⟩
  dsimp only at hsec hnsec
  exact hzero (by rw [show Int.tdiv d 1000000000 = 0 by omega,
    show Int.tmod d 1000000000 = 0 by omega])

/-! ## Armed -/

/-- With a timer in the heap, what the timerfd was last set to is valid and does not
disarm, and is `latestTime_` when that is after the epoch. -/
def Armed (q : TimerQueue Cb) : Prop :=
  q.heap.timers ≠ [] →
    q.timerfd.Valid ∧ q.timerfd ≠ ⟨0, 0⟩ ∧
      (0 < q.latestTime → q.timerfd.tvSec * 1000000000 + q.timerfd.tvNsec = q.latestTime)

instance : (v : Itimerspec) → Decidable v.Valid := fun _ => inferInstanceAs (Decidable (_ ∧ _))

instance (q : TimerQueue Cb) : Decidable q.Armed := by unfold Armed; infer_instance

variable {q q' : TimerQueue Cb} {ts : List (Timer Cb)} {t : Timer Cb}

/-- The queue holds `ts`, and the timerfd is set for its deadline. -/
structure SetFor (q : TimerQueue Cb) (ts : List (Timer Cb)) : Prop where
  holds : q.Holds ts
  timerfd : q.timerfd = toItimerspec q.latestTime

theorem setFor_init : (init : TimerQueue Cb).SetFor [] := ⟨holds_init, rfl⟩

/-- Armed for the root. -/
theorem SetFor.armed_iff (hq : q.SetFor ts) :
    q.Armed ↔ ∀ r ∈ ts[0]?, (toItimerspec r.expiration).Valid ∧
      toItimerspec r.expiration ≠ ⟨0, 0⟩ ∧ (0 < r.expiration →
        (toItimerspec r.expiration).tvSec * 1000000000 + (toItimerspec r.expiration).tvNsec =
          r.expiration) := by
  rw [Armed, hq.holds.represents.timers, hq.timerfd, hq.holds.latest]
  cases ts with
  | nil => exact iff_of_true (fun h => absurd rfl h) nofun
  | cons r tl =>
      constructor
      · rintro h _ ⟨⟩
        exact h (List.cons_ne_nil r tl)
      · exact fun h _ => h r rfl

theorem SetFor.armed (hq : q.SetFor ts) (hts : ∀ t ∈ ts, t.Armable) : q.Armed := by
  rw [hq.armed_iff]
  intro r hr
  obtain ⟨hpos, hmax⟩ := hts r (List.mem_of_getElem? hr)
  obtain ⟨hvalid, hzero, hsum⟩ := toItimerspec_of_pos hpos hmax
  exact ⟨hvalid, hzero, fun _ => hsum⟩

/-- An id is handed out. -/
theorem SetFor.issued (hq : q.SetFor ts) (n : BitVec 32) :
    SetFor { q with nextTimerId := n } ts :=
  ⟨⟨hq.holds.represents, hq.holds.latest⟩, hq.timerfd⟩

theorem SetFor.add (hq : q.SetFor ts) (h : q.addTimerInLoop t = some q') :
    q'.SetFor (push Timer.expirationTime ts t).1 ∧
      (push Timer.expirationTime ts t).1.Perm (t :: ts) := by
  have hfresh : ∀ u ∈ ts, u.id ≠ t.id := by
    obtain ⟨_, hadd, -⟩ := Option.bind_eq_some_iff.mp h
    exact hq.holds.represents.fresh_of_add hadd
  obtain ⟨_, e, l⟩ := addTimerInLoop_spec hq.holds.represents hfresh
  obtain rfl := Option.some.inj (e.symm.trans h)
  exact ⟨⟨hq.holds.pushed l, l.armed hq.timerfd⟩, push_perm ts t⟩

/-- AddTimerInLoop on a queue whose timers expire after the epoch leaves it armed exactly
when its timer does. -/
theorem SetFor.armed_add_iff (hq : q.SetFor ts) (hts : ∀ u ∈ ts, u.Armable)
    (ht : t.expiration ≠ timePointMax) (h : q.addTimerInLoop t = some q') :
    0 < t.expiration ↔ q'.Armed := by
  obtain ⟨hq', hperm⟩ := hq.add h
  constructor
  · intro hpos
    refine hq'.armed fun u hu => ?_
    rcases List.mem_cons.mp (hperm.mem_iff.mp hu) with rfl | hu
    · exact ⟨hpos, ht⟩
    · exact hts u hu
  · intro ha
    by_contra hpos
    -- the timer expires before all others, and so is at the root
    have hlt : ∀ u ∈ ts, t.expirationTime < u.expirationTime := fun u hu =>
      (not_lt.mp hpos).trans_lt (hts u hu).1
    have hroot : (push Timer.expirationTime ts t).1[0]? = some t := by
      rw [getElem?_zero_push, if_pos (push_root_of_lt hlt)]
    obtain ⟨hvalid, hzero, -⟩ := hq'.armed_iff.mp ha t hroot
    exact not_valid_of_nonpos (not_lt.mp hpos) ⟨hvalid, hzero⟩

theorem SetFor.cancel {id : ℤ} (hq : q.SetFor ts) (h : q.cancelTimerInLoop id = some q') :
    ∃ ts', q'.SetFor ts' ∧ ∀ u ∈ ts', u ∈ ts := by
  rcases cancelTimerInLoop_cases hq.holds.represents id with ⟨e, -⟩ | ⟨i, t, q'', ht, rfl, e, l⟩
  · obtain rfl := Option.some.inj (e.symm.trans h)
    exact ⟨ts, hq, fun _ hu => hu⟩
  · obtain rfl := Option.some.inj (e.symm.trans h)
    obtain ⟨hi, -⟩ := List.getElem?_eq_some_iff.mp ht
    refine ⟨_, ⟨hq.holds.removed hi l, l.armed hq.timerfd⟩, fun u hu => ?_⟩
    exact (removeAt_perm _ ht).mem_iff.mpr (List.mem_cons_of_mem _ hu)

theorem SetFor.expire {fuel : ℕ} {clock : ℕ → ℤ} {batch : List (Timer Cb)} (hq : q.SetFor ts)
    (h : q.getExpiredTimers fuel clock = some (q', batch)) :
    ∃ ts', Expires clock 0 ts batch ts' ∧ q'.SetFor ts' := by
  obtain ⟨ts', e, l⟩ := expires_of_getExpiredTimers hq.holds.represents h
  exact ⟨ts', e, ⟨l.represents, l.latest⟩, l.armed hq.timerfd⟩

end TimerQueue

/-! ## GetExpiredTimers -/

section Expires

variable {clock : ℕ → ℤ} {k : ℕ} {ts batch ts' : List (Timer Cb)}

/-- A timer that was re-armed for the epoch or before it is the root again, and is due
again: the loop does not end with it. -/
theorem Expires.afterEpoch (e : Expires clock k ts batch ts') (hclock : ∀ k, 0 ≤ clock k)
    (hts : ∀ t ∈ ts.tail, 0 < t.expiration) : ∀ t ∈ ts', 0 < t.expiration := by
  induction e with
  | done => exact nofun
  | wait hlt => exact List.forall_mem_cons.mpr ⟨(hclock _).trans_lt hlt, hts⟩
  | @again k t tl batch ts' _ _ _ ih =>
      refine ih ?_
      by_cases hpos : 0 < (t.rearm (clock (k + 1))).expiration
      · intro u hu
        rcases List.mem_cons.mp ((replaceRoot_perm _ tl _).mem_iff.mp (List.mem_of_mem_tail hu))
          with rfl | hu
        · exact hpos
        · exact hts u hu
      · have hroot : replaceRoot Timer.expirationTime (t :: tl) (t.rearm (clock (k + 1))) =
            t.rearm (clock (k + 1)) :: tl :=
          siftDown_root_of_le fun u hu => (not_lt.mp hpos).trans (hts u hu).le
        rw [hroot]
        exact hts
  | @once k t tl batch ts' _ _ _ ih =>
      refine ih fun u hu => hts u ?_
      exact (removeAt_root_perm t tl).mem_iff.mp (List.mem_of_mem_tail hu)

/-- With a clock that stays after its epoch, and no timer re-armed for
`TimePoint_t::max()`, what is left can be armed for. -/
theorem Expires.armable (e : Expires clock k ts batch ts') (hclock : ∀ k, 0 ≤ clock k)
    (hre : ∀ t ∈ ts, t.repeats = true → ∀ k, (t.rearm (clock k)).expiration ≠ timePointMax)
    (hts : ∀ t ∈ ts, t.Armable) : ∀ t ∈ ts', t.Armable := by
  have hmax : ∀ t ∈ ts', t.expiration ≠ timePointMax ∧
      (t.repeats = true → ∀ k, (t.rearm (clock k)).expiration ≠ timePointMax) :=
    (e.forall_kept (fun t k ht hrep => ⟨ht.2 hrep k, ht.2⟩)
      fun t ht => ⟨(hts t ht).2, hre t ht⟩).2
  intro t ht
  exact ⟨e.afterEpoch hclock (fun u hu => (hts u (List.mem_of_mem_tail hu)).1) t ht, (hmax t ht).1⟩

end Expires

/-! ## Runs -/

namespace TimerLoop

variable {s s' : TimerLoop Cb} {a : TimerAct Cb} {ts : List (Timer Cb)}

/-- A timer that the step gives to AddTimerInLoop expires after the epoch. -/
def AddsAfterEpoch (s : TimerLoop Cb) : TimerAct Cb → Prop
  | .add w _ _ => 0 < w
  | .task => ∀ t ∈ s.tmpQueue.head?.bind TimerTask.add?, 0 < t.expiration
  | _ => True

/-- The clock stays after its epoch, and re-arms no timer for `TimePoint_t::max()`. -/
def ClockAfterEpoch (s : TimerLoop Cb) : TimerAct Cb → Prop
  | .expire _ clock => (∀ k, 0 ≤ clock k) ∧ ∀ t ∈ s.timerQueue.heap.timers, t.repeats = true →
      ∀ k, (t.rearm (clock k)).expiration ≠ timePointMax
  | _ => True

/-- The timerfd is set for the heap's deadline, and can be set for all of its timers. -/
structure Timely (s : TimerLoop Cb) (ts : List (Timer Cb)) : Prop where
  setFor : s.timerQueue.SetFor ts
  armable : ∀ t ∈ ts, t.Armable
  coming : ∀ t ∈ s.coming, t.expiration ≠ timePointMax

theorem timely_init : (init : TimerLoop Cb).Timely [] := ⟨TimerQueue.setFor_init, nofun, nofun⟩

theorem Timely.armed (h : s.Timely ts) : s.timerQueue.Armed := h.setFor.armed h.armable

/-- A step that leaves no timer before the epoch. -/
theorem Timely.keep (h' : s'.Timely ts) (hok : s.AddsAfterEpoch a) :
    (s.AddsAfterEpoch a ↔ s'.timerQueue.Armed) ∧
      (s'.timerQueue.Armed → ∃ ts', s'.Timely ts') :=
  ⟨iff_of_true hok h'.armed, fun _ => ⟨ts, h'⟩⟩

/-- AddTimerInLoop of a timer that is not at `TimePoint_t::max()`. -/
theorem Timely.added {t : Timer Cb} {q q₀ : TimerQueue Cb} (h : s.Timely ts)
    (hq : q₀.addTimerInLoop t = some q) (h₀ : q₀.SetFor ts) (hs : s'.timerQueue = q)
    (hc : ∀ u ∈ s'.coming, u.expiration ≠ timePointMax) (ht : t.expiration ≠ timePointMax) :
    (0 < t.expiration ↔ s'.timerQueue.Armed) ∧
      (s'.timerQueue.Armed → ∃ ts', s'.Timely ts') := by
  have hiff : 0 < t.expiration ↔ s'.timerQueue.Armed := hs ▸ h₀.armed_add_iff h.armable ht hq
  obtain ⟨hset, hperm⟩ := h₀.add hq
  refine ⟨hiff, fun ha => ⟨_, hs ▸ hset, fun u hu => ?_, hc⟩⟩
  rcases List.mem_cons.mp (hperm.mem_iff.mp hu) with rfl | hu
  · exact ⟨hiff.mpr ha, ht⟩
  · exact h.armable u hu

theorem Timely.step (h : s.Timely ts) (hc : s.ClockAfterEpoch a) (hst : s.step a = some s') :
    (s.AddsAfterEpoch a ↔ s'.timerQueue.Armed) ∧
      (s'.timerQueue.Armed → ∃ ts', s'.Timely ts') := by
  cases a with
  | fetch w i cb =>
      obtain ⟨hw, rfl⟩ := step_fetch_eq hst
      refine Timely.keep ⟨h.setFor.issued _, h.armable, fun u hu => ?_⟩ trivial
      rcases List.mem_cons.mp ((fetch_coming_perm s _).mem_iff.mp hu) with rfl | hu
      · exact hw
      · exact h.coming u hu
  | add w i cb =>
      obtain ⟨hw, q, hq, rfl⟩ := step_add_eq hst
      exact h.added hq (h.setFor.issued _) rfl h.coming hw
  | enqueueAdd i =>
      cases steps_of_step hst with
      | enqueueAdd _ t ht =>
          exact Timely.keep ⟨h.setFor, h.armable, fun u hu =>
            h.coming u ((enqueueAdd_coming_perm ht).mem_iff.mp hu)⟩ trivial
  | enqueueCancel id =>
      cases steps_of_step hst with
      | enqueueCancel _ c =>
          exact Timely.keep ⟨h.setFor, h.armable, fun u hu =>
            h.coming u ((enqueueCancel_coming_perm s id).mem_iff.mp hu)⟩ trivial
  | cancel id =>
      cases steps_of_step hst with
      | cancel _ c q hc hq =>
          obtain ⟨ts', hset, hsub⟩ := h.setFor.cancel hq
          exact Timely.keep ⟨hset, fun u hu => h.armable u (hsub u hu), h.coming⟩ trivial
  | expire fuel clock =>
      cases steps_of_step hst with
      | expire _ _ q batch hb hq =>
          obtain ⟨ts', e, hset⟩ := h.setFor.expire hq
          have hre := hc.2
          rw [h.setFor.holds.represents.timers] at hre
          exact Timely.keep ⟨hset, e.armable hc.1 hre h.armable, h.coming⟩ trivial
  | run =>
      cases steps_of_step hst with
      | run t rest ht => exact Timely.keep ⟨h.setFor, h.armable, h.coming⟩ trivial
  | swap =>
      cases steps_of_step hst with
      | swap ht =>
          exact Timely.keep ⟨h.setFor, h.armable, fun u hu =>
            h.coming u ((swap_coming_perm ht).mem_iff.mp hu)⟩ trivial
  | task =>
      cases steps_of_step hst with
      | taskAdd t rest q hts hq =>
          have hcoming := taskAdd_coming_perm hts
          have hadd : s.AddsAfterEpoch .task ↔ 0 < t.expiration := by
            simp [AddsAfterEpoch, hts, TimerTask.add?]
          rw [hadd]
          exact h.added hq h.setFor rfl
            (fun u hu => h.coming u (hcoming.mem_iff.mpr (List.mem_cons_of_mem _ hu)))
            (h.coming t (hcoming.mem_iff.mpr List.mem_cons_self))
      | taskCancel id rest q hts hb hq =>
          obtain ⟨ts', hset, hsub⟩ := h.setFor.cancel hq
          refine Timely.keep ⟨hset, fun u hu => h.armable u (hsub u hu), fun u hu =>
            h.coming u ((taskCancel_coming_perm hts).mem_iff.mp hu)⟩ ?_
          simp [AddsAfterEpoch, hts, TimerTask.add?]

/-- In every run on a clock that stays after its epoch, AddTimerInLoop is only given
timers that expire after the epoch exactly when in every state with a timer in the heap
the timerfd is armed, and exactly so. -/
theorem armed_of_afterEpoch {tr : List (TimerLoop Cb × TimerAct Cb)}
    (hr : Run (stepOf step) init tr s) (hc : ∀ p ∈ tr, ClockAfterEpoch p.1 p.2) :
    (∀ p ∈ tr, AddsAfterEpoch p.1 p.2) ↔
      (∀ p ∈ tr, p.1.timerQueue.Armed) ∧ s.timerQueue.Armed := by
  refine (hr.restrict hc).forall_iff_of_kept (P := fun s => s.timerQueue.Armed)
    (Q := fun s => ∃ ts, s.Timely ts) timely_init.armed ⟨[], timely_init⟩ ?_ ?_
  · rintro t a u ⟨ts, h⟩ ⟨hc, hst⟩
    exact (h.step hc hst).2
  · rintro t a u ⟨ts, h⟩ ⟨hc, hst⟩
    exact (h.step hc hst).1

/-- One timer expires and is re-armed, another one is added by another thread. -/
def lateTimers : List (TimerAct ℕ) :=
  [.add 3000000005 1 7, .expire 3 fun _ => 4000000000, .fetch 2000000001 0 8, .enqueueAdd 0, .run,
    .swap, .task]

theorem armed_lateTimers : ∃ tr s, runAll step init lateTimers = some (tr, s) ∧
    s.timerQueue.timerfd = ⟨2, 1⟩ ∧ ((∀ p ∈ tr, AddsAfterEpoch p.1 p.2) ↔
      (∀ p ∈ tr, p.1.timerQueue.Armed) ∧ s.timerQueue.Armed) := by
  obtain ⟨tr, s, hrun, hre, hfd⟩ : ∃ tr s, runAll step init lateTimers = some (tr, s) ∧
      (∀ p ∈ tr, ∀ t ∈ p.1.timerQueue.heap.timers, t.repeats = true →
        (t.rearm 4000000000).expiration ≠ timePointMax) ∧ s.timerQueue.timerfd = ⟨2, 1⟩ :=
    exists_computed (by decide +kernel)
  refine ⟨tr, s, hrun, hfd, armed_of_afterEpoch (run_of_runAll hrun) fun p hp => ?_⟩
  have ha : p.2 ∈ lateTimers := actions_of_runAll hrun ▸ List.mem_map_of_mem hp
  simp only [lateTimers, List.mem_cons, List.not_mem_nil, or_false] at ha
  rcases ha with ha | ha | ha | ha | ha | ha | ha <;> rw [ha]
  case inr.inl =>
    exact ⟨fun _ => Int.natCast_nonneg 4000000000, fun t ht hrep _ => hre p hp t ht hrep⟩
  all_goals trivial

/-- A timer at the epoch is accepted, and disarms the timerfd; the timer behind it
waits for it. -/
theorem disarmed_at_epoch : ∃ tr s,
    runAll step init [TimerAct.add 0 0 7, .add 5 0 8] = some (tr, s) ∧
      s.timerQueue.heap.timers.map Timer.expiration = [0, 5] ∧ s.timerQueue.timerfd = ⟨0, 0⟩ ∧
      ¬ s.timerQueue.Armed :=
  exists_computed (by decide +kernel)

end TimerLoop

end Muduo
