/-
# `Muduo.Timer.Ids` — how long an id is one timer's own

The ids come from a counter of 32 bits.  The calls of AddTimer are numbered here: the
number of a call goes with the callback it is given, which the queue only passes on.

    label t          the number of the call that made the timer, and the id it returned
    NotAged s a      no timer is live that was made a multiple of 2^32 calls before the
                     call of the step

The ids of the live timers are distinct throughout a run exactly when no step of it meets
a timer that has aged so (`distinct_iff_notAged`); a run with one that has is at the end.
-/
import Mathlib.Data.List.Perm.Subperm
import Muduo.Timer.Cancel

namespace Muduo

open BinHeap Runs TimerMinHeap

variable {Cb : Type}

/-- A call of AddTimer as the call number `n`. -/
def TimerAct.number (n : ℕ) : TimerAct Cb → TimerAct (ℕ × Cb)
  | fetch w i cb => .fetch w i (n, cb)
  | enqueueAdd i => .enqueueAdd i
  | enqueueCancel id => .enqueueCancel id
  | add w i cb => .add w i (n, cb)
  | cancel id => .cancel id
  | expire fuel clock => .expire fuel clock
  | run => .run
  | swap => .swap
  | task => .task

/-- The step takes an id. -/
def TimerAct.takesId : TimerAct Cb → Bool
  | fetch _ _ _ | add _ _ _ => true
  | _ => false

/-- The number of the call that made the timer, and the id it returned. -/
def Timer.label (t : Timer (ℕ × Cb)) : ℕ × ℤ := (t.cb.1, t.id)

namespace TimerLoop

/-- A step in which the calls of AddTimer are numbered. -/
def numbered (s : TimerLoop (ℕ × Cb)) (a : TimerAct Cb) : Option (TimerLoop (ℕ × Cb)) :=
  s.step (a.number s.issued)

/-- The timers in the heap, and those that AddTimer is still to add. -/
def liveTimers (s : TimerLoop Cb) : List (Timer Cb) := s.timerQueue.heap.timers ++ s.coming

/-- No two live timers share an id. -/
def Distinct (s : TimerLoop Cb) : Prop := (s.liveTimers.map Timer.id).Nodup

/-- No live timer was made a multiple of `2 ^ 32` calls before. -/
def NotAged (s : TimerLoop (ℕ × Cb)) (a : TimerAct Cb) : Prop :=
  a.takesId = true → ∀ t ∈ s.liveTimers, ¬ 2 ^ 32 ∣ s.issued - t.cb.1

def labels (s : TimerLoop (ℕ × Cb)) : List (ℕ × ℤ) := s.liveTimers.map Timer.label

variable {s s' : TimerLoop (ℕ × Cb)} {a : TimerAct Cb} {ts : List (Timer (ℕ × Cb))}

/-! ## What a step does to the labels -/

theorem labels_eq (r : Represents s.timerQueue.heap ts) :
    s.labels = (ts ++ s.coming).map Timer.label := by
  rw [labels, liveTimers, r.timers]

/-- Either the next label is put in, or no label is. -/
def Labelled (s s' : TimerLoop (ℕ × Cb)) (takes : Bool) : Prop :=
  if takes then
    s'.labels.Perm ((s.issued, s.timerQueue.nextTimerId.toInt) :: s.labels) ∧
      s'.issued = s.issued + 1 ∧ s'.timerQueue.nextTimerId = s.timerQueue.nextTimerId + 1
  else
    s'.labels.Subperm s.labels ∧ s'.issued = s.issued ∧
      s'.timerQueue.nextTimerId = s.timerQueue.nextTimerId

/-- A step that takes no id and keeps the timers or drops some. -/
theorem labelled_of_subperm {ts' : List (Timer (ℕ × Cb))} (r : Represents s.timerQueue.heap ts)
    (r' : Represents s'.timerQueue.heap ts')
    (hts : (ts'.map Timer.label).Subperm (ts.map Timer.label)) (hc : s'.coming.Perm s.coming)
    (hi : s'.issued = s.issued) (hn : s'.timerQueue.nextTimerId = s.timerQueue.nextTimerId) :
    Labelled s s' false := by
  refine ⟨?_, hi, hn⟩
  rw [labels_eq r, labels_eq r', List.map_append, List.map_append]
  exact hts.append (hc.map _).subperm

/-- AddTimerInLoop of a timer that is not in the heap. -/
theorem perm_of_add {q q' : TimerQueue (ℕ × Cb)} {t : Timer (ℕ × Cb)}
    (h : q.addTimerInLoop t = some q') (r : Represents q.heap ts) :
    q'.nextTimerId = q.nextTimerId ∧ ∃ ts', Represents q'.heap ts' ∧ ts'.Perm (t :: ts) := by
  obtain ⟨_, hadd, -⟩ := Option.bind_eq_some_iff.mp h
  exact TimerQueue.perm_of_addTimerInLoop r (r.fresh_of_add hadd) h

theorem labelled_of_step (r : Represents s.timerQueue.heap ts) (h : s.numbered a = some s') :
    (∃ ts', Represents s'.timerQueue.heap ts') ∧ Labelled s s' a.takesId := by
  have hsteps := steps_of_step h
  cases a with
  | fetch w i cb =>
      obtain ⟨-, rfl⟩ := step_fetch_eq h
      refine ⟨⟨ts, r⟩, ?_, rfl, rfl⟩
      rw [labels_eq (s := { s with
        timerQueue := { s.timerQueue with nextTimerId := s.timerQueue.nextTimerId + 1 },
        fetched := _, issued := _ }) r, labels_eq r]
      exact (((fetch_coming_perm s _).append_left ts).trans List.perm_middle).map Timer.label
  | add w i cb =>
      obtain ⟨-, q, hq, rfl⟩ := step_add_eq h
      obtain ⟨hn, ts', r', hperm⟩ := perm_of_add hq r
      refine ⟨⟨ts', r'⟩, ?_, rfl, hn⟩
      rw [labels_eq (s := { s with timerQueue := q, issued := _, returned := _ }) r', labels_eq r]
      exact (hperm.append_right s.coming).map Timer.label
  | enqueueAdd i =>
      cases hsteps with
      | enqueueAdd _ t ht =>
          exact ⟨⟨ts, r⟩, labelled_of_subperm r r (.refl _) (enqueueAdd_coming_perm ht) rfl rfl⟩
  | enqueueCancel id =>
      cases hsteps with
      | enqueueCancel _ c =>
          have hperm := enqueueCancel_coming_perm s id
          exact ⟨⟨ts, r⟩, labelled_of_subperm r r (.refl _) hperm rfl rfl⟩
  | cancel id =>
      cases hsteps with
      | cancel _ c q hc hq =>
          obtain ⟨hn, ts', r', hperm⟩ := TimerQueue.perm_of_cancelTimerInLoop r hq
          refine ⟨⟨ts', r'⟩, labelled_of_subperm r r' ?_ (.refl _) rfl hn⟩
          exact (hperm.map _).subperm.trans (List.filter_sublist.map _).subperm
  | expire fuel clock =>
      cases hsteps with
      | expire _ _ q batch hb hq =>
          obtain ⟨ts', e, l⟩ := TimerQueue.expires_of_getExpiredTimers r hq
          exact ⟨⟨ts', l.represents⟩, labelled_of_subperm r l.represents (e.subperm fun _ _ => rfl)
            (.refl _) rfl l.nextTimerId⟩
  | run =>
      cases hsteps with
      | run t rest ht => exact ⟨⟨ts, r⟩, labelled_of_subperm r r (.refl _) (.refl _) rfl rfl⟩
  | swap =>
      cases hsteps with
      | swap ht => exact ⟨⟨ts, r⟩, labelled_of_subperm r r (.refl _) (swap_coming_perm ht) rfl rfl⟩
  | task =>
      cases hsteps with
      | taskAdd t rest q hts hq =>
          obtain ⟨hn, ts', r', hperm⟩ := perm_of_add hq r
          refine ⟨⟨ts', r'⟩, List.Perm.subperm ?_, rfl, hn⟩
          rw [labels_eq (s := { s with timerQueue := q, tmpQueue := rest }) r', labels_eq r]
          refine List.Perm.map Timer.label ((hperm.append_right _).trans ?_)
          exact (List.perm_middle.symm.trans ((taskAdd_coming_perm hts).symm.append_left ts))
      | taskCancel id rest q hts hb hq =>
          obtain ⟨hn, ts', r', hperm⟩ := TimerQueue.perm_of_cancelTimerInLoop r hq
          refine ⟨⟨ts', r'⟩, labelled_of_subperm r r' ?_ (taskCancel_coming_perm hts) rfl hn⟩
          exact (hperm.map _).subperm.trans (List.filter_sublist.map _).subperm

/-! ## The numbers are the calls' own, the ids are their numbers modulo `2 ^ 32` -/

/-- What is true of the labels in every run. -/
structure Labels (s : TimerLoop (ℕ × Cb)) : Prop where
  represents : ∃ ts, Represents s.timerQueue.heap ts
  counter : s.timerQueue.nextTimerId = BitVec.ofNat 32 s.issued
  nodup : (s.labels.map Prod.fst).Nodup
  issued : ∀ p ∈ s.labels, p.1 < s.issued ∧ p.2 = (BitVec.ofNat 32 p.1).toInt

theorem labels_init : (init : TimerLoop (ℕ × Cb)).Labels where
  represents := ⟨[], represents_init⟩
  counter := rfl
  nodup := .nil
  issued := nofun

theorem Labels.step (h : s.Labels) (hst : s.numbered a = some s') : s'.Labels := by
  obtain ⟨ts, r⟩ := h.represents
  obtain ⟨r', hl⟩ := labelled_of_step r hst
  cases ha : a.takesId with
  | false =>
      rw [ha] at hl
      obtain ⟨hsub, hi, hn⟩ := hl
      refine ⟨r', by rw [hn, hi, h.counter], ?_, fun p hp => hi ▸ h.issued p (hsub.subset hp)⟩
      obtain ⟨l, hperm, hsl⟩ := hsub
      exact (hperm.map Prod.fst).nodup_iff.mp (h.nodup.sublist (hsl.map Prod.fst))
  | true =>
      rw [ha] at hl
      obtain ⟨hperm, hi, hn⟩ := hl
      have hlt : ∀ p ∈ s.labels, p.1 < s.issued := fun p hp => (h.issued p hp).1
      refine ⟨r', ?_, ?_, fun p hp => ?_⟩
      · rw [hn, hi, h.counter, BitVec.ofNat_add]
        rfl
      · refine (hperm.map Prod.fst).nodup_iff.mpr (List.nodup_cons.mpr ⟨fun hmem => ?_, h.nodup⟩)
        obtain ⟨p, hp, he⟩ := List.mem_map.mp hmem
        exact absurd he (hlt p hp).ne
      · rcases List.mem_cons.mp (hperm.mem_iff.mp hp) with rfl | hp
        · exact ⟨hi ▸ Nat.lt_succ_self _, by rw [h.counter]⟩
        · exact ⟨hi ▸ (hlt p hp).trans (Nat.lt_succ_self _), (h.issued p hp).2⟩

theorem labels_of_run {tr : List (TimerLoop (ℕ × Cb) × TimerAct Cb)}
    (hr : Run (stepOf numbered) init tr s) : s.Labels :=
  hr.invariant labels_init fun h hst => h.step hst

/-- Two calls have returned the same id when a multiple of `2 ^ 32` calls lie between them. -/
theorem toInt_ofNat_eq_iff {m n : ℕ} (h : m ≤ n) :
    (BitVec.ofNat 32 m).toInt = (BitVec.ofNat 32 n).toInt ↔ 2 ^ 32 ∣ n - m := by
  rw [BitVec.toInt_inj, ← BitVec.toNat_inj, BitVec.toNat_ofNat, BitVec.toNat_ofNat]
  omega

theorem mem_labels {t : Timer (ℕ × Cb)} (ht : t ∈ s.liveTimers) : (t.cb.1, t.id) ∈ s.labels :=
  List.mem_map_of_mem (f := Timer.label) ht

/-- The next id is that of a timer which has aged. -/
theorem Labels.id_eq_next_iff (h : s.Labels) {t : Timer (ℕ × Cb)} (ht : t ∈ s.liveTimers) :
    t.id = s.timerQueue.nextTimerId.toInt ↔ 2 ^ 32 ∣ s.issued - t.cb.1 := by
  obtain ⟨hlt, hid⟩ := h.issued _ (mem_labels ht)
  dsimp only at hlt hid
  rw [hid, h.counter, toInt_ofNat_eq_iff hlt.le]

theorem distinct_iff_labels (s : TimerLoop (ℕ × Cb)) :
    s.Distinct ↔ (s.labels.map Prod.snd).Nodup := by
  rw [Distinct, labels, List.map_map]
  rfl

/-- A step keeps the ids distinct exactly when it does not come to an old timer. -/
theorem Labels.notAged_iff (h : s.Labels) (hd : s.Distinct) (hst : s.numbered a = some s') :
    s.NotAged a ↔ s'.Distinct := by
  obtain ⟨ts, r⟩ := h.represents
  obtain ⟨-, hl⟩ := labelled_of_step r hst
  rw [distinct_iff_labels] at hd ⊢
  cases ha : a.takesId with
  | false =>
      rw [ha] at hl
      obtain ⟨⟨l, hperm, hsl⟩, -, -⟩ := hl
      refine iff_of_true (fun htrue => ?_) ?_
      · rw [ha] at htrue
        exact absurd htrue Bool.false_ne_true
      · exact (hperm.map Prod.snd).nodup_iff.mp (hd.sublist (hsl.map Prod.snd))
  | true =>
      rw [ha] at hl
      rw [(hl.1.map Prod.snd).nodup_iff, List.map_cons, List.nodup_cons, and_iff_left hd]
      have hmem : s.timerQueue.nextTimerId.toInt ∈ s.labels.map Prod.snd ↔
          ∃ t ∈ s.liveTimers, 2 ^ 32 ∣ s.issued - t.cb.1 := by
        rw [labels, List.map_map, List.mem_map]
        exact exists_congr fun t => and_congr_right fun ht => h.id_eq_next_iff ht
      rw [hmem, NotAged, ha]
      push Not
      exact ⟨fun hn => hn rfl, fun hn _ => hn⟩

/-! ## Add and CancelTimerInLoop with distinct ids -/

theorem mem_liveTimers_of_heap {t : Timer Cb} {s : TimerLoop Cb}
    (ht : t ∈ s.timerQueue.heap.timers) : t ∈ s.liveTimers :=
  List.mem_append_left _ ht

/-- AddTimer on the loop thread fails on the timer in the heap that has aged. -/
theorem Labels.add_iff (h : s.Labels) {w : ℤ} (hw : w ≠ timePointMax) (i : ℤ) (cb : Cb) :
    (∃ s', s.numbered (.add w i cb) = some s') ↔
      ∀ t ∈ s.timerQueue.heap.timers, ¬ 2 ^ 32 ∣ s.issued - t.cb.1 := by
  obtain ⟨ts, r⟩ := h.represents
  have hid : ∀ t ∈ ts, t.id = s.timerQueue.nextTimerId.toInt ↔ 2 ^ 32 ∣ s.issued - t.cb.1 :=
    fun t ht => h.id_eq_next_iff (mem_liveTimers_of_heap (r.timers.symm ▸ ht))
  rw [r.timers]
  constructor
  · rintro ⟨s', hst⟩ t ht hdvd
    obtain ⟨-, q, hq, -⟩ := step_add_eq hst
    obtain ⟨_, hadd, -⟩ := Option.bind_eq_some_iff.mp hq
    exact r.fresh_of_add hadd t ht ((hid t ht).mpr hdvd)
  · intro hno
    have hfresh : ∀ t ∈ ts, t.id ≠ s.timerQueue.nextTimerId.toInt := fun t ht he =>
      hno t ht ((hid t ht).mp he)
    obtain ⟨q, e, -⟩ := TimerQueue.addTimerInLoop_spec
      (q := { s.timerQueue with nextTimerId := s.timerQueue.nextTimerId + 1 })
      (t := ⟨(s.issued, cb), w, i, s.timerQueue.nextTimerId.toInt⟩) r hfresh
    refine ⟨{ s with timerQueue := q, issued := s.issued + 1,
                     returned := s.returned ++ [s.timerQueue.nextTimerId.toInt] }, ?_⟩
    simp only [numbered, TimerAct.number, TimerLoop.step, TimerQueue.addTimer, assert_of hw, e,
      Option.bind_eq_bind, Option.bind_some]

/-- With distinct ids AddTimerInLoop adds its timer to all others. -/
theorem Labels.addTimerInLoop (h : s.Labels) (hd : s.Distinct) {t : Timer (ℕ × Cb)}
    (ht : t ∈ s.coming) :
    ∃ q, s.timerQueue.addTimerInLoop t = some q ∧
      q.heap.timers.Perm (t :: s.timerQueue.heap.timers) := by
  obtain ⟨ts, r⟩ := h.represents
  rw [Distinct, liveTimers, r.timers, List.map_append, List.nodup_append] at hd
  have hfresh : ∀ u ∈ ts, u.id ≠ t.id := fun u hu =>
    hd.2.2 _ (List.mem_map_of_mem hu) _ (List.mem_map_of_mem ht)
  obtain ⟨q, e, l⟩ := TimerQueue.addTimerInLoop_spec r hfresh
  refine ⟨q, e, ?_⟩
  rw [l.represents.timers, r.timers]
  exact push_perm _ _

/-- CancelTimerInLoop takes out the timer of one call, and leaves those of all others. -/
theorem Labels.cancelTimerInLoop (h : s.Labels) {t : Timer (ℕ × Cb)}
    (ht : t ∈ s.timerQueue.heap.timers) :
    ∃ q, s.timerQueue.cancelTimerInLoop t.id = some q ∧
      q.heap.timers.Perm (s.timerQueue.heap.timers.filter fun u => u.cb.1 ≠ t.cb.1) := by
  obtain ⟨ts, r⟩ := h.represents
  rw [r.timers] at ht ⊢
  obtain ⟨i, hi⟩ := List.mem_iff_getElem?.mp ht
  obtain ⟨q, e, l⟩ := TimerQueue.cancelTimerInLoop_spec r hi
  refine ⟨q, e, ?_⟩
  rw [l.represents.timers]
  refine (r.removeAt_perm hi).trans (.of_eq (List.filter_congr fun u hu => ?_))
  have hnum : (ts.map fun t => t.cb.1).Nodup := by
    have hnd := h.nodup
    rw [labels_eq r, List.map_map, List.map_append] at hnd
    exact (List.nodup_append.mp hnd).1
  refine decide_eq_decide.mpr (not_congr ⟨fun he => ?_, fun he => ?_⟩)
  · rw [List.inj_on_of_nodup_map r.nodup hu ht he]
  · rw [List.inj_on_of_nodup_map hnum hu ht he]

/-- In every run the ids of the live timers are distinct throughout exactly when no call of
AddTimer meets a live timer that was made a multiple of `2 ^ 32` calls before.  A call on
the loop thread fails the assertion of `Add` when such a timer is in the heap.  While the
ids are distinct, every timer that is queued is added beside all others; a cancellation
takes out the timer of one call. -/
theorem distinct_iff_notAged {tr : List (TimerLoop (ℕ × Cb) × TimerAct Cb)}
    (hr : Run (stepOf numbered) init tr s) :
    ((∀ p ∈ tr, NotAged p.1 p.2) ↔ (∀ p ∈ tr, Distinct p.1) ∧ s.Distinct) ∧
      (∀ w i cb, w ≠ timePointMax →
        ((∃ s', s.numbered (.add w i cb) = some s') ↔
          ∀ t ∈ s.timerQueue.heap.timers, ¬ 2 ^ 32 ∣ s.issued - t.cb.1)) ∧
      (s.Distinct → ∀ t ∈ s.coming, ∃ q, s.timerQueue.addTimerInLoop t = some q ∧
        q.heap.timers.Perm (t :: s.timerQueue.heap.timers)) ∧
      ∀ t ∈ s.timerQueue.heap.timers, ∃ q, s.timerQueue.cancelTimerInLoop t.id = some q ∧
        q.heap.timers.Perm (s.timerQueue.heap.timers.filter fun u => u.cb.1 ≠ t.cb.1) := by
  have h : s.Labels := labels_of_run hr
  refine ⟨?_, fun w i cb hw => h.add_iff hw i cb, fun hd t ht => h.addTimerInLoop hd ht,
    fun t ht => h.cancelTimerInLoop ht⟩
  exact hr.forall_iff_of_step (I := Labels) labels_init .nil (fun h hst => h.step hst)
    fun h hd hst => h.notAged_iff hd hst

/-- Two timers of other threads and one of the loop thread; one is cancelled, one expires. -/
def threeCalls : List (TimerAct ℕ) :=
  [.fetch 5 0 7, .fetch 6 1 8, .enqueueAdd 1, .add 9 0 6, .swap, .task, .cancel 2,
    .expire 3 fun _ => 10, .run, .enqueueAdd 0]

theorem distinct_threeCalls : ∃ tr s, runAll numbered init threeCalls = some (tr, s) ∧
    s.liveTimers.map Timer.id = [1, 0] ∧
      ((∀ p ∈ tr, NotAged p.1 p.2) ↔ (∀ p ∈ tr, Distinct p.1) ∧ s.Distinct) := by
  obtain ⟨tr, s, hrun, hids⟩ : ∃ tr s, runAll numbered init threeCalls = some (tr, s) ∧
      s.liveTimers.map Timer.id = [1, 0] :=
    exists_computed (by decide +kernel)
  exact ⟨tr, s, hrun, hids, (distinct_iff_notAged (run_of_runAll hrun)).1⟩

/-! ## A timer that lives for `2 ^ 32` calls -/

/-- The first timer is in the heap, and no other is live; there were `n` calls since. -/
def FirstAlone (s : TimerLoop (ℕ × Unit)) (n : ℕ) : Prop :=
  s.liveTimers.map Timer.label = [(0, 0)] ∧ s.coming = [] ∧ s.issued = n + 1

instance (s : TimerLoop (ℕ × Unit)) (n : ℕ) : Decidable (FirstAlone s n) :=
  inferInstanceAs (Decidable (_ ∧ _ ∧ _))

/-- The loop thread adds another timer. -/
theorem FirstAlone.add {s : TimerLoop (ℕ × Unit)} {n : ℕ} (hs : FirstAlone s n)
    (hn : n + 1 < 2 ^ 32) (h : s.Labels) :
    ∃ u t, s.numbered (.add 100 0 ()) = some u ∧ u.coming = [] ∧ u.issued = n + 2 ∧
      t.cb.1 = n + 1 ∧ u.liveTimers.Perm (t :: s.liveTimers) := by
  obtain ⟨hfirst, hcoming, hissued⟩ := hs
  have hlive : s.liveTimers = s.timerQueue.heap.timers := by
    rw [liveTimers, hcoming, List.append_nil]
  have hnot : ∀ t ∈ s.timerQueue.heap.timers, ¬ 2 ^ 32 ∣ s.issued - t.cb.1 := by
    intro t ht
    have hl : Timer.label t ∈ [(0, 0)] := by
      rw [← hfirst, hlive]
      exact List.mem_map_of_mem ht
    have h0 : t.cb.1 = 0 := congrArg Prod.fst (List.mem_singleton.mp hl)
    rw [h0, hissued]
    exact Nat.not_dvd_of_pos_of_lt (Nat.succ_pos n) hn
  have hmax : (100 : ℤ) ≠ timePointMax := by decide
  obtain ⟨u, hadd⟩ := (h.add_iff hmax 0 ()).mpr hnot
  obtain ⟨ts, r⟩ := h.represents
  obtain ⟨-, q, hq, rfl⟩ := step_add_eq hadd
  obtain ⟨-, ts', r', hperm⟩ := perm_of_add hq r
  refine ⟨_, ⟨(s.issued, ()), 100, 0, s.timerQueue.nextTimerId.toInt⟩, hadd, hcoming,
    congrArg (· + 1) hissued, hissued, ?_⟩
  have hheap : q.heap.timers.Perm
      (⟨(s.issued, ()), 100, 0, s.timerQueue.nextTimerId.toInt⟩ :: s.timerQueue.heap.timers) := by
    rwa [r'.timers, r.timers]
  show (q.heap.timers ++ s.coming).Perm _
  rwa [hcoming, List.append_nil, hlive]

/-- The loop thread cancels the timer it has added. -/
theorem FirstAlone.cancel {s u : TimerLoop (ℕ × Unit)} {t : Timer (ℕ × Unit)} {n : ℕ}
    (hs : FirstAlone s n) (h : u.Labels) (hcoming : u.coming = []) (hissued : u.issued = n + 2)
    (hnum : t.cb.1 = n + 1) (hperm : u.liveTimers.Perm (t :: s.liveTimers)) :
    ∃ s', u.numbered (.cancel t.id) = some s' ∧ FirstAlone s' (n + 1) := by
  have hlive : u.liveTimers = u.timerQueue.heap.timers := by
    rw [liveTimers, hcoming, List.append_nil]
  rw [hlive] at hperm
  obtain ⟨q, hq, hleft⟩ := h.cancelTimerInLoop (hperm.mem_iff.mpr List.mem_cons_self)
  obtain ⟨c, hnote, -⟩ := u.note_eq t.id
  refine ⟨{ u with cancelled := c, timerQueue := q }, ?_, ?_, hcoming, hissued⟩
  · simp only [numbered, TimerAct.number, TimerLoop.step, hq, hnote, Option.bind_eq_bind,
      Option.bind_some]
  · have hold : ∀ v ∈ s.liveTimers, v.cb.1 ≠ t.cb.1 := by
      intro v hv
      have hl : Timer.label v ∈ [(0, 0)] := hs.1 ▸ List.mem_map_of_mem hv
      have h0 : v.cb.1 = 0 := congrArg Prod.fst (List.mem_singleton.mp hl)
      rw [h0, hnum]
      exact (Nat.succ_ne_zero n).symm
    have hrest : q.heap.timers.Perm s.liveTimers := by
      have hf := hleft.trans (hperm.filter _)
      rwa [List.filter_cons_of_neg (by simp),
        List.filter_eq_self.mpr fun v hv => decide_eq_true (hold v hv)] at hf
    refine List.perm_singleton.mp ?_
    rw [← hs.1]
    show ((q.heap.timers ++ u.coming).map Timer.label).Perm _
    rw [hcoming, List.append_nil]
    exact hrest.map Timer.label

theorem firstAlone_of_calls : ∀ n, n < 2 ^ 32 →
    ∃ tr s, Run (stepOf numbered) (init : TimerLoop (ℕ × Unit)) tr s ∧ FirstAlone s n
  | 0, _ => by
      obtain ⟨tr, s, hrun, h⟩ : ∃ tr s,
          runAll numbered init [TimerAct.add 100 0 ()] = some (tr, s) ∧ FirstAlone s 0 :=
        exists_computed (by decide +kernel)
      exact ⟨tr, s, run_of_runAll hrun, h⟩
  | n + 1, hn => by
      obtain ⟨tr, s, hr, hs⟩ := firstAlone_of_calls n (by omega)
      have h := labels_of_run hr
      obtain ⟨u, t, hadd, hcoming, hissued, hnum, hperm⟩ := hs.add hn h
      obtain ⟨s', hcancel, hs'⟩ := hs.cancel (h.step hadd) hcoming hissued hnum hperm
      exact ⟨_, s', (hr.snoc hadd).snoc hcancel, hs'⟩

/-- After `2 ^ 32` calls, the first timer still live, another thread's AddTimer returns the
id of the first timer again. -/
theorem id_twice : ∃ tr s, Run (stepOf numbered) (init : TimerLoop (ℕ × Unit)) tr s ∧
    s.labels.Perm [(2 ^ 32, 0), (0, 0)] ∧ ¬ s.Distinct := by
  obtain ⟨tr, s, hr, hfirst, -, hissued⟩ := firstAlone_of_calls (2 ^ 32 - 1) (by decide)
  have h := labels_of_run hr
  obtain ⟨ts, r⟩ := h.represents
  have hmax : (5 : ℤ) ≠ timePointMax := by decide
  obtain ⟨u, hu⟩ : ∃ u, s.numbered (.fetch 5 0 ()) = some u :=
    Option.isSome_iff_exists.mp (by
      simp [numbered, TimerAct.number, TimerLoop.step, TimerQueue.addTimer, assert_of hmax])
  have hperm : u.labels.Perm [(2 ^ 32, 0), (0, 0)] := by
    have hl := (labelled_of_step r hu).2.1
    rwa [h.counter, hissued, show s.labels = [(0, 0)] from hfirst] at hl
  refine ⟨_, u, hr.snoc hu, hperm, ?_⟩
  rw [distinct_iff_labels, (hperm.map Prod.snd).nodup_iff]
  decide

end TimerLoop

end Muduo
