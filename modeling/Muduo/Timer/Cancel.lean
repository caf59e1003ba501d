/-
# `Muduo.Timer.Cancel` — a cancelled timer is gone

The call of AddTimer and that of CancelTimer may take different ways: at once on
the loop thread, through the queue from another one.

    AddTimer         CancelTimer
    queued           queued         in order: the queue is first in, first out
    at once          at once        in order
    at once          queued         in order
    queued           at once        the cancellation overtakes the timer if
                                    AddTimerInLoop has not been called yet

In the last case CancelTimerInLoop finds nothing, and the timer is added later.
In a run without it, and with fewer than `2 ^ 32` calls of AddTimer, so that no id
is handed out twice, a timer whose cancellation is not queued any more is gone
and stays so (`cancelled_for_good`).
-/
import Mathlib.Algebra.Ring.Nat
import Mathlib.Data.List.Perm.Basic
import Muduo.Lib.Runs
import Muduo.Timer.Calls
import Muduo.Timer.Queue

namespace Muduo

open BinHeap Runs TimerMinHeap

variable {Cb : Type}

/-! ## What the calls do with the timers in the heap -/

namespace TimerQueue

variable {q q' : TimerQueue Cb} {ts : List (Timer Cb)}

theorem perm_of_addTimerInLoop {t : Timer Cb} (r : Represents q.heap ts)
    (ht : ∀ u ∈ ts, u.id ≠ t.id) (h : q.addTimerInLoop t = some q') :
    q'.nextTimerId = q.nextTimerId ∧ ∃ ts', Represents q'.heap ts' ∧ ts'.Perm (t :: ts) := by
  obtain ⟨q'', e, l⟩ := addTimerInLoop_spec r ht
  obtain rfl := Option.some.inj (e.symm.trans h)
  exact ⟨l.nextTimerId, _, l.represents, push_perm _ _⟩

theorem perm_of_cancelTimerInLoop {id : ℤ} (r : Represents q.heap ts)
    (h : q.cancelTimerInLoop id = some q') :
    q'.nextTimerId = q.nextTimerId ∧ ∃ ts', Represents q'.heap ts' ∧
      ts'.Perm (ts.filter fun u => u.id ≠ id) := by
  rcases cancelTimerInLoop_cases r id with ⟨e, hid⟩ | ⟨i, t, q'', ht, rfl, e, l⟩
  · obtain rfl := Option.some.inj (e.symm.trans h)
    refine ⟨rfl, ts, r, ?_⟩
    rw [List.filter_eq_self.mpr fun u hu => decide_eq_true (hid u hu)]
  · obtain rfl := Option.some.inj (e.symm.trans h)
    exact ⟨l.nextTimerId, _, l.represents, r.removeAt_perm ht⟩

theorem left_of_cancelTimerInLoop {id : ℤ} (r : Represents q.heap ts)
    (h : q.cancelTimerInLoop id = some q') :
    q'.nextTimerId = q.nextTimerId ∧
      ∃ ts', Represents q'.heap ts' ∧ ∀ u ∈ ts', u ∈ ts ∧ u.id ≠ id := by
  obtain ⟨hn, ts', r', hperm⟩ := perm_of_cancelTimerInLoop r h
  refine ⟨hn, ts', r', fun u hu => ?_⟩
  obtain ⟨hmem, hne⟩ := List.mem_filter.mp (hperm.mem_iff.mp hu)
  exact ⟨hmem, of_decide_eq_true hne⟩

theorem ids_of_getExpiredTimers {fuel : ℕ} {clock : ℕ → ℤ} {batch : List (Timer Cb)}
    (r : Represents q.heap ts) (h : q.getExpiredTimers fuel clock = some (q', batch)) :
    q'.nextTimerId = q.nextTimerId ∧ (∀ t ∈ batch, t.id ∈ ts.map Timer.id) ∧
      ∃ ts', Represents q'.heap ts' ∧ ∀ u ∈ ts', u.id ∈ ts.map Timer.id := by
  obtain ⟨ts', e, l⟩ := expires_of_getExpiredTimers r h
  exact ⟨l.nextTimerId, e.ids.1, ts', l.represents, e.ids.2⟩

end TimerQueue

namespace TimerLoop

variable {s s' : TimerLoop Cb} {a : TimerAct Cb} {ts : List (Timer Cb)} {id : ℤ}

theorem live_eq (r : Represents s.timerQueue.heap ts) : s.live = ts.map Timer.id := by
  rw [live, r.list, List.filterMap_map]
  exact congrFun List.filterMap_eq_map ts

/-- The timers that queued callbacks are to add. -/
def adds (tasks : List (TimerTask Cb)) : List (Timer Cb) := tasks.filterMap TimerTask.add?

@[simp] theorem adds_append (l m : List (TimerTask Cb)) : adds (l ++ m) = adds l ++ adds m :=
  List.filterMap_append

/-- CancelTimer on the loop thread comes when the timer's AddTimerInLoop is not queued;
an id is not handed out twice. -/
def InTime (s : TimerLoop Cb) : TimerAct Cb → Prop
  | .cancel id => ∀ t ∈ adds s.tasks, t.id ≠ id
  | .fetch _ _ _ | .add _ _ _ => s.issued < 2 ^ 32
  | _ => True

instance (s : TimerLoop Cb) : (a : TimerAct Cb) → Decidable (s.InTime a)
  | .cancel _ => inferInstanceAs (Decidable (∀ _ ∈ _, _))
  | .fetch _ _ _ | .add _ _ _ => inferInstanceAs (Decidable (_ < _))
  | .enqueueAdd _ | .enqueueCancel _ | .expire _ _ | .run | .swap | .task =>
      inferInstanceAs (Decidable True)

/-! ## The ids -/

/-- One of the ids handed out so far. -/
def Issued (s : TimerLoop Cb) (id : ℤ) : Prop :=
  ∃ k, k < s.issued ∧ id = (BitVec.ofNat 32 k).toInt

theorem Issued.mono {n : ℕ} (h : s.Issued id) (hle : s.issued ≤ n) :
    ∃ k, k < n ∧ id = (BitVec.ofNat 32 k).toInt := by
  obtain ⟨k, hk, he⟩ := h
  exact ⟨k, Nat.lt_of_lt_of_le hk hle, he⟩

/-- The next id is not one of them. -/
theorem Issued.ne_next (h : s.Issued id) (hlt : s.issued < 2 ^ 32) :
    id ≠ (BitVec.ofNat 32 s.issued).toInt := by
  obtain ⟨k, hk, rfl⟩ := h
  intro he
  have hn := congrArg BitVec.toNat (BitVec.toInt_inj.mp he)
  rw [BitVec.toNat_ofNat, BitVec.toNat_ofNat, Nat.mod_eq_of_lt (hk.trans hlt),
    Nat.mod_eq_of_lt hlt] at hn
  exact absurd hn (Nat.ne_of_lt hk)

/-- The timers that are not in the heap yet. -/
def coming (s : TimerLoop Cb) : List (Timer Cb) := s.fetched ++ adds s.tasks

section Coming

variable {t : Timer Cb} {i : ℕ} {rest : List (TimerTask Cb)}

theorem fetch_coming_perm (s : TimerLoop Cb) (t : Timer Cb) :
    ((s.fetched ++ [t]) ++ adds s.tasks).Perm (t :: s.coming) := by
  rw [List.append_assoc]
  exact List.perm_middle

theorem enqueueAdd_coming_perm (ht : s.fetched[i]? = some t) :
    (s.fetched.eraseIdx i ++
      adds (s.tmpQueue ++ (s.pendingCbsQueue ++ [TimerTask.addTimerInLoop t]))).Perm s.coming := by
  obtain ⟨hi, rfl⟩ := List.getElem?_eq_some_iff.mp ht
  have hadds : adds (s.tmpQueue ++ (s.pendingCbsQueue ++ [TimerTask.addTimerInLoop s.fetched[i]])) =
      adds s.tasks ++ [s.fetched[i]] := by
    rw [← List.append_assoc, adds_append]
    rfl
  rw [hadds, ← List.append_assoc]
  refine List.Perm.trans ?_ ((List.getElem_cons_eraseIdx_perm hi).append_right (adds s.tasks))
  exact List.perm_append_comm

theorem enqueueCancel_coming_perm (s : TimerLoop Cb) (id : ℤ) :
    (s.fetched ++ adds (s.tmpQueue ++ (s.pendingCbsQueue ++ [TimerTask.cancelTimerInLoop id]))).Perm
      s.coming := by
  rw [TimerLoop.coming, tasks, ← List.append_assoc, adds_append]
  exact .of_eq (congrArg _ (List.append_nil _))

theorem swap_coming_perm (ht : s.tmpQueue = []) :
    (s.fetched ++ adds (s.pendingCbsQueue ++ [])).Perm s.coming := by
  rw [TimerLoop.coming, tasks, ht, List.append_nil, List.nil_append]

theorem taskAdd_coming_perm (hts : s.tmpQueue = .addTimerInLoop t :: rest) :
    s.coming.Perm (t :: (s.fetched ++ adds (rest ++ s.pendingCbsQueue))) := by
  rw [TimerLoop.coming, tasks, hts]
  exact List.perm_middle

theorem taskCancel_coming_perm (hts : s.tmpQueue = .cancelTimerInLoop id :: rest) :
    (s.fetched ++ adds (rest ++ s.pendingCbsQueue)).Perm s.coming := by
  rw [TimerLoop.coming, tasks, hts]
  rfl

end Coming

/-- Every timer has an id of its own, handed out by `AddTimer`; that of a call that has
not returned is in no other place. -/
structure Ids (s : TimerLoop Cb) (ts : List (Timer Cb)) : Prop where
  represents : Represents s.timerQueue.heap ts
  counter : s.timerQueue.nextTimerId = BitVec.ofNat 32 s.issued
  nodup : (s.coming.map Timer.id).Nodup
  apart : ∀ t ∈ s.coming, ∀ u ∈ ts, u.id ≠ t.id
  coming : ∀ t ∈ s.coming, s.Issued t.id
  live : ∀ t ∈ ts, s.Issued t.id
  returned : ∀ id ∈ s.returned, s.Issued id ∧ ∀ t ∈ s.fetched, t.id ≠ id
  batch : ∀ t ∈ s.expiredTimers, t.id ∈ s.expired

theorem ids_init : (init : TimerLoop Cb).Ids [] where
  represents := represents_init
  counter := rfl
  nodup := .nil
  apart := nofun
  coming := nofun
  live := nofun
  returned := nofun
  batch := nofun

/-- The id of a new timer. -/
theorem Ids.fresh (h : s.Ids ts) (hlt : s.issued < 2 ^ 32) {t : Timer Cb}
    (ht : t.id = s.timerQueue.nextTimerId.toInt) :
    (∃ k, k < s.issued + 1 ∧ t.id = (BitVec.ofNat 32 k).toInt) ∧ ∀ id, s.Issued id → id ≠ t.id := by
  rw [h.counter] at ht
  refine ⟨⟨_, Nat.lt_succ_self _, ht⟩, fun id hid he => ?_⟩
  exact hid.ne_next hlt (he.trans ht)

theorem Ids.counter_succ (h : s.Ids ts) :
    s.timerQueue.nextTimerId + 1 = BitVec.ofNat 32 (s.issued + 1) := by
  rw [h.counter, BitVec.ofNat_add]
  rfl

/-- A step that hands out no id, moves no timer into the heap and makes none up. -/
theorem Ids.keep (h : s.Ids ts) {ts' : List (Timer Cb)}
    (r : Represents s'.timerQueue.heap ts')
    (hn : s'.timerQueue.nextTimerId = s.timerQueue.nextTimerId) (hi : s'.issued = s.issued)
    (hc : s'.coming.Perm s.coming) (hl : ∀ u ∈ ts', u.id ∈ ts.map Timer.id)
    (hr : ∀ id ∈ s'.returned, s.Issued id ∧ ∀ t ∈ s'.fetched, t.id ≠ id)
    (hb : ∀ t ∈ s'.expiredTimers, t.id ∈ s'.expired) : s'.Ids ts' where
  represents := r
  counter := by rw [hn, hi, h.counter]
  nodup := (hc.map Timer.id).nodup_iff.mpr h.nodup
  apart := by
    intro t ht u hu
    obtain ⟨v, hv, he⟩ := List.mem_map.mp (hl u hu)
    exact he ▸ h.apart t (hc.mem_iff.mp ht) v hv
  coming := by
    intro t ht
    exact (h.coming t (hc.mem_iff.mp ht)).mono (Nat.le_of_eq hi.symm)
  live := by
    intro u hu
    obtain ⟨v, hv, he⟩ := List.mem_map.mp (hl u hu)
    exact he ▸ (h.live v hv).mono (Nat.le_of_eq hi.symm)
  returned := by
    intro id hid
    exact ⟨(hr id hid).1.mono (Nat.le_of_eq hi.symm), (hr id hid).2⟩
  batch := hb

theorem Ids.fetch (h : s.Ids ts) (hlt : s.issued < 2 ^ 32) {t : Timer Cb}
    (ht : t.id = s.timerQueue.nextTimerId.toInt) :
    Ids { s with timerQueue := { s.timerQueue with nextTimerId := s.timerQueue.nextTimerId + 1 },
                 fetched := s.fetched ++ [t], issued := s.issued + 1 } ts := by
  obtain ⟨hnew, hne⟩ := h.fresh hlt ht
  have hperm := fetch_coming_perm s t
  exact
    { represents := h.represents
      counter := h.counter_succ
      nodup := by
        refine (hperm.map Timer.id).nodup_iff.mpr (List.nodup_cons.mpr ⟨fun hmem => ?_, h.nodup⟩)
        obtain ⟨u, hu, he⟩ := List.mem_map.mp hmem
        exact hne _ (h.coming u hu) he
      apart := by
        intro u hu v hv
        rcases List.mem_cons.mp (hperm.mem_iff.mp hu) with rfl | hu
        · exact hne _ (h.live v hv)
        · exact h.apart u hu v hv
      coming := by
        intro u hu
        rcases List.mem_cons.mp (hperm.mem_iff.mp hu) with rfl | hu
        · exact hnew
        · exact (h.coming u hu).mono (Nat.le_succ _)
      live := fun u hu => (h.live u hu).mono (Nat.le_succ _)
      returned := by
        intro id hid
        refine ⟨(h.returned id hid).1.mono (Nat.le_succ _), fun u hu => ?_⟩
        rcases List.mem_append.mp hu with hu | hu
        · exact (h.returned id hid).2 u hu
        · rw [List.mem_singleton.mp hu]
          exact (hne id (h.returned id hid).1).symm
      batch := h.batch }

/-- `AddTimer` on the loop thread. -/
theorem Ids.add (h : s.Ids ts) (hlt : s.issued < 2 ^ 32) {t : Timer Cb} {q : TimerQueue Cb}
    (ht : t.id = s.timerQueue.nextTimerId.toInt)
    (hq : ({ s.timerQueue with nextTimerId := s.timerQueue.nextTimerId + 1 } :
      TimerQueue Cb).addTimerInLoop t = some q) :
    ∃ ts', Ids { s with timerQueue := q, issued := s.issued + 1, returned := s.returned ++ [t.id] }
        ts' ∧ ts'.Perm (t :: ts) := by
  obtain ⟨hnew, hne⟩ := h.fresh hlt ht
  obtain ⟨hn, ts', r', hperm⟩ :=
    TimerQueue.perm_of_addTimerInLoop
      (q := { s.timerQueue with nextTimerId := s.timerQueue.nextTimerId + 1 }) h.represents
      (fun u hu => hne _ (h.live u hu)) hq
  refine ⟨ts', ?_, hperm⟩
  exact
    { represents := r'
      counter := hn.trans h.counter_succ
      nodup := h.nodup
      apart := by
        intro u hu v hv
        rcases List.mem_cons.mp (hperm.mem_iff.mp hv) with rfl | hv
        · exact (hne _ (h.coming u hu)).symm
        · exact h.apart u hu v hv
      coming := fun u hu => (h.coming u hu).mono (Nat.le_succ _)
      live := by
        intro u hu
        rcases List.mem_cons.mp (hperm.mem_iff.mp hu) with rfl | hu
        · exact hnew
        · exact (h.live u hu).mono (Nat.le_succ _)
      returned := by
        intro id hid
        rcases List.mem_append.mp hid with hid | hid
        · exact ⟨(h.returned id hid).1.mono (Nat.le_succ _), (h.returned id hid).2⟩
        · rw [List.mem_singleton.mp hid]
          refine ⟨hnew, fun u hu => hne _ (h.coming u (List.mem_append_left _ hu))⟩
      batch := h.batch }

/-- The callback that adds a timer. -/
theorem Ids.taskAdd (h : s.Ids ts) {t : Timer Cb} {rest : List (TimerTask Cb)}
    {q : TimerQueue Cb} (hts : s.tmpQueue = .addTimerInLoop t :: rest)
    (hq : s.timerQueue.addTimerInLoop t = some q) :
    ∃ ts', Ids { s with timerQueue := q, tmpQueue := rest } ts' ∧ ts'.Perm (t :: ts) := by
  have hperm := taskAdd_coming_perm hts
  have hnd := (hperm.map Timer.id).nodup_iff.mp h.nodup
  have ht : ∀ u ∈ ts, u.id ≠ t.id := h.apart t (hperm.mem_iff.mpr List.mem_cons_self)
  obtain ⟨hn, ts', r', hperm'⟩ := TimerQueue.perm_of_addTimerInLoop h.represents ht hq
  refine ⟨ts', ?_, hperm'⟩
  exact
    { represents := r'
      counter := hn.trans h.counter
      nodup := (List.nodup_cons.mp hnd).2
      apart := by
        intro u hu v hv
        rcases List.mem_cons.mp (hperm'.mem_iff.mp hv) with rfl | hv
        · exact fun he => (List.nodup_cons.mp hnd).1 (he ▸ List.mem_map_of_mem hu)
        · exact h.apart u (hperm.mem_iff.mpr (List.mem_cons_of_mem _ hu)) v hv
      coming := fun u hu => h.coming u (hperm.mem_iff.mpr (List.mem_cons_of_mem _ hu))
      live := by
        intro u hu
        rcases List.mem_cons.mp (hperm'.mem_iff.mp hu) with rfl | hu
        · exact h.coming _ (hperm.mem_iff.mpr List.mem_cons_self)
        · exact h.live u hu
      returned := h.returned
      batch := h.batch }

/-- The push of `AddTimerInLoop`. -/
theorem Ids.enqueueAdd (h : s.Ids ts) {i : ℕ} {t : Timer Cb} (ht : s.fetched[i]? = some t) :
    Ids { s with fetched := s.fetched.eraseIdx i,
                 pendingCbsQueue := s.pendingCbsQueue ++ [.addTimerInLoop t],
                 returned := s.returned ++ [t.id] } ts := by
  have hcoming := enqueueAdd_coming_perm ht
  obtain ⟨hi, rfl⟩ := List.getElem?_eq_some_iff.mp ht
  have hfetched : (s.fetched[i] :: s.fetched.eraseIdx i).Perm s.fetched :=
    List.getElem_cons_eraseIdx_perm hi
  have hsub : ∀ u ∈ s.fetched.eraseIdx i, u ∈ s.fetched := fun u hu =>
    hfetched.mem_iff.mp (List.mem_cons_of_mem _ hu)
  refine h.keep h.represents rfl rfl hcoming (fun u hu => List.mem_map_of_mem hu) ?_ h.batch
  intro id hid
  rcases List.mem_append.mp hid with hid | hid
  · exact ⟨(h.returned id hid).1, fun u hu => (h.returned id hid).2 u (hsub u hu)⟩
  · rw [List.mem_singleton.mp hid]
    refine ⟨h.coming _ (List.mem_append_left _ (List.getElem_mem hi)), fun u hu he => ?_⟩
    have hnd := ((hfetched.append_right (adds s.tasks)).map Timer.id).nodup_iff.mpr h.nodup
    refine (List.nodup_cons.mp hnd).1 ?_
    exact he ▸ List.mem_map_of_mem (List.mem_append_left _ hu)

theorem Ids.step (h : s.Ids ts) (hg : s.InTime a) (hst : Steps s a s') : ∃ ts', s'.Ids ts' := by
  have hlive : ∀ u ∈ ts, u.id ∈ ts.map Timer.id := fun u hu => List.mem_map_of_mem hu
  cases hst with
  | fetch w i cb t ht => exact ⟨ts, h.fetch hg ht⟩
  | add w i cb t q ht hq =>
      obtain ⟨ts', h', -⟩ := h.add hg ht hq
      exact ⟨ts', h'⟩
  | enqueueAdd i t ht => exact ⟨ts, h.enqueueAdd ht⟩
  | enqueueCancel id c =>
      exact ⟨ts, h.keep h.represents rfl rfl (enqueueCancel_coming_perm s id) hlive h.returned
        h.batch⟩
  | cancel id c q hc hq =>
      obtain ⟨hn, ts', r', hsub⟩ := TimerQueue.left_of_cancelTimerInLoop h.represents hq
      exact ⟨ts', h.keep r' hn rfl (.refl _) (fun u hu => hlive u (hsub u hu).1) h.returned h.batch⟩
  | expire fuel clock q batch hb hq =>
      obtain ⟨hn, -, ts', r', hsub⟩ := TimerQueue.ids_of_getExpiredTimers h.represents hq
      refine ⟨ts', h.keep r' hn rfl (.refl _) hsub h.returned fun t ht => ?_⟩
      exact List.mem_append_right _ (List.mem_map_of_mem ht)
  | run t rest ht =>
      refine ⟨ts, h.keep h.represents rfl rfl (.refl _) hlive h.returned fun u hu => ?_⟩
      exact h.batch u (ht ▸ List.mem_cons_of_mem _ hu)
  | swap ht =>
      exact ⟨ts, h.keep h.represents rfl rfl (swap_coming_perm ht) hlive h.returned h.batch⟩
  | taskAdd t rest q hts hq =>
      obtain ⟨ts', h', -⟩ := h.taskAdd hts hq
      exact ⟨ts', h'⟩
  | taskCancel id rest q hts hb hq =>
      obtain ⟨hn, ts', r', hsub⟩ := TimerQueue.left_of_cancelTimerInLoop h.represents hq
      exact ⟨ts', h.keep r' hn rfl (taskCancel_coming_perm hts) (fun u hu => hlive u (hsub u hu).1)
        h.returned h.batch⟩

/-! ## A cancellation that is queued, and one that has been made -/

/-- The timer is neither in the heap nor in a batch nor queued. -/
structure Gone (s : TimerLoop Cb) (id : ℤ) : Prop where
  queued : ∀ t ∈ adds s.tasks, t.id ≠ id
  live : id ∉ s.live
  batch : ∀ t ∈ s.expiredTimers, t.id ≠ id

/-- The cancellation is queued, and behind it no callback that adds the timer. -/
def CancelQueued (tasks : List (TimerTask Cb)) (id : ℤ) : Prop :=
  ∃ pre post, tasks = pre ++ .cancelTimerInLoop id :: post ∧ ∀ t ∈ adds post, t.id ≠ id

/-- What has become of the cancellations. -/
def Cancels (s : TimerLoop Cb) : Prop :=
  ∀ id ∈ s.cancelled, id ∈ s.returned ∧ (CancelQueued s.tasks id ∨ s.Gone id)

section CancelQueued

variable {task : TimerTask Cb} {tasks : List (TimerTask Cb)}

/-- A callback is queued that does not add the timer. -/
theorem CancelQueued.push (h : CancelQueued tasks id) (ht : ∀ t ∈ adds [task], t.id ≠ id) :
    CancelQueued (tasks ++ [task]) id := by
  obtain ⟨pre, post, rfl, hpost⟩ := h
  refine ⟨pre, post ++ [task], by rw [List.append_assoc, List.cons_append], fun t hmem => ?_⟩
  rw [adds_append] at hmem
  rcases List.mem_append.mp hmem with hmem | hmem
  · exact hpost t hmem
  · exact ht t hmem

/-- The first callback is called: it was another one, or the cancellation itself. -/
theorem CancelQueued.pop (h : CancelQueued (task :: tasks) id) :
    CancelQueued tasks id ∨ (task = .cancelTimerInLoop id ∧ ∀ t ∈ adds tasks, t.id ≠ id) := by
  obtain ⟨pre, post, hts, hpost⟩ := h
  cases pre with
  | nil =>
      obtain ⟨rfl, rfl⟩ := List.cons.inj hts
      exact .inr ⟨rfl, hpost⟩
  | cons t pre =>
      obtain ⟨-, rfl⟩ := List.cons.inj hts
      exact .inl ⟨pre, post, rfl, hpost⟩

theorem CancelQueued.mem (h : CancelQueued tasks id) : .cancelTimerInLoop id ∈ tasks := by
  obtain ⟨pre, post, rfl, -⟩ := h
  exact List.mem_append_right _ List.mem_cons_self

end CancelQueued

theorem tasks_enqueue (s : TimerLoop Cb) (task : TimerTask Cb) :
    s.tmpQueue ++ (s.pendingCbsQueue ++ [task]) = s.tasks ++ [task] :=
  (List.append_assoc _ _ _).symm

theorem mem_adds_enqueue {task : TimerTask Cb} {u : Timer Cb}
    (hu : u ∈ adds (s.tmpQueue ++ (s.pendingCbsQueue ++ [task]))) :
    u ∈ adds s.tasks ∨ u ∈ adds [task] := by
  rw [tasks_enqueue, adds_append] at hu
  exact List.mem_append.mp hu

theorem tasks_swap (ht : s.tmpQueue = []) : s.pendingCbsQueue ++ [] = s.tasks := by
  rw [tasks, ht, List.append_nil, List.nil_append]

theorem tasks_pop {task : TimerTask Cb} {rest : List (TimerTask Cb)}
    (hts : s.tmpQueue = task :: rest) : s.tasks = task :: (rest ++ s.pendingCbsQueue) := by
  rw [tasks, hts, List.cons_append]

/-- After the heap's operation on the loop thread the timer is not in the heap. -/
theorem not_live_of_cancel {q : TimerQueue Cb} (h : s.Ids ts) (hs : s'.timerQueue = q)
    (hq : s.timerQueue.cancelTimerInLoop id = some q) : id ∉ s'.live := by
  obtain ⟨-, ts', r', hsub⟩ := TimerQueue.left_of_cancelTimerInLoop h.represents hq
  rw [live_eq (hs ▸ r')]
  intro hid
  obtain ⟨u, hu, he⟩ := List.mem_map.mp hid
  exact (hsub u hu).2 he

theorem returned_mono (hst : Steps s a s') (hid : id ∈ s.returned) : id ∈ s'.returned := by
  cases hst with
  | add | enqueueAdd => exact List.mem_append_left _ hid
  | _ => exact hid

/-- A timer that is gone does not come back, and is not run. -/
theorem Gone.step (h : s.Ids ts) (hid : id ∈ s.returned) (hg : s.InTime a) (g : s.Gone id)
    (hst : Steps s a s') : s'.Gone id ∧ s'.ran.count id = s.ran.count id := by
  have hlive : ∀ u ∈ ts, u.id ≠ id := by
    intro u hu he
    refine g.live ?_
    rw [live_eq h.represents]
    exact he ▸ List.mem_map_of_mem hu
  have hkeep : ∀ {q : TimerQueue Cb} {ts' : List (Timer Cb)}, Represents q.heap ts' →
      (∀ u ∈ ts', u.id ≠ id) → id ∉ TimerLoop.live { s with timerQueue := q } := by
    intro q ts' r' hts' hmem
    rw [live_eq (s := { s with timerQueue := q }) r'] at hmem
    obtain ⟨u, hu, he⟩ := List.mem_map.mp hmem
    exact hts' u hu he
  cases hst with
  | fetch => exact ⟨⟨g.queued, g.live, g.batch⟩, rfl⟩
  | add w i cb t q ht hq =>
      obtain ⟨ts', h', hperm⟩ := h.add hg ht hq
      refine ⟨⟨g.queued, hkeep h'.represents fun u hu => ?_, g.batch⟩, rfl⟩
      rcases List.mem_cons.mp (hperm.mem_iff.mp hu) with rfl | hu
      · exact ((h.fresh hg ht).2 id (h.returned id hid).1).symm
      · exact hlive u hu
  | enqueueAdd i t ht =>
      refine ⟨⟨fun u hu => ?_, g.live, g.batch⟩, rfl⟩
      rcases mem_adds_enqueue (s := s) hu with hu | hu
      · exact g.queued u hu
      · rw [List.mem_singleton.mp hu]
        exact (h.returned id hid).2 t (List.mem_of_getElem? ht)
  | enqueueCancel id' c =>
      refine ⟨⟨fun u hu => ?_, g.live, g.batch⟩, rfl⟩
      rcases mem_adds_enqueue (s := s) hu with hu | hu
      · exact g.queued u hu
      · exact absurd hu List.not_mem_nil
  | cancel id' c q hc hq =>
      obtain ⟨-, ts', r', hsub⟩ := TimerQueue.left_of_cancelTimerInLoop h.represents hq
      exact ⟨⟨g.queued, hkeep r' fun u hu => hlive u (hsub u hu).1, g.batch⟩, rfl⟩
  | expire fuel clock q batch hb hq =>
      obtain ⟨-, hbatch, ts', r', hsub⟩ := TimerQueue.ids_of_getExpiredTimers h.represents hq
      have hids : ∀ {u : Timer Cb}, u.id ∈ ts.map Timer.id → u.id ≠ id := by
        intro u hu
        obtain ⟨v, hv, he⟩ := List.mem_map.mp hu
        exact he ▸ hlive v hv
      exact ⟨⟨g.queued, hkeep r' fun u hu => hids (hsub u hu), fun u hu => hids (hbatch u hu)⟩, rfl⟩
  | run t rest ht =>
      refine ⟨⟨g.queued, g.live, fun u hu => g.batch u (ht ▸ List.mem_cons_of_mem _ hu)⟩, ?_⟩
      have hne : t.id ≠ id := g.batch t (ht ▸ List.mem_cons_self)
      have hzero : List.count id [t.id] = 0 :=
        List.count_eq_zero_of_not_mem fun hmem => hne (List.mem_singleton.mp hmem).symm
      rw [List.count_append, hzero, Nat.add_zero]
  | swap ht =>
      refine ⟨⟨fun u hu => g.queued u ?_, g.live, g.batch⟩, rfl⟩
      rw [← tasks_swap ht]
      exact hu
  | taskAdd t rest q hts hq =>
      obtain ⟨ts', h', hperm⟩ := h.taskAdd hts hq
      have hadds : adds s.tasks = t :: adds (rest ++ s.pendingCbsQueue) := by
        rw [tasks_pop hts]
        rfl
      refine ⟨⟨fun u hu => ?_, hkeep h'.represents fun u hu => ?_, g.batch⟩, rfl⟩
      · exact g.queued u (hadds ▸ List.mem_cons_of_mem _ hu)
      · rcases List.mem_cons.mp (hperm.mem_iff.mp hu) with rfl | hu
        · exact g.queued _ (hadds ▸ List.mem_cons_self)
        · exact hlive u hu
  | taskCancel id' rest q hts hb hq =>
      obtain ⟨-, ts', r', hsub⟩ := TimerQueue.left_of_cancelTimerInLoop h.represents hq
      refine ⟨⟨fun u hu => g.queued u ?_, hkeep r' fun u hu => hlive u (hsub u hu).1, g.batch⟩, rfl⟩
      rw [tasks_pop hts]
      exact hu

/-- A queued cancellation stays queued until it is made. -/
theorem CancelQueued.step (h : s.Ids ts) (hid : id ∈ s.returned) (hc : CancelQueued s.tasks id)
    (hst : Steps s a s') : CancelQueued s'.tasks id ∨ s'.Gone id := by
  cases hst with
  | fetch | add | cancel | expire | run => exact .inl hc
  | enqueueAdd i t ht =>
      have hne : ∀ u ∈ adds [.addTimerInLoop t], u.id ≠ id := by
        intro u hu
        rw [List.mem_singleton.mp hu]
        exact (h.returned id hid).2 t (List.mem_of_getElem? ht)
      have hpush := hc.push hne
      rw [← tasks_enqueue] at hpush
      exact .inl hpush
  | enqueueCancel id' =>
      have hpush := hc.push (show ∀ t ∈ adds [.cancelTimerInLoop id'], t.id ≠ id from nofun)
      rw [← tasks_enqueue] at hpush
      exact .inl hpush
  | swap ht =>
      rw [← tasks_swap ht] at hc
      exact .inl hc
  | taskAdd t rest q hts hq =>
      rw [tasks_pop hts] at hc
      rcases hc.pop with hc | ⟨he, -⟩
      · exact .inl hc
      · exact nomatch he
  | taskCancel id' rest q hts hb hq =>
      rw [tasks_pop hts] at hc
      rcases hc.pop with hc | ⟨he, hpost⟩
      · exact .inl hc
      · obtain rfl : id' = id := TimerTask.cancelTimerInLoop.inj he
        exact .inr ⟨hpost, not_live_of_cancel h rfl hq, hb ▸ nofun⟩

theorem Cancels.step (h : s.Ids ts) (hg : s.InTime a) (hc : s.Cancels) (hst : Steps s a s') :
    s'.Cancels := by
  have hold : ∀ id ∈ s.cancelled, id ∈ s'.returned ∧ (CancelQueued s'.tasks id ∨ s'.Gone id) := by
    intro id hid
    obtain ⟨hret, hq | g⟩ := hc id hid
    · exact ⟨returned_mono hst hret, hq.step h hret hst⟩
    · exact ⟨returned_mono hst hret, .inr (g.step h hret hg hst).1⟩
  intro id hid
  cases hst with
  | enqueueCancel id' c hnote =>
      rcases hnote with rfl | ⟨rfl, hret, -⟩
      · exact hold id hid
      · rcases List.mem_cons.mp hid with rfl | hid
        · exact ⟨hret, .inl ⟨s.tasks, [], tasks_enqueue s _, nofun⟩⟩
        · exact hold id hid
  | cancel id' c q hnote hq =>
      rcases hnote with rfl | ⟨rfl, hret, hexp⟩
      · exact hold id hid
      · rcases List.mem_cons.mp hid with rfl | hid
        · refine ⟨hret, .inr ⟨hg, not_live_of_cancel h rfl hq, fun t ht he => ?_⟩⟩
          exact hexp (he ▸ h.batch t ht)
        · exact hold id hid
  | _ => exact hold id hid

theorem cancels_of_run {tr : List (TimerLoop Cb × TimerAct Cb)}
    (hr : Run (stepOf step) init tr s) (hok : ∀ p ∈ tr, InTime p.1 p.2) :
    (∃ ts, s.Ids ts) ∧ s.Cancels := by
  refine hr.invariant_of (I := fun s => (∃ ts, s.Ids ts) ∧ s.Cancels) hok ⟨⟨[], ids_init⟩, nofun⟩ ?_
  rintro t a u ⟨⟨ts, h⟩, hc⟩ hg hst
  exact ⟨h.step hg (steps_of_step hst), hc.step h hg (steps_of_step hst)⟩

/-- In a run in which no cancellation on the loop thread overtakes its timer, a timer
that was cancelled between the return of its AddTimer and its first batch is, once the
cancellation is not queued any more, not in the heap in any state that follows, and is
not run. -/
theorem cancelled_for_good {tr tr' : List (TimerLoop Cb × TimerAct Cb)} {t : TimerLoop Cb}
    (hr : Run (stepOf step) init tr s) (hr' : Run (stepOf step) s tr' t)
    (hok : ∀ p ∈ tr ++ tr', InTime p.1 p.2) (hid : id ∈ s.cancelled)
    (hq : .cancelTimerInLoop id ∉ s.tasks) : id ∉ t.live ∧ t.ran.count id = s.ran.count id := by
  obtain ⟨⟨ts, h⟩, hc⟩ := cancels_of_run hr fun p hp => hok p (List.mem_append_left _ hp)
  obtain ⟨hret, hgone⟩ := hc id hid
  have g : s.Gone id := hgone.resolve_left fun hc => hq hc.mem
  have hinv : (∃ ts, t.Ids ts) ∧ id ∈ t.returned ∧ t.Gone id ∧
      t.ran.count id = s.ran.count id := by
    refine hr'.invariant_of (I := fun t => (∃ ts, t.Ids ts) ∧ id ∈ t.returned ∧ t.Gone id ∧
      t.ran.count id = s.ran.count id) (fun p hp => hok p (List.mem_append_right _ hp))
      ⟨⟨ts, h⟩, hret, g, rfl⟩ ?_
    rintro t a u ⟨⟨ts, h⟩, hret, g, hran⟩ hg hst
    obtain ⟨g', hran'⟩ := g.step h hret hg (steps_of_step hst)
    exact ⟨h.step hg (steps_of_step hst), returned_mono (steps_of_step hst) hret, g',
      hran'.trans hran⟩
  exact ⟨hinv.2.2.1.live, hinv.2.2.2⟩

/-- Another thread adds a timer that repeats and cancels it, before the loop has added it. -/
def cancelQueued : List (TimerAct ℕ) :=
  [.fetch 5 1 7, .enqueueAdd 0, .enqueueCancel 0, .swap, .task, .task]

/-- The loop thread adds another timer, and the clock goes on. -/
def expireLater : List (TimerAct ℕ) := [.add 8 0 9, .expire 3 fun _ => 10, .run]

theorem cancelQueued_gone : ∃ tr s tr' t,
    runAll step init cancelQueued = some (tr, s) ∧ runAll step s expireLater = some (tr', t) ∧
      s.cancelled = [0] ∧ t.ran = [1] ∧ 0 ∉ t.live ∧ t.ran.count 0 = s.ran.count 0 := by
  obtain ⟨x, y, hxy, hok, hc, hq, hran⟩ : ∃ x y,
      ((runAll step init cancelQueued).bind fun r => (runAll step r.2 expireLater).map fun r' =>
        (r, r')) = some (x, y) ∧ (∀ p ∈ x.1 ++ y.1, InTime p.1 p.2) ∧ x.2.cancelled = [0] ∧
        .cancelTimerInLoop 0 ∉ x.2.tasks ∧ y.2.ran = [1] :=
    exists_computed (by decide +kernel)
  obtain ⟨r, hr, hmap⟩ := Option.bind_eq_some_iff.mp hxy
  obtain ⟨r', hr', he⟩ := Option.map_eq_some_iff.mp hmap
  obtain ⟨rfl, rfl⟩ := Prod.mk.inj he
  have hgone := cancelled_for_good (run_of_runAll hr) (run_of_runAll hr') hok
    (hc ▸ List.mem_singleton_self 0) hq
  exact ⟨_, _, _, _, hr, hr', hc, hran, hgone⟩

/-- The loop thread cancels the timer before it has called the callback that adds it. -/
def cancelOvertakes : List (TimerAct ℕ) :=
  [.fetch 5 1 7, .enqueueAdd 0, .cancel 0, .swap, .task, .expire 3 fun _ => 10, .run]

theorem cancelOvertakes_runs : ∃ tr s, runAll step init cancelOvertakes = some (tr, s) ∧
    s.cancelled = [0] ∧ s.tasks = [] ∧ s.ran = [0] ∧ s.live = [0] :=
  exists_computed (by decide +kernel)

end TimerLoop

end Muduo
