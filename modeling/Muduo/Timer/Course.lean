/-
# `Muduo.Timer.Course` — the course of events of a timer queue

What a timer queue is for, without its heap: timers are added, cancelled and
returned; which timers are live follows from the events so far (`live`).

    added t          AddTimerInLoop
    cancelled id     CancelTimerInLoop
    returned t k     GetExpiredTimers found `t` due at reading `k` of the clock

`Course clock k log`: in the events `log`, with `k` readings of the clock, no id is
added twice and only live timers that are due are returned.  `OnTime` is what
follows for the times at which a timer is returned (`Course.onTime`).
-/
import Muduo.Lib.Runs
import Muduo.Timer.Model

namespace Muduo

variable {Cb : Type}

inductive TimerEvent (Cb : Type)
  | added (t : Timer Cb)
  | cancelled (id : ℤ)
  | returned (t : Timer Cb) (k : ℕ)
deriving DecidableEq, Repr

namespace TimerEvent

/-- The live timers after an event.  A repeating timer is re-armed with the reading
after the one that found it due. -/
def apply (clock : ℕ → ℤ) (live : List (Timer Cb)) : TimerEvent Cb → List (Timer Cb)
  | added t => t :: live
  | cancelled id => live.filter fun u => u.id ≠ id
  | returned t k =>
      if t.repeats then t.rearm (clock (k + 1)) :: live.filter fun u => u.id ≠ t.id
      else live.filter fun u => u.id ≠ t.id

/-- The timers that were added and neither cancelled nor returned for good. -/
def live (clock : ℕ → ℤ) (log : List (TimerEvent Cb)) : List (Timer Cb) :=
  log.foldl (apply clock) []

/-- The reading at which the timer `id` is returned in the event. -/
def return? (id : ℤ) : TimerEvent Cb → Option ℕ
  | returned t k => if t.id = id then some k else none
  | added _ => none
  | cancelled _ => none

/-- The readings at which the timer `id` was returned. -/
def returnsOf (id : ℤ) (log : List (TimerEvent Cb)) : List ℕ := log.filterMap (return? id)

/-- The timer that is added in the event. -/
def add? : TimerEvent Cb → Option (Timer Cb)
  | added t => some t
  | cancelled _ => none
  | returned _ _ => none

/-- The timers that were added. -/
def addedTimers (log : List (TimerEvent Cb)) : List (Timer Cb) := log.filterMap add?

variable {clock : ℕ → ℤ} {log : List (TimerEvent Cb)} {t u : Timer Cb} {id : ℤ} {j k : ℕ}

@[simp] theorem live_nil : live clock ([] : List (TimerEvent Cb)) = [] := rfl

@[simp] theorem live_snoc (e : TimerEvent Cb) :
    live clock (log ++ [e]) = e.apply clock (live clock log) := by
  rw [live, List.foldl_append]
  rfl

@[simp] theorem returnsOf_append (log log' : List (TimerEvent Cb)) :
    returnsOf id (log ++ log') = returnsOf id log ++ returnsOf id log' := List.filterMap_append

@[simp] theorem returnsOf_nil : returnsOf id ([] : List (TimerEvent Cb)) = [] := rfl

@[simp] theorem returnsOf_added : returnsOf id [added t] = [] := rfl

@[simp] theorem returnsOf_cancelled {id' : ℤ} :
    returnsOf id [(cancelled id' : TimerEvent Cb)] = [] := rfl

theorem returnsOf_returned : returnsOf id [returned t k] = if t.id = id then [k] else [] := by
  simp only [returnsOf, return?, List.filterMap_cons, List.filterMap_nil]
  split_ifs <;> rfl

@[simp] theorem addedTimers_append (log log' : List (TimerEvent Cb)) :
    addedTimers (log ++ log') = addedTimers log ++ addedTimers log' := List.filterMap_append

@[simp] theorem addedTimers_added : addedTimers [added t] = [t] := rfl

@[simp] theorem addedTimers_cancelled : addedTimers [(cancelled id : TimerEvent Cb)] = [] := rfl

@[simp] theorem addedTimers_returned : addedTimers [returned t k] = [] := rfl

theorem apply_returned_again {l : List (Timer Cb)} (hrep : t.repeats = true) :
    apply clock l (returned t k) = t.rearm (clock (k + 1)) :: l.filter fun u => u.id ≠ t.id :=
  if_pos hrep

theorem apply_returned_once {l : List (Timer Cb)} (hrep : t.repeats = false) :
    apply clock l (returned t k) = l.filter fun u => u.id ≠ t.id :=
  if_neg (hrep ▸ Bool.false_ne_true)

/-- A timer that is live after a return is the re-armed one or was live before, under
another id. -/
theorem mem_apply_returned {l : List (Timer Cb)} (hu : u ∈ apply clock l (returned t k)) :
    (u = t.rearm (clock (k + 1)) ∧ t.repeats = true) ∨ (u ∈ l ∧ u.id ≠ t.id) := by
  cases hrep : t.repeats with
  | true =>
      rw [apply_returned_again hrep] at hu
      rcases List.mem_cons.mp hu with rfl | hu
      · exact .inl ⟨rfl, rfl⟩
      · obtain ⟨hu, hne⟩ := List.mem_filter.mp hu
        exact .inr ⟨hu, of_decide_eq_true hne⟩
  | false =>
      rw [apply_returned_once hrep] at hu
      obtain ⟨hu, hne⟩ := List.mem_filter.mp hu
      exact .inr ⟨hu, of_decide_eq_true hne⟩

end TimerEvent

open TimerEvent

/-- The courses of events that a timer queue may take. -/
inductive Course (clock : ℕ → ℤ) : ℕ → List (TimerEvent Cb) → Prop
  | nil : Course clock 0 []
  | added {k : ℕ} {log : List (TimerEvent Cb)} {t : Timer Cb} :
      Course clock k log → (∀ u ∈ addedTimers log, u.id ≠ t.id) →
      Course clock k (log ++ [.added t])
  | cancelled {k : ℕ} {log : List (TimerEvent Cb)} {id : ℤ} :
      Course clock k log → Course clock k (log ++ [.cancelled id])
  | returned {k : ℕ} {log : List (TimerEvent Cb)} {t : Timer Cb} :
      Course clock k log → t ∈ live clock log → t.expiration ≤ clock k →
      Course clock (k + t.readings) (log ++ [.returned t k])
  /-- the reading that finds nothing due -/
  | read {k : ℕ} {log : List (TimerEvent Cb)} :
      Course clock k log → Course clock (k + 1) log

/-- What is promised to the callers of a timer queue, for the events `log`. -/
structure OnTime (clock : ℕ → ℤ) (log : List (TimerEvent Cb)) : Prop where
  /-- a timer without interval is returned at most once, and not before its expiration -/
  oneShot : ∀ t ∈ addedTimers log, t.repeats = false →
    (returnsOf t.id log).length ≤ 1 ∧ ∀ k ∈ returnsOf t.id log, t.expiration ≤ clock k
  /-- between two returns of a repeating timer its interval goes by -/
  repeating : ∀ t ∈ addedTimers log, t.repeats = true →
    (returnsOf t.id log).Pairwise fun j k => addInterval (clock j) t.interval ≤ clock k
  /-- after its cancellation a timer is not returned, unless it is added later -/
  cancelled : ∀ pre id post, log = pre ++ .cancelled id :: post →
    (∀ t ∈ addedTimers post, t.id ≠ id) → returnsOf id post = []

/-! ## The live timers and those that were added -/

namespace Course

variable {clock : ℕ → ℤ} {k : ℕ} {log : List (TimerEvent Cb)}

/-- No id is added twice. -/
theorem ids_nodup (c : Course clock k log) : ((addedTimers log).map Timer.id).Nodup := by
  induction c with
  | nil => exact .nil
  | read _ ih => exact ih
  | cancelled _ ih => rwa [addedTimers_append, addedTimers_cancelled, List.append_nil]
  | returned _ _ _ ih => rwa [addedTimers_append, addedTimers_returned, List.append_nil]
  | added _ hfresh ih =>
      rw [addedTimers_append, addedTimers_added, List.map_append]
      refine List.nodup_append.mpr ⟨ih, List.nodup_singleton _, ?_⟩
      intro i hi j hj heq
      obtain ⟨a, ha, rfl⟩ := List.mem_map.mp hi
      exact hfresh a ha (heq.trans (List.mem_singleton.mp hj))

/-- A live timer is one that was added, as it was or re-armed. -/
theorem origin (c : Course clock k log) : ∀ u ∈ live clock log, ∃ a ∈ addedTimers log,
    a.id = u.id ∧ a.interval = u.interval ∧ (u.repeats = false → u = a) := by
  induction c with
  | nil => exact fun u hu => absurd hu List.not_mem_nil
  | read _ ih => exact ih
  | added _ _ ih =>
      intro u hu
      rw [live_snoc] at hu
      rw [addedTimers_append]
      rcases List.mem_cons.mp hu with rfl | hu
      · exact ⟨u, List.mem_append_right _ List.mem_cons_self, rfl, rfl, fun _ => rfl⟩
      · obtain ⟨a, ha, h⟩ := ih u hu
        exact ⟨a, List.mem_append_left _ ha, h⟩
  | cancelled _ ih =>
      intro u hu
      rw [live_snoc] at hu
      rw [addedTimers_append, addedTimers_cancelled, List.append_nil]
      exact ih u (List.mem_of_mem_filter hu)
  | @returned k log t _ ht _ ih =>
      intro u hu
      rw [live_snoc] at hu
      rw [addedTimers_append, addedTimers_returned, List.append_nil]
      rcases mem_apply_returned hu with ⟨rfl, hrep⟩ | ⟨hu, -⟩
      · obtain ⟨a, ha, hid, hint, -⟩ := ih t ht
        exact ⟨a, ha, hid, hint, fun hrep' => Bool.noConfusion (hrep.symm.trans hrep')⟩
      · exact ih u hu

/-- A timer that was cancelled and not added since is not live, and was not returned since. -/
theorem gone (c : Course clock k log) {pre post : List (TimerEvent Cb)} {id : ℤ}
    (hlog : log = pre ++ .cancelled id :: post) (hadd : ∀ t ∈ addedTimers post, t.id ≠ id) :
    (∀ u ∈ live clock log, u.id ≠ id) ∧ returnsOf id post = [] := by
  induction c generalizing pre post with
  | nil => exact absurd hlog (by simp)
  | read _ ih => exact ih hlog hadd
  | @added k log t _ _ ih =>
      rcases Runs.snoc_eq_cut hlog with ⟨-, he, -⟩ | ⟨rest, rfl, hrest⟩
      · cases he
      · rw [addedTimers_append, addedTimers_added] at hadd
        obtain ⟨hlive, hret⟩ := ih hrest fun u hu => hadd u (List.mem_append_left _ hu)
        rw [live_snoc, returnsOf_append, returnsOf_added, List.append_nil]
        refine ⟨fun u hu => ?_, hret⟩
        rcases List.mem_cons.mp hu with rfl | hu
        · exact hadd u (List.mem_append_right _ List.mem_cons_self)
        · exact hlive u hu
  | @cancelled k log id' _ ih =>
      rw [live_snoc]
      rcases Runs.snoc_eq_cut hlog with ⟨rfl, he, -⟩ | ⟨rest, rfl, hrest⟩
      · obtain rfl := TimerEvent.cancelled.inj he
        exact ⟨fun u hu => of_decide_eq_true (List.mem_filter.mp hu).2, rfl⟩
      · rw [addedTimers_append, addedTimers_cancelled, List.append_nil] at hadd
        obtain ⟨hlive, hret⟩ := ih hrest hadd
        rw [returnsOf_append, returnsOf_cancelled, List.append_nil]
        exact ⟨fun u hu => hlive u (List.mem_of_mem_filter hu), hret⟩
  | @returned k log t _ ht _ ih =>
      rcases Runs.snoc_eq_cut hlog with ⟨-, he, -⟩ | ⟨rest, rfl, hrest⟩
      · cases he
      · rw [addedTimers_append, addedTimers_returned, List.append_nil] at hadd
        obtain ⟨hlive, hret⟩ := ih hrest hadd
        rw [live_snoc, returnsOf_append, returnsOf_returned, hret, if_neg (hlive t ht)]
        refine ⟨fun u hu => ?_, rfl⟩
        rcases mem_apply_returned hu with ⟨rfl, -⟩ | ⟨hu, -⟩
        · exact hlive t ht
        · exact hlive u hu

end Course

/-! ## The times of the returns -/

/-- What is known of the live timers and of the returns so far. -/
structure Promises (clock : ℕ → ℤ) (k : ℕ) (log : List (TimerEvent Cb)) : Prop where
  known : ∀ id, returnsOf id log ≠ [] → ∃ a ∈ addedTimers log, a.id = id
  past : ∀ id, ∀ j ∈ returnsOf id log, j < k
  /-- a live timer that was returned before repeats, and waits for its interval -/
  waits : ∀ u ∈ live clock log, ∀ j ∈ returnsOf u.id log,
    u.repeats = true ∧ addInterval (clock j) u.interval ≤ u.expiration
  oneShot : ∀ a ∈ addedTimers log, a.repeats = false →
    (returnsOf a.id log).length ≤ 1 ∧ ∀ j ∈ returnsOf a.id log, a.expiration ≤ clock j
  repeating : ∀ a ∈ addedTimers log, a.repeats = true →
    (returnsOf a.id log).Pairwise fun i j => addInterval (clock i) a.interval ≤ clock j

namespace Promises

variable {clock : ℕ → ℤ} {k : ℕ} {log : List (TimerEvent Cb)} {t : Timer Cb}

theorem nil : Promises clock 0 ([] : List (TimerEvent Cb)) where
  known := fun _ hne => absurd rfl hne
  past := fun _ _ hj => absurd hj List.not_mem_nil
  waits := fun _ hu => absurd hu List.not_mem_nil
  oneShot := fun _ ha => absurd ha List.not_mem_nil
  repeating := fun _ ha => absurd ha List.not_mem_nil

theorem added (p : Promises clock k log) (ht : ∀ u ∈ addedTimers log, u.id ≠ t.id) :
    Promises clock k (log ++ [.added t]) := by
  have hnone : returnsOf t.id log = [] := by
    by_contra hne
    obtain ⟨a, ha, heq⟩ := p.known t.id hne
    exact ht a ha heq
  have hmem : ∀ a, a ∈ addedTimers (log ++ [.added t]) ↔ a ∈ addedTimers log ∨ a = t := by
    intro a
    simp
  refine ⟨?_, ?_, ?_, ?_, ?_⟩ <;>
    simp only [returnsOf_append, returnsOf_added, List.append_nil]
  · intro id hne
    obtain ⟨a, ha, h⟩ := p.known id hne
    exact ⟨a, (hmem a).mpr (.inl ha), h⟩
  · exact p.past
  · intro u hu j hj
    rw [live_snoc] at hu
    rcases List.mem_cons.mp hu with rfl | hu
    · rw [hnone] at hj
      exact absurd hj List.not_mem_nil
    · exact p.waits u hu j hj
  · intro a ha
    rcases (hmem a).mp ha with ha | rfl
    · exact p.oneShot a ha
    · rw [hnone]
      exact fun _ => ⟨Nat.zero_le _, fun j hj => absurd hj List.not_mem_nil⟩
  · intro a ha
    rcases (hmem a).mp ha with ha | rfl
    · exact p.repeating a ha
    · rw [hnone]
      exact fun _ => .nil

theorem cancelled {id : ℤ} (p : Promises clock k log) :
    Promises clock k (log ++ [.cancelled id]) := by
  refine ⟨?_, ?_, ?_, ?_, ?_⟩ <;>
    simp only [addedTimers_append, addedTimers_cancelled, returnsOf_append, returnsOf_cancelled,
      List.append_nil]
  · exact p.known
  · exact p.past
  · intro u hu
    rw [live_snoc] at hu
    exact p.waits u (List.mem_of_mem_filter hu)
  · exact p.oneShot
  · exact p.repeating

theorem read (p : Promises clock k log) : Promises clock (k + 1) log :=
  { p with past := fun id j hj => (p.past id j hj).trans (Nat.lt_succ_self k) }

/-- The timer that is returned: a one-shot timer for the first time and as it was added,
a repeating one when its interval has gone by since each earlier return. -/
theorem of_due (p : Promises clock k log) (c : Course clock k log) (ht : t ∈ live clock log)
    (hdue : t.expiration ≤ clock k) {a : Timer Cb} (ha : a ∈ addedTimers log) (hid : a.id = t.id) :
    (a.repeats = false → a = t ∧ returnsOf t.id log = []) ∧
      ∀ j ∈ returnsOf t.id log, addInterval (clock j) a.interval ≤ clock k := by
  obtain ⟨b, hb, hbid, hint, horig⟩ := c.origin t ht
  obtain rfl : a = b := List.inj_on_of_nodup_map c.ids_nodup ha hb (hid.trans hbid.symm)
  refine ⟨fun hrep => ?_, fun j hj => ?_⟩
  · have hrep' : t.repeats = false := by
      rw [← hrep, Timer.repeats, Timer.repeats, hint]
    refine ⟨(horig hrep').symm, List.eq_nil_iff_forall_not_mem.mpr fun j hj => ?_⟩
    exact absurd (p.waits t ht j hj).1 (hrep' ▸ Bool.false_ne_true)
  · rw [hint]
    exact (p.waits t ht j hj).2.trans hdue

theorem returned (hclock : Steady clock) (p : Promises clock k log) (c : Course clock k log)
    (ht : t ∈ live clock log) (hdue : t.expiration ≤ clock k) :
    Promises clock (k + t.readings) (log ++ [.returned t k]) := by
  have hother : ∀ {id}, t.id ≠ id → returnsOf id (log ++ [.returned t k]) = returnsOf id log := by
    intro id hne
    rw [returnsOf_append, returnsOf_returned, if_neg hne, List.append_nil]
  have hself : returnsOf t.id (log ++ [.returned t k]) = returnsOf t.id log ++ [k] := by
    rw [returnsOf_append, returnsOf_returned, if_pos rfl]
  have hadded : addedTimers (log ++ [.returned t k]) = addedTimers log := by
    rw [addedTimers_append, addedTimers_returned, List.append_nil]
  refine ⟨?_, ?_, ?_, ?_, ?_⟩
  · intro id hne
    rw [hadded]
    by_cases hid : t.id = id
    · obtain ⟨a, ha, haid, -⟩ := c.origin t ht
      exact ⟨a, ha, haid.trans hid⟩
    · exact p.known id (hother hid ▸ hne)
  · intro id j hj
    have hlt : k < k + t.readings := Nat.lt_add_of_pos_right t.readings_pos
    by_cases hid : t.id = id
    · rw [← hid, hself] at hj
      rcases List.mem_append.mp hj with hj | hj
      · exact (p.past _ j hj).trans hlt
      · exact List.mem_singleton.mp hj ▸ hlt
    · exact (p.past id j (hother hid ▸ hj)).trans hlt
  · intro u hu j hj
    rw [live_snoc] at hu
    rcases mem_apply_returned hu with ⟨rfl, hrep⟩ | ⟨hu, hne⟩
    · -- the timer waits from the reading after this one
      refine ⟨hrep, ?_⟩
      have hle : j ≤ k + 1 := by
        rw [Timer.rearmBy_id, hself] at hj
        rcases List.mem_append.mp hj with hj | hj
        · exact (p.past _ j hj).le.trans (Nat.le_succ k)
        · exact List.mem_singleton.mp hj ▸ Nat.le_succ k
      exact Int.add_le_add_right (hclock hle) _
    · exact p.waits u hu j (hother hne.symm ▸ hj)
  · intro a ha hrep
    rw [hadded] at ha
    by_cases hid : a.id = t.id
    · obtain ⟨rfl, hnone⟩ := (p.of_due c ht hdue ha hid).1 hrep
      rw [hself, hnone, List.nil_append]
      refine ⟨Nat.le_refl 1, fun j hj => ?_⟩
      exact List.mem_singleton.mp hj ▸ hdue
    · rw [hother fun heq => hid heq.symm]
      exact p.oneShot a ha hrep
  · intro a ha hrep
    rw [hadded] at ha
    by_cases hid : a.id = t.id
    · rw [hid, hself]
      refine List.pairwise_append.mpr ⟨hid ▸ p.repeating a ha hrep, List.pairwise_singleton _ _, ?_⟩
      intro i hi j hj
      exact List.mem_singleton.mp hj ▸ (p.of_due c ht hdue ha hid).2 i hi
    · rw [hother fun heq => hid heq.symm]
      exact p.repeating a ha hrep

end Promises

namespace Course

variable {clock : ℕ → ℤ} {k : ℕ} {log : List (TimerEvent Cb)}

theorem promises (hclock : Steady clock) (c : Course clock k log) : Promises clock k log := by
  induction c with
  | nil => exact .nil
  | added _ hfresh ih => exact ih.added hfresh
  | cancelled _ ih => exact ih.cancelled
  | returned c ht hdue ih => exact ih.returned hclock c ht hdue
  | read _ ih => exact ih.read

/-- Every course of events keeps what is promised. -/
theorem onTime (hclock : Steady clock) (c : Course clock k log) : OnTime clock log :=
  { oneShot := (c.promises hclock).oneShot
    repeating := (c.promises hclock).repeating
    cancelled := fun _ _ _ hlog hadd => (c.gone hlog hadd).2 }

end Course

end Muduo
