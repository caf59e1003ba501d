/-
# `Muduo.Timer.Expire` — the batch that GetExpiredTimers takes out

`ExpiresBy sum clock k ts batch ts'` is the loop of `GetExpiredTimers` on a list: from
the timers `ts`, when `k` readings of the clock have been made, it takes out
`batch` and leaves `ts'`.  The loop on the heap in memory computes it
(`expireLoop_spec`).  On a clock that stands still it ends when each due timer is
re-armed for a later time (`expires_total`), as by `addInterval` every timer is whose
interval is not negative; neither needs the list to be in heap order.

In heap order the batch is exactly what is due (`ExpiresBy.exact`).
-/
import Muduo.Timer.Table

namespace Muduo

open BinHeap

variable {Cb : Type}

/-- The loop of `GetExpiredTimers` on a list of timers. -/
inductive ExpiresBy (sum : ℤ → ℤ → ℤ) (clock : ℕ → ℤ) :
    ℕ → List (Timer Cb) → List (Timer Cb) → List (Timer Cb) → Prop
  | done {k : ℕ} : ExpiresBy sum clock k [] [] []
  | wait {k : ℕ} {t : Timer Cb} {tl : List (Timer Cb)} :
      clock k < t.expiration → ExpiresBy sum clock k (t :: tl) [] (t :: tl)
  | again {k : ℕ} {t : Timer Cb} {tl batch ts' : List (Timer Cb)} :
      t.expiration ≤ clock k → t.repeats = true →
      ExpiresBy sum clock (k + 2)
        (replaceRoot Timer.expirationTime (t :: tl) (t.rearmBy sum (clock (k + 1)))) batch ts' →
      ExpiresBy sum clock k (t :: tl) (t :: batch) ts'
  | once {k : ℕ} {t : Timer Cb} {tl batch ts' : List (Timer Cb)} :
      t.expiration ≤ clock k → t.repeats = false →
      ExpiresBy sum clock (k + 1) (removeAt Timer.expirationTime (t :: tl) 0) batch ts' →
      ExpiresBy sum clock k (t :: tl) (t :: batch) ts'

/-- The loop when no sum overflows. -/
abbrev Expires (clock : ℕ → ℤ) (k : ℕ) (ts batch ts' : List (Timer Cb)) : Prop :=
  ExpiresBy addInterval clock k ts batch ts'

/-! ## The root is taken out -/

namespace TimerMinHeap

variable {h : TimerMinHeap Cb} {t : Timer Cb} {tl : List (Timer Cb)}

/-- The root is moved out and a new timer with its id is put in its place. -/
theorem Represents.rearmRoot (r : Represents h (t :: tl)) {u : Timer Cb} (hu : u.id = t.id) :
    ∃ h', ({ h with timerList := (h.timerList.set 0 none).set 0 (some u) } :
        TimerMinHeap Cb).adjust 0 = some h' ∧
      Represents h' (replaceRoot Timer.expirationTime (t :: tl) u) := by
  refine adjust_spec ⟨?_, ?_⟩ 0
  · simp [r.list]
  · simpa [hu] using r.exact

/-- The root is moved out and its entry is popped. -/
theorem Represents.popRoot (r : Represents h (t :: tl)) :
    ∃ h', ({ h with timerList := h.timerList.set 0 none } : TimerMinHeap Cb).popMovedTimer t.id
        = some h' ∧
      Represents h' (removeAt Timer.expirationTime (t :: tl) 0) := by
  refine popMovedTimer_spec (o := none) ⟨rfl, r.exact⟩ ?_
  simp [r.list]

end TimerMinHeap

open TimerMinHeap

/-! ## The rounds of the loop

A loop that goes on for ever has no result in the model, as one that fails has none.  Its
rounds tell the two apart. -/

variable {sum : ℤ → ℤ → ℤ}

/-- One round of the loop of `GetExpiredTimers`: `some none` when the loop ends, else the heap
and the number of readings after the round, and the timer that was taken out. -/
def expireRoundBy (sum : ℤ → ℤ → ℤ) (clock : ℕ → ℤ) (k : ℕ) (h : TimerMinHeap Cb) :
    Option (Option (TimerMinHeap Cb × ℕ × Timer Cb)) :=
  if h.isEmpty then some none
  else do
    let t ← h.top
    if t.expirationTime ≤ clock k then
      let h : TimerMinHeap Cb := { h with timerList := h.timerList.set 0 none }
      if t.repeats then
        let next := t.rearmBy sum (clock (k + 1))
        let h : TimerMinHeap Cb := { h with timerList := h.timerList.set 0 (some next) }
        let h ← h.adjust 0
        some (some (h, k + 2, t))
      else
        let h ← h.popMovedTimer t.getId
        some (some (h, k + 1, t))
    else some none

abbrev expireRound (clock : ℕ → ℤ) (k : ℕ) (h : TimerMinHeap Cb) :
    Option (Option (TimerMinHeap Cb × ℕ × Timer Cb)) :=
  expireRoundBy addInterval clock k h

/-- The loop is made of these rounds. -/
theorem expireLoop_succ (sum : ℤ → ℤ → ℤ) (clock : ℕ → ℤ) (fuel k : ℕ) (h : TimerMinHeap Cb)
    (res : List (Timer Cb)) :
    TimerQueue.expireLoop sum clock (fuel + 1) k h res =
      (expireRoundBy sum clock k h).bind fun r =>
        r.elim (some (h, res)) fun x =>
          TimerQueue.expireLoop sum clock fuel x.2.1 x.1 (res ++ [x.2.2]) := by
  rw [TimerQueue.expireLoop, expireRoundBy]
  split
  · rfl
  · cases h.top with
    | none => rfl
    | some t =>
        simp only [Option.bind_eq_bind, Option.bind_some]
        split
        · split
          · rw [Option.bind_assoc]
            rfl
          · rw [Option.bind_assoc]
            rfl
        · rfl

section Round

variable {clock : ℕ → ℤ} {k : ℕ} {h : TimerMinHeap Cb} {t : Timer Cb} {tl : List (Timer Cb)}

theorem expireRound_done (r : Represents h []) : expireRoundBy sum clock k h = some none := by
  rw [expireRoundBy, r.isEmpty]
  rfl

theorem expireRound_wait (r : Represents h (t :: tl)) (hlt : clock k < t.expiration) :
    expireRoundBy sum clock k h = some none := by
  simp [expireRoundBy, r.isEmpty, top, r.deref, Timer.expirationTime, hlt]

theorem expireRound_again (sum : ℤ → ℤ → ℤ) (r : Represents h (t :: tl))
    (hle : t.expiration ≤ clock k) (hrep : t.repeats = true) :
    ∃ h', expireRoundBy sum clock k h = some (some (h', k + 2, t)) ∧
      Represents h'
        (replaceRoot Timer.expirationTime (t :: tl) (t.rearmBy sum (clock (k + 1)))) := by
  obtain ⟨h', e', r'⟩ := r.rearmRoot (t.rearmBy_id sum (clock (k + 1)))
  refine ⟨h', ?_, r'⟩
  simp only [expireRoundBy, r.isEmpty, top, r.deref, Timer.expirationTime, hle, hrep, e',
    List.isEmpty_cons, Bool.false_eq_true, List.getElem?_cons_zero, if_true, if_false,
    Option.bind_eq_bind, Option.bind_some]

theorem expireRound_once (sum : ℤ → ℤ → ℤ) (r : Represents h (t :: tl))
    (hle : t.expiration ≤ clock k) (hrep : t.repeats = false) :
    ∃ h', expireRoundBy sum clock k h = some (some (h', k + 1, t)) ∧
      Represents h' (removeAt Timer.expirationTime (t :: tl) 0) := by
  obtain ⟨h', e', r'⟩ := r.popRoot
  refine ⟨h', ?_, r'⟩
  simp only [expireRoundBy, r.isEmpty, top, r.deref, Timer.expirationTime, hle, hrep, Timer.getId,
    e', List.isEmpty_cons, Bool.false_eq_true, List.getElem?_cons_zero, if_true, if_false,
    Option.bind_eq_bind, Option.bind_some]

/-- A round on a heap that represents a list does not fail, and leaves such a heap. -/
theorem expireRound_spec {ts : List (Timer Cb)} (r : Represents h ts) :
    ∃ o, expireRoundBy sum clock k h = some o ∧ ∀ h' k' t, o = some (h', k', t) →
      ∃ ts', Represents h' ts' := by
  cases ts with
  | nil =>
      refine ⟨none, expireRound_done r, ?_⟩
      exact fun _ _ _ ho => absurd ho.symm (Option.some_ne_none _)
  | cons t tl =>
      rcases lt_or_ge (clock k) t.expiration with hlt | hle
      · refine ⟨none, expireRound_wait r hlt, ?_⟩
        exact fun _ _ _ ho => absurd ho.symm (Option.some_ne_none _)
      · cases hrep : t.repeats with
        | true =>
            obtain ⟨h₁, e₁, r₁⟩ := expireRound_again sum r hle hrep
            refine ⟨_, e₁, ?_⟩
            rintro h' k' t' ⟨⟩
            exact ⟨_, r₁⟩
        | false =>
            obtain ⟨h₁, e₁, r₁⟩ := expireRound_once sum r hle hrep
            refine ⟨_, e₁, ?_⟩
            rintro h' k' t' ⟨⟩
            exact ⟨_, r₁⟩

end Round

/-- `k'` readings and the heap `h'` are reached in some rounds from `k` and `h`. -/
inductive Rounds (clock : ℕ → ℤ) (k : ℕ) (h : TimerMinHeap Cb) : ℕ → TimerMinHeap Cb → Prop
  | start : Rounds clock k h k h
  | round {k₁ k₂ : ℕ} {h₁ h₂ : TimerMinHeap Cb} {t : Timer Cb} :
      Rounds clock k h k₁ h₁ → expireRound clock k₁ h₁ = some (some (h₂, k₂, t)) →
      Rounds clock k h k₂ h₂

theorem Rounds.represents {clock : ℕ → ℤ} {k k' : ℕ} {h h' : TimerMinHeap Cb}
    (hr : Rounds clock k h k' h') {ts : List (Timer Cb)} (r : Represents h ts) :
    ∃ ts', Represents h' ts' := by
  induction hr with
  | start => exact ⟨ts, r⟩
  | round _ hround ih =>
      obtain ⟨ts', r'⟩ := ih
      obtain ⟨o, ho, hts⟩ := expireRound_spec r'
      exact hts _ _ _ (Option.some.inj (ho.symm.trans hround))

/-! ## The loop -/

/-- A round that ends the loop. -/
theorem expireLoop_end {clock : ℕ → ℤ} {k fuel : ℕ} {h : TimerMinHeap Cb} {acc : List (Timer Cb)}
    (hround : expireRoundBy sum clock k h = some none) (hf : 0 < fuel) :
    TimerQueue.expireLoop sum clock fuel k h acc = some (h, acc ++ []) := by
  obtain ⟨fuel, rfl⟩ := Nat.exists_eq_succ_of_ne_zero hf.ne'
  rw [expireLoop_succ, hround, List.append_nil]
  rfl

/-- A round after which the loop goes on to take out `batch`. -/
theorem expireLoop_round {clock : ℕ → ℤ} {k k₁ : ℕ} {h h₁ h' : TimerMinHeap Cb} {t : Timer Cb}
    {acc batch : List (Timer Cb)} (hround : expireRoundBy sum clock k h = some (some (h₁, k₁, t)))
    (hloop : ∀ {fuel : ℕ}, batch.length < fuel →
      TimerQueue.expireLoop sum clock fuel k₁ h₁ (acc ++ [t]) = some (h', acc ++ [t] ++ batch))
    {fuel : ℕ} (hf : (t :: batch).length < fuel) :
    TimerQueue.expireLoop sum clock fuel k h acc = some (h', acc ++ t :: batch) := by
  obtain ⟨fuel, rfl⟩ := Nat.exists_eq_succ_of_ne_zero (Nat.ne_of_gt (Nat.zero_lt_of_lt hf))
  rw [expireLoop_succ, hround, Option.bind_some, Option.elim_some,
    hloop (Nat.lt_of_succ_lt_succ hf), List.append_assoc, List.singleton_append]

/-- The loop in memory takes the steps of the loop on the list, given fuel for them. -/
theorem expireLoop_spec {clock : ℕ → ℤ} {k : ℕ} {ts batch ts' : List (Timer Cb)}
    (e : ExpiresBy sum clock k ts batch ts') :
    ∀ {h : TimerMinHeap Cb} (acc : List (Timer Cb)), Represents h ts →
      ∃ h', (∀ {fuel : ℕ}, batch.length < fuel →
        TimerQueue.expireLoop sum clock fuel k h acc = some (h', acc ++ batch)) ∧
        Represents h' ts' := by
  induction e with
  | done =>
      intro h acc r
      exact ⟨h, expireLoop_end (expireRound_done r), r⟩
  | wait hlt =>
      intro h acc r
      exact ⟨h, expireLoop_end (expireRound_wait r hlt), r⟩
  | again hle hrep _ ih =>
      intro h acc r
      obtain ⟨h₁, e₁, r₁⟩ := expireRound_again sum r hle hrep
      obtain ⟨h', e', r'⟩ := ih (acc ++ [_]) r₁
      exact ⟨h', expireLoop_round e₁ e', r'⟩
  | once hle hrep _ ih =>
      intro h acc r
      obtain ⟨h₁, e₁, r₁⟩ := expireRound_once sum r hle hrep
      obtain ⟨h', e', r'⟩ := ih (acc ++ [_]) r₁
      exact ⟨h', expireLoop_round e₁ e', r'⟩

/-- When the loop in memory ends, it has taken the steps of the loop on the list. -/
theorem expires_of_expireLoop {clock : ℕ → ℤ} {h' : TimerMinHeap Cb} {res : List (Timer Cb)} :
    ∀ {fuel k : ℕ} {h : TimerMinHeap Cb} {ts acc : List (Timer Cb)}, Represents h ts →
      TimerQueue.expireLoop sum clock fuel k h acc = some (h', res) →
      ∃ batch ts', ExpiresBy sum clock k ts batch ts' ∧ res = acc ++ batch ∧ Represents h' ts'
  | 0, _, _, _, _, _, he => nomatch he
  | fuel + 1, k, h, ts, acc, r, he => by
      rw [expireLoop_succ] at he
      cases ts with
      | nil =>
          rw [expireRound_done r] at he
          obtain ⟨rfl, rfl⟩ := Prod.mk.inj (Option.some.inj he)
          exact ⟨[], [], .done, (List.append_nil _).symm, r⟩
      | cons t tl =>
          rcases lt_or_ge (clock k) t.expiration with hlt | hle
          · rw [expireRound_wait r hlt] at he
            obtain ⟨rfl, rfl⟩ := Prod.mk.inj (Option.some.inj he)
            exact ⟨[], t :: tl, .wait hlt, (List.append_nil _).symm, r⟩
          · cases hrep : t.repeats with
            | true =>
                obtain ⟨h₁, e₁, r₁⟩ := expireRound_again sum r hle hrep
                rw [e₁] at he
                obtain ⟨batch, ts', e, rfl, r'⟩ := expires_of_expireLoop r₁ he
                exact ⟨t :: batch, ts', .again hle hrep e, List.append_assoc _ _ _, r'⟩
            | false =>
                obtain ⟨h₁, e₁, r₁⟩ := expireRound_once sum r hle hrep
                rw [e₁] at he
                obtain ⟨batch, ts', e, rfl, r'⟩ := expires_of_expireLoop r₁ he
                exact ⟨t :: batch, ts', .once hle hrep e, List.append_assoc _ _ _, r'⟩

/-- Two sums that agree for a timer re-arm it in the same way. -/
theorem expireRound_congr {sum' : ℤ → ℤ → ℤ} {clock : ℕ → ℤ} {k : ℕ} {h : TimerMinHeap Cb}
    {t : Timer Cb} {tl : List (Timer Cb)} (r : Represents h (t :: tl))
    (hsum : t.repeats = true → sum (clock (k + 1)) t.interval = sum' (clock (k + 1)) t.interval) :
    expireRoundBy sum clock k h = expireRoundBy sum' clock k h := by
  simp only [expireRoundBy, top, r.deref, List.getElem?_cons_zero, Option.bind_eq_bind,
    Option.bind_some]
  cases hrep : t.repeats with
  | false => rfl
  | true =>
      have hre : t.rearmBy sum (clock (k + 1)) = t.rearmBy sum' (clock (k + 1)) := by
        rw [Timer.rearmBy, Timer.rearmBy, hsum hrep]
      rw [hre]

/-- Two sums that agree for the timers of the heap give one loop. -/
theorem expireLoop_congr {sum' : ℤ → ℤ → ℤ} {clock : ℕ → ℤ} : ∀ {fuel k : ℕ}
    {h : TimerMinHeap Cb} {ts acc : List (Timer Cb)}, Represents h ts →
      (∀ t ∈ ts, t.repeats = true →
        ∀ k, sum (clock k) t.interval = sum' (clock k) t.interval) →
      TimerQueue.expireLoop sum clock fuel k h acc = TimerQueue.expireLoop sum' clock fuel k h acc
  | 0, _, _, _, _, _, _ => rfl
  | fuel + 1, k, h, ts, acc, r, hsum => by
      rw [expireLoop_succ, expireLoop_succ]
      cases ts with
      | nil =>
          rw [expireRound_done r, expireRound_done r]
          rfl
      | cons t tl =>
          have hroot := hsum t List.mem_cons_self
          rw [← expireRound_congr r fun hrep => hroot hrep (k + 1)]
          rcases lt_or_ge (clock k) t.expiration with hlt | hle
          · rw [expireRound_wait r hlt]
            rfl
          · cases hrep : t.repeats with
            | true =>
                obtain ⟨h₁, e₁, r₁⟩ := expireRound_again sum r hle hrep
                rw [e₁]
                refine expireLoop_congr r₁ fun u hu => ?_
                rcases List.mem_cons.mp ((replaceRoot_perm _ tl _).mem_iff.mp hu) with rfl | hu
                · exact hroot
                · exact hsum u (List.mem_cons_of_mem _ hu)
            | false =>
                obtain ⟨h₁, e₁, r₁⟩ := expireRound_once sum r hle hrep
                rw [e₁]
                refine expireLoop_congr r₁ fun u hu => ?_
                have hperm : (t :: tl).Perm (t :: removeAt Timer.expirationTime (t :: tl) 0) :=
                  removeAt_perm _ rfl
                exact hsum u (hperm.mem_iff.mpr (List.mem_cons_of_mem _ hu))

/-- What holds of the timers in the heap, and of a timer that repeats also once it is
re-armed, holds of the batch and of what is left. -/
theorem ExpiresBy.forall_kept {clock : ℕ → ℤ} {k : ℕ} {ts batch ts' : List (Timer Cb)}
    {P : Timer Cb → Prop} (e : ExpiresBy sum clock k ts batch ts')
    (hre : ∀ t k, P t → t.repeats = true → P (t.rearmBy sum (clock k))) (hts : ∀ t ∈ ts, P t) :
    (∀ t ∈ batch, P t) ∧ ∀ t ∈ ts', P t := by
  induction e with
  | done => exact ⟨nofun, nofun⟩
  | wait => exact ⟨nofun, hts⟩
  | @again k t tl batch ts' _ hrep _ ih =>
      have ht : P t := hts t List.mem_cons_self
      obtain ⟨hbatch, hleft⟩ := ih fun u hu => by
        rcases List.mem_cons.mp ((replaceRoot_perm _ tl _).mem_iff.mp hu) with rfl | hu
        · exact hre t _ ht hrep
        · exact hts u (List.mem_cons_of_mem _ hu)
      exact ⟨List.forall_mem_cons.mpr ⟨ht, hbatch⟩, hleft⟩
  | @once k t tl batch ts' _ _ _ ih =>
      have hperm : (t :: tl).Perm (t :: removeAt Timer.expirationTime (t :: tl) 0) :=
        removeAt_perm _ rfl
      obtain ⟨hbatch, hleft⟩ := ih fun u hu =>
        hts u (hperm.mem_iff.mpr (List.mem_cons_of_mem _ hu))
      exact ⟨List.forall_mem_cons.mpr ⟨hts t List.mem_cons_self, hbatch⟩, hleft⟩

/-- A batch has no other ids than the heap had, and neither has what is left. -/
theorem ExpiresBy.ids {clock : ℕ → ℤ} {k : ℕ} {ts batch ts' : List (Timer Cb)}
    (e : ExpiresBy sum clock k ts batch ts') :
    (∀ t ∈ batch, t.id ∈ ts.map Timer.id) ∧ ∀ t ∈ ts', t.id ∈ ts.map Timer.id :=
  e.forall_kept (P := fun t => t.id ∈ ts.map Timer.id) (fun _ _ h _ => h)
    fun _ ht => List.mem_map_of_mem ht

/-- What is left are timers that the heap had, some of them re-armed. -/
theorem ExpiresBy.subperm {clock : ℕ → ℤ} {k : ℕ} {ts batch ts' : List (Timer Cb)} {β : Type*}
    {f : Timer Cb → β} (e : ExpiresBy sum clock k ts batch ts')
    (hf : ∀ t now, f (t.rearmBy sum now) = f t) : (ts'.map f).Subperm (ts.map f) := by
  induction e with
  | done => exact .refl _
  | wait => exact .refl _
  | @again k t tl batch ts' _ _ _ ih =>
      have hperm := (replaceRoot_perm Timer.expirationTime (r := t) tl
        (t.rearmBy sum (clock (k + 1)))).map f
      rw [List.map_cons, hf, ← List.map_cons] at hperm
      exact ih.trans hperm.subperm
  | @once k t tl batch ts' _ _ _ ih =>
      have hperm : (t :: tl).Perm (t :: removeAt Timer.expirationTime (t :: tl) 0) :=
        removeAt_perm _ rfl
      exact ih.trans ((List.sublist_cons_self _ _).subperm.trans (hperm.map f).symm.subperm)

/-! ## A clock that stands still -/

section Still

variable {now : ℤ} {k : ℕ} {ts batch ts' : List (Timer Cb)}

/-- The timers due at `now`. -/
def due (now : ℤ) (t : Timer Cb) : Bool := t.expiration ≤ now

/-- A timer that repeats is re-armed for a time after `now`. -/
def Later (sum : ℤ → ℤ → ℤ) (now : ℤ) (t : Timer Cb) : Prop :=
  t.repeats = true → now < sum now t.interval

theorem later_of_nonneg {t : Timer Cb} (hi : 0 ≤ t.interval) : Later addInterval now t := by
  intro hr
  have hne : t.interval ≠ 0 := by simpa [Timer.repeats] using hr
  show now < now + t.interval * 1000000
  omega

/-- What the re-armed timers of a batch are. -/
def rearmedBy (sum : ℤ → ℤ → ℤ) (now : ℤ) (batch : List (Timer Cb)) : List (Timer Cb) :=
  (batch.filter Timer.repeats).map (Timer.rearmBy sum now)

abbrev rearmed (now : ℤ) (batch : List (Timer Cb)) : List (Timer Cb) :=
  rearmedBy addInterval now batch

theorem not_due_rearm {t : Timer Cb} (hl : Later sum now t) (hr : t.repeats = true) :
    due now (t.rearmBy sum now) = false := by
  rw [due, decide_eq_false_iff_not]
  exact not_le.mpr (hl hr)

theorem replaceRoot_rearm_later {t : Timer Cb} {tl : List (Timer Cb)}
    (hl : ∀ u ∈ t :: tl, due now u = true → Later sum now u) (ht : due now t = true) :
    ∀ u ∈ replaceRoot Timer.expirationTime (t :: tl) (t.rearmBy sum now),
      due now u = true → Later sum now u := by
  intro u hu hd
  rcases List.mem_cons.mp ((replaceRoot_perm _ tl _).mem_iff.mp hu) with rfl | hu
  · exact hl t List.mem_cons_self ht
  · exact hl u (List.mem_cons_of_mem _ hu) hd

theorem removeAt_root_perm (t : Timer Cb) (tl : List (Timer Cb)) :
    (removeAt Timer.expirationTime (t :: tl) 0).Perm tl :=
  (List.perm_cons t).mp (removeAt_perm _ (i := 0) rfl).symm

/-- Every round turns a due timer into one that is not due, or removes it. -/
theorem expires_total (hl : ∀ t ∈ ts, due now t = true → Later sum now t) :
    ∃ batch ts', ExpiresBy sum (fun _ => now) k ts batch ts' ∧
      batch.length ≤ ts.countP (due now) := by
  generalize hn : ts.countP (due now) = n
  induction n generalizing k ts with
  | zero =>
      cases ts with
      | nil => exact ⟨[], [], .done, Nat.le_refl _⟩
      | cons t tl =>
          have hnot : ¬ due now t = true := List.countP_eq_zero.mp hn t List.mem_cons_self
          exact ⟨[], t :: tl, .wait (not_le.mp (by simpa [due] using hnot)), Nat.le_refl _⟩
  | succ n ih =>
      cases ts with
      | nil => exact absurd hn (by simp)
      | cons t tl =>
          by_cases hle : t.expiration ≤ now
          · have hdue : due now t = true := by simpa [due] using hle
            rw [List.countP_cons_of_pos hdue] at hn
            have hn' : tl.countP (due now) = n := Nat.succ.inj hn
            cases hrep : t.repeats with
            | true =>
                have hcount : (replaceRoot Timer.expirationTime (t :: tl)
                    (t.rearmBy sum now)).countP (due now) = n := by
                  rw [(replaceRoot_perm _ tl _).countP_eq, List.countP_cons_of_neg, hn']
                  simp [not_due_rearm (hl t List.mem_cons_self hdue) hrep]
                obtain ⟨batch, ts', e, hlen⟩ :=
                  ih (k := k + 2) (replaceRoot_rearm_later hl hdue) hcount
                exact ⟨t :: batch, ts', .again hle hrep e, Nat.succ_le_succ hlen⟩
            | false =>
                have hperm := removeAt_root_perm t tl
                obtain ⟨batch, ts', e, hlen⟩ := ih (k := k + 1)
                  (fun u hu => hl u (List.mem_cons_of_mem _ (hperm.mem_iff.mp hu)))
                  ((hperm.countP_eq _).trans hn')
                exact ⟨t :: batch, ts', .once hle hrep e, Nat.succ_le_succ hlen⟩
          · exact ⟨[], t :: tl, .wait (not_le.mp hle), Nat.zero_le _⟩

/-- A due root comes before the other timers that are due. -/
theorem due_root_cons {t : Timer Cb} {tl : List (Timer Cb)} (hdue : due now t = true)
    (ho : HeapOrdered Timer.expirationTime (t :: tl)) (hb : batch.Perm (tl.filter (due now)))
    (hs : batch.Pairwise fun t u => t.expiration ≤ u.expiration) :
    (t :: batch).Perm ((t :: tl).filter (due now)) ∧
      (t :: batch).Pairwise fun t u => t.expiration ≤ u.expiration := by
  constructor
  · rw [List.filter_cons_of_pos hdue]
    exact hb.cons t
  · refine List.Pairwise.cons (fun u hu => ?_) hs
    exact ho.root_le (r := t) rfl u
      (List.mem_cons_of_mem _ (List.mem_of_mem_filter (hb.mem_iff.mp hu)))

/-- In heap order, the batch is what is due, in order of expiration; what is
left is what is not due and the re-armed timers, again in heap order. -/
theorem ExpiresBy.exact (e : ExpiresBy sum (fun _ => now) k ts batch ts')
    (hl : ∀ t ∈ ts, due now t = true → Later sum now t)
    (ho : HeapOrdered Timer.expirationTime ts) :
    batch.Perm (ts.filter (due now)) ∧ batch.Pairwise (fun t u => t.expiration ≤ u.expiration) ∧
      ts'.Perm (ts.filter (fun t => !due now t) ++ rearmedBy sum now batch) ∧
      HeapOrdered Timer.expirationTime ts' := by
  induction e with
  | done => exact ⟨.refl _, .nil, .refl _, ho⟩
  | @wait k t tl hlt =>
      -- the root is not due, so nothing is
      have hnone : ∀ u ∈ t :: tl, due now u = false := by
        intro u hu
        have hle : t.expiration ≤ u.expiration := ho.root_le (r := t) rfl u hu
        simpa [due] using hlt.trans_le hle
      have hf : (t :: tl).filter (due now) = [] := by
        simpa [List.filter_eq_nil_iff] using hnone
      have hf' : (t :: tl).filter (fun u => !due now u) = t :: tl := by
        rw [List.filter_eq_self]
        intro u hu
        simp [hnone u hu]
      refine ⟨?_, .nil, ?_, ho⟩
      · rw [hf]
      · rw [hf']
        simp [rearmedBy]
  | @again k t tl batch ts' hle hrep _ ih =>
      have hdue : due now t = true := by simpa [due] using hle
      have hre : due now (t.rearmBy sum now) = false :=
        not_due_rearm (hl t List.mem_cons_self hdue) hrep
      obtain ⟨hb, hs, hp, ho'⟩ := ih (replaceRoot_rearm_later hl hdue) (replaceRoot_ordered ho _)
      have hb' : batch.Perm (tl.filter (due now)) := by
        simpa [hre] using hb.trans ((replaceRoot_perm _ tl (t.rearmBy sum now)).filter _)
      have hp' := hp.trans (((replaceRoot_perm Timer.expirationTime (r := t) tl
        (t.rearmBy sum now)).filter _).append_right _)
      obtain ⟨hperm, hsorted⟩ := due_root_cons hdue ho hb' hs
      refine ⟨hperm, hsorted, ?_, ho'⟩
      rw [List.filter_cons_of_pos (by simp [hre])] at hp'
      rw [List.filter_cons_of_neg (by simp [hdue]), rearmedBy, List.filter_cons_of_pos hrep,
        List.map_cons]
      exact hp'.trans List.perm_middle.symm
  | @once k t tl batch ts' hle hrep _ ih =>
      have hdue : due now t = true := by simpa [due] using hle
      have hperm := removeAt_root_perm t tl
      obtain ⟨hb, hs, hp, ho'⟩ := ih
        (fun u hu => hl u (List.mem_cons_of_mem _ (hperm.mem_iff.mp hu)))
        (removeAt_ordered ho (Nat.zero_lt_succ _) fun h0 => absurd h0 (Nat.lt_irrefl 0))
      obtain ⟨hbatch, hsorted⟩ := due_root_cons hdue ho (hb.trans (hperm.filter _)) hs
      refine ⟨hbatch, hsorted, ?_, ho'⟩
      rw [List.filter_cons_of_neg (by simp [hdue]), rearmedBy,
        List.filter_cons_of_neg (by simp [hrep])]
      exact hp.trans ((hperm.filter _).append_right _)

/-- In heap order the loop never ends while there is a due timer that is re-armed for a time
which has come: it is due again. -/
theorem ExpiresBy.later (e : ExpiresBy sum (fun _ => now) k ts batch ts')
    (ho : HeapOrdered Timer.expirationTime ts) :
    ∀ t ∈ ts, due now t = true → Later sum now t := by
  induction e with
  | done => exact fun t ht => absurd ht List.not_mem_nil
  | @wait k r tl hlt =>
      intro t ht hd
      have hle : r.expiration ≤ t.expiration := ho.root_le (r := r) rfl t ht
      exact absurd (of_decide_eq_true hd) (not_le.mpr (hlt.trans_le hle))
  | @again k r tl batch ts' hle hrep _ ih =>
      have hperm := replaceRoot_perm Timer.expirationTime (r := r) tl (r.rearmBy sum now)
      have ih := ih (replaceRoot_ordered ho _)
      intro t ht hd
      cases List.mem_cons.mp ht with
      | inl heq =>
          subst heq
          intro hr
          by_contra hnot
          have hre : due now (t.rearmBy sum now) = true := decide_eq_true (not_lt.mp hnot)
          exact hnot (ih (t.rearmBy sum now) (hperm.mem_iff.mpr List.mem_cons_self) hre hr)
      | inr htl => exact ih t (hperm.mem_iff.mpr (List.mem_cons_of_mem _ htl)) hd
  | @once k r tl batch ts' hle hrep _ ih =>
      have ih := ih (removeAt_ordered ho (Nat.zero_lt_succ _) fun h0 => absurd h0 (Nat.lt_irrefl 0))
      intro t ht hd
      cases List.mem_cons.mp ht with
      | inl heq => exact fun hr => absurd (hrep.symm.trans (heq ▸ hr)) Bool.false_ne_true
      | inr htl => exact ih t ((removeAt_root_perm r tl).mem_iff.mpr htl) hd

end Still

end Muduo
