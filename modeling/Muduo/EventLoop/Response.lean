/-
# `Muduo.EventLoop.Response` — a queued callback is called soon

The loop thread goes round: poll, handle the events, swap, call the batch.  How
many of its steps are left up to the next swap depends on where it is (`toSwap`),
and in a batch each callback takes two steps.

    c is in the batch     what is left of a call, two steps for each one before c
    c is in the queue     toSwap, two steps for each one before c

No step of another thread makes this more, and each step of the loop thread
makes it less, up to the one with which `Loop()` returns (`ahead_step`).  So a
callback with `k` others before it is called in `2 k + 10` steps of the loop
thread, whatever is queued behind it (`called_within`).
-/
import Muduo.EventLoop.Ledger

namespace Muduo

open Runs

/-- The steps of the loop thread up to and with the next swap, when `batch` callbacks of
the last one are left. -/
def Point.toSwap (batch : ℕ) : Point → ℕ
  | outside => 8
  | entered | releasing => 7
  | testing => 6
  | polling => 5
  | handling true => 4
  | handling false => 3
  | handled => 2
  | swapping => 1
  | between => 2 * batch + 8
  | calling _ => 2 * batch + 9

namespace EventLoop

variable {s s' : EventLoop} {a : LoopAct} {threadId c : ℕ}

/-- The step with which `Loop()` returns. -/
def exits (s : EventLoop) (a : LoopAct) : Prop := s.point = .testing ∧ s.quit = true ∧ a = .loop

instance (s : EventLoop) (a : LoopAct) : Decidable (s.exits a) :=
  inferInstanceAs (Decidable (_ ∧ _))

/-- The steps until a callback is called that is behind `before` others, `batch` of them in
the batch: `toSwap` up to the swap, `inCall` to the end of a call. -/
def stepsTo (toSwap inCall batch before : ℕ) : ℕ :=
  if before < batch then inCall + 2 * before + 1 else toSwap + 2 * (before - batch) + 1

/-- The steps of the loop thread until it calls callback `c`, at most. -/
def ahead (s : EventLoop) (c : ℕ) : ℕ :=
  stepsTo (s.point.toSwap s.tmpQueue.length) s.point.current.length s.tmpQueue.length
    (c - s.started.length)

theorem stepsTo_idle {n n' k : ℕ} (h : n' < n) : 1 + stepsTo n' 0 0 k ≤ stepsTo n 0 0 k := by
  rw [stepsTo, stepsTo, if_neg (Nat.not_lt_zero _), if_neg (Nat.not_lt_zero _)]
  omega

/-- The swap: what was queued is the batch. -/
theorem stepsTo_swap {n m k : ℕ} (h : k < m) : 1 + stepsTo n 0 m k ≤ stepsTo 1 0 0 k := by
  rw [stepsTo, stepsTo, if_pos h, if_neg (Nat.not_lt_zero _)]
  omega

theorem stepsTo_call {m k : ℕ} :
    1 + stepsTo (2 * m + 9) 1 m k ≤ stepsTo (2 * (m + 1) + 8) 0 (m + 1) (k + 1) := by
  by_cases h : k < m
  · rw [stepsTo, stepsTo, if_pos h, if_pos (Nat.succ_lt_succ h)]
    omega
  · rw [stepsTo, stepsTo, if_neg h, if_neg fun hlt => h (Nat.lt_of_succ_lt_succ hlt)]
    omega

theorem stepsTo_called {m k : ℕ} :
    1 + stepsTo (2 * m + 8) 0 m k ≤ stepsTo (2 * m + 9) 1 m k := by
  by_cases h : k < m
  · rw [stepsTo, stepsTo, if_pos h, if_pos h]
    omega
  · rw [stepsTo, stepsTo, if_neg h, if_neg h]
    omega

/-- The callbacks are numbered in the order in which they are called. -/
theorem Ledger.mem_started (h : s.Ledger) : c ∈ s.started ↔ c < s.started.length := by
  have hord : s.started ++ (s.tmpQueue ++ s.pendingCbsQueue) = List.range s.pushes := by
    rw [← List.append_assoc]
    exact h.order
  have hpre : s.started = List.range s.started.length := by
    have hle : s.started.length ≤ s.pushes := by
      have hlen := congrArg List.length hord
      rw [List.length_append, List.length_range] at hlen
      omega
    rw [← Nat.min_eq_left hle, ← List.take_range, ← hord, List.take_left]
  rw [hpre, List.mem_range, List.length_range]

/-- The callbacks that are pushed are in a batch with the next swap. -/
theorem Ledger.lt_queued (h : s.Ledger) (hp : s.tmpQueue = []) (hc : c < s.pushes)
    (hn : s.started.length ≤ c) : c - s.started.length < s.pendingCbsQueue.length := by
  have hlen : s.started.length + s.pendingCbsQueue.length = s.pushes := by
    have hord : s.started ++ s.tmpQueue ++ s.pendingCbsQueue = List.range s.pushes := h.order
    rw [hp, List.append_nil] at hord
    rw [← List.length_append, hord, List.length_range]
  omega

theorem ahead_loop (h : s.Ledger) (hc : c < s.pushes) (hn : s.started.length ≤ c)
    (hx : ¬ s.exits .loop) (hst : LoopStep s s') :
    c < s'.started.length ∨ 1 + s'.ahead c ≤ s.ahead c := by
  have hbat := h.batch
  cases hst with
  | exit hp hq => exact absurd ⟨hp, hq, rfl⟩ hx
  | enter hp | reset hp | poll hp _ | readWakeUp hp | endHandling hp | setCalling hp
  | released hp =>
      rw [hp] at hbat
      refine .inr ?_
      simp only [ahead, started, hp, hbat rfl]
      exact stepsTo_idle (by decide)
  | polled hp =>
      rw [hp] at hbat
      refine .inr ?_
      simp only [ahead, started, hp, hbat rfl]
      refine stepsTo_idle ?_
      cases decide (s.eventfd ≠ 0) <;> decide
  | swap hp =>
      rw [hp] at hbat
      have hlt := h.lt_queued (hbat rfl) hc hn
      refine .inr ?_
      simp only [ahead, started, hp, hbat rfl] at hlt ⊢
      exact stepsTo_swap hlt
  | call d ds hp hq =>
      have hlen : ({ s with point := .calling d, tmpQueue := ds } : EventLoop).started.length =
          s.started.length + 1 := by
        simp only [started, hp, Point.current, List.append_nil, List.length_append,
          List.length_singleton]
      rcases Nat.eq_or_lt_of_le hn with rfl | hlt
      · exact .inl (hlen ▸ Nat.lt_succ_self _)
      · have hk : c - s.started.length = (c - (s.started.length + 1)) + 1 := by omega
        refine .inr ?_
        rw [ahead, ahead, hlen, hk, hp, hq]
        exact stepsTo_call
  | clearCalling hp hq =>
      refine .inr ?_
      simp only [ahead, started, hp, hq]
      exact stepsTo_idle (by decide)
  | called d hp =>
      refine .inr ?_
      simp only [ahead, started, hp, List.append_assoc]
      exact stepsTo_called

/-- Whatever the other threads do, the loop thread is not set back. -/
theorem ahead_other (ha : a ≠ .loop) (hst : s.step a = some s') :
    s'.started = s.started ∧ s'.ahead c = s.ahead c := by
  cases a with
  | enqueue t =>
      obtain ⟨-, rfl⟩ := enqueue_cases hst
      exact ⟨rfl, rfl⟩
  | quit t =>
      obtain ⟨-, -, rfl⟩ := quit_cases hst
      exact ⟨rfl, rfl⟩
  | finish t =>
      obtain ⟨r, n, rfl, -, -⟩ := finish_cases hst
      exact ⟨rfl, rfl⟩
  | loop => exact absurd rfl ha

theorem started_le (hst : s.step a = some s') : s.started.length ≤ s'.started.length := by
  by_cases ha : a = .loop
  · subst ha
    obtain ⟨-, hst⟩ := loop_cases hst
    cases hst with
    | call c cs hp _ =>
        simp only [started, hp, Point.current, List.append_nil, List.length_append]
        exact Nat.le_add_right _ _
    | enter hp | reset hp | exit hp _ | poll hp _ | polled hp | readWakeUp hp | endHandling hp
    | setCalling hp | swap hp | clearCalling hp _ | called _ hp | released hp =>
        simp [started, hp, Point.current]
  · rw [(ahead_other (c := 0) ha hst).1]

theorem pushes_le (hst : s.step a = some s') : s.pushes ≤ s'.pushes := by
  rw [pushes_step hst]
  exact Nat.le_add_right _ _

theorem ahead_step (h : s.Ledger) (hc : c < s.pushes) (hn : ¬ c < s.started.length)
    (hx : ¬ s.exits a) (hst : s.step a = some s') :
    c < s'.started.length ∨ (if a = .loop then 1 else 0) + s'.ahead c ≤ s.ahead c := by
  by_cases ha : a = .loop
  · subst ha
    rw [if_pos rfl]
    exact ahead_loop h hc (Nat.le_of_not_lt hn) hx (loop_cases hst).2
  · rw [if_neg ha, Nat.zero_add]
    exact .inr (Nat.le_of_eq (ahead_other ha hst).2)

theorem ahead_pos (s : EventLoop) (c : ℕ) : 0 < s.ahead c := by
  rw [ahead, stepsTo]
  split <;> exact Nat.succ_pos _

theorem ahead_le (s : EventLoop) (c : ℕ) : s.ahead c ≤ 2 * (c - s.started.length) + 10 := by
  have hcall : s.point.current.length ≤ 1 := by
    cases s.point <;> exact Nat.le_of_ble_eq_true rfl
  have hswap : s.point.toSwap s.tmpQueue.length ≤ 2 * s.tmpQueue.length + 9 := by
    rw [Point.toSwap.eq_def]
    split <;> omega
  rw [ahead, stepsTo]
  split <;> omega

/-- A callback that is queued with `k` others before it is called in `2 k + 10` steps of the loop
thread, whatever the other threads push or call, unless `Loop()` returns before. -/
theorem called_within {tr : List (EventLoop × LoopAct)} (hr : LoopRun threadId tr s)
    (hc : c < s.pushes) {tr' : List (EventLoop × LoopAct)} {t : EventLoop}
    (hr' : Run (stepOf step) s tr' t) (hstay : ∀ p ∈ tr', ¬ p.1.exits p.2)
    (hlong : 2 * (c - s.started.length) + 10 ≤ tr'.countP fun p => p.2 = .loop) :
    c ∈ t.started := by
  have hl : t.Ledger := ledger_of_run (hr.append hr')
  refine hl.mem_started.mpr ?_
  have hle := hr'.countP_add_rank_le (I := fun s => s.Ledger ∧ c < s.pushes)
    (D := fun s => c < s.started.length) (G := fun s a => ¬ s.exits a) (r := fun s => s.ahead c)
    (c := fun a => a = .loop) hstay ⟨ledger_of_run hr, hc⟩
    (fun h hst => ⟨h.1.step hst, h.2.trans_le (pushes_le hst)⟩)
    (fun _ hd hst => hd.trans_le (started_le hst))
    (fun h hd hx hst => by simpa only [decide_eq_true_eq] using ahead_step h.1 h.2 hd hx hst)
  refine hle.resolve_right fun hle => ?_
  have hbound := s.ahead_le c
  have hpos := t.ahead_pos c
  omega

/-- Two threads push while the loop polls; a third one pushes meanwhile. -/
def twoPushes : List LoopAct := List.replicate 3 .loop ++ [.enqueue 1, .finish 1, .enqueue 2]

def twelveSteps : List LoopAct :=
  List.replicate 5 .loop ++ [.enqueue 3, .finish 2] ++ List.replicate 7 .loop

theorem twoPushes_called : ∃ tr s tr' t, runAll step (init 0) twoPushes = some (tr, s) ∧
    s.pendingCbsQueue = [0, 1] ∧ runAll step s twelveSteps = some (tr', t) ∧ 1 ∈ t.started := by
  obtain ⟨tr, s, hrun, hq, hc, tr', t, hrun', hstay, hlong⟩ : ∃ tr s,
      runAll step (init 0) twoPushes = some (tr, s) ∧ s.pendingCbsQueue = [0, 1] ∧ 1 < s.pushes ∧
        ∃ tr' t, runAll step s twelveSteps = some (tr', t) ∧ (∀ p ∈ tr', ¬ p.1.exits p.2) ∧
          2 * (1 - s.started.length) + 10 ≤ tr'.countP fun p => p.2 = .loop :=
    ⟨_, _, rfl, rfl, by decide, _, _, rfl, by decide, by decide⟩
  exact ⟨tr, s, tr', t, hrun, hq, hrun',
    called_within (run_of_runAll hrun) hc (run_of_runAll hrun') hstay hlong⟩

end EventLoop

end Muduo
