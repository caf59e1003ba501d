/-
# `Muduo.Connector.Backoff` — how long a connector waits before it tries again

`Retry` arms a timer with `retryDelayMs_` and doubles the delay, up to
`kMaxRetryDelayMs`; only `Restart` sets it back.  So the delays since then are

    500, 1000, 2000, 4000, 8000, 16000, 30000, 30000, …

whatever `Start`, `Stop`, the events of the channels and the other callbacks of the loop
do in between (`backs_off`).
-/
import Mathlib.Algebra.Ring.Nat
import Muduo.Connector.Model

namespace Muduo

open Runs

namespace Connector

variable {s s' : Connector} {a : ConnectorAct} {ds : List ℕ}

/-- The delay behind `n` retries. -/
def delay (n : ℕ) : ℕ := min (kInitRetryDelayMs * 2 ^ n) kMaxRetryDelayMs

/-- What `RunAfter` is called with in a step. -/
def armed (s : Connector) : ConnectorAct → List ℕ
  | .loop _ _ => if s.frames.head? = some .retry ∧ s.connect = true then [s.retryDelayMs] else []
  | .start _ | .enqueue | .stop | .restart | .event _ | .timer _ | .task => []

/-- The delays since the connector was constructed or the last `Restart`. -/
def delays (tr : List (Connector × ConnectorAct)) : List ℕ :=
  tr.foldl (fun ds p => if p.2 = .restart then [] else ds ++ armed p.1 p.2) []

theorem delays_snoc (tr : List (Connector × ConnectorAct)) :
    delays (tr ++ [(s, a)]) = if a = .restart then [] else delays tr ++ armed s a := by
  rw [delays, List.foldl_append]
  rfl

theorem delay_succ (n : ℕ) : min (delay n * 2) kMaxRetryDelayMs = delay (n + 1) := by
  have hpow : kInitRetryDelayMs * 2 ^ (n + 1) = kInitRetryDelayMs * 2 ^ n * 2 := by
    rw [Nat.pow_succ, Nat.mul_assoc]
  rw [delay, delay, hpow]
  omega

theorem delay_bounds (n : ℕ) : kInitRetryDelayMs ≤ delay n ∧ delay n ≤ kMaxRetryDelayMs := by
  refine ⟨Nat.le_min.mpr ⟨?_, by decide⟩, Nat.min_le_right _ _⟩
  exact Nat.le_mul_of_pos_right _ (Nat.pow_pos (by decide))

/-- The delays so far, and the next one. -/
structure Backs (ds : List ℕ) (s : Connector) : Prop where
  delays : ds = (List.range ds.length).map delay
  next : s.retryDelayMs = delay ds.length
  timers : ∀ d ∈ s.timers, ∃ n, d = delay n

theorem backs_init : Backs [] init := ⟨rfl, rfl, nofun⟩

/-- A step that arms no timer. -/
theorem Backs.keep (h : Backs ds s) (hd : s'.retryDelayMs = s.retryDelayMs)
    (ht : ∀ d ∈ s'.timers, d ∈ s.timers) (ha : armed s a = []) : Backs (ds ++ armed s a) s' := by
  rw [ha, List.append_nil]
  exact ⟨h.delays, hd.trans h.next, fun d hm => h.timers d (ht d hm)⟩

theorem Backs.runAfter (h : Backs ds s) {fs : List ConnectorFrame} (hc : s.connect = true) :
    Backs (ds ++ [s.retryDelayMs]) (({ s with frames := fs } : Connector).runAfter) := by
  have hrun : ({ s with frames := fs } : Connector).runAfter =
      { s with frames := fs, timers := s.timers ++ [s.retryDelayMs],
               retryDelayMs := min (s.retryDelayMs * 2) kMaxRetryDelayMs } := if_pos hc
  rw [hrun]
  refine ⟨?_, ?_, fun d hd => ?_⟩
  · rw [List.length_append, List.length_singleton, List.range_succ, List.map_append,
      ← h.delays, h.next]
    rfl
  · rw [List.length_append, List.length_singleton]
    show min (s.retryDelayMs * 2) kMaxRetryDelayMs = _
    rw [h.next, delay_succ]
  · rcases List.mem_append.mp hd with hd | hd
    · exact h.timers d hd
    · exact ⟨ds.length, (List.mem_singleton.mp hd).trans h.next⟩

theorem Backs.step (h : Backs ds s) (ha : a ≠ .restart) (hst : s.step a = some s') :
    Backs (ds ++ armed s a) s' := by
  by_cases hretry : (∃ r e, a = .loop r e) ∧ s.frames.head? = some .retry
  · obtain ⟨⟨r, e, rfl⟩, hhead⟩ := hretry
    obtain ⟨fs, hf⟩ : ∃ fs, s.frames = .retry :: fs := List.head?_eq_some_iff.mp hhead
    have hst : s.next r e = some s' := hst
    unfold Connector.next at hst
    rw [hf] at hst
    obtain rfl := Option.some.inj hst
    by_cases hc : s.connect = true
    · have harmed : armed s (.loop r e) = [s.retryDelayMs] := if_pos ⟨hhead, hc⟩
      rw [harmed]
      exact h.runAfter hc
    · have harmed : armed s (.loop r e) = [] := if_neg fun hand => hc hand.2
      have hrun : ({ s with frames := fs } : Connector).runAfter = { s with frames := fs } :=
        if_neg hc
      rw [hrun]
      exact h.keep rfl (fun _ hm => hm) harmed
  · have harmed : armed s a = [] := by
      cases a with
      | loop r e => exact if_neg fun hand => hretry ⟨⟨r, e, rfl⟩, hand.1⟩
      | start | enqueue | stop | restart | event | timer | task => rfl
    cases steps_of_step hst with
    | restart => exact absurd rfl ha
    | armed r e fs _ hf | notArmed r e fs hf =>
        exact absurd ⟨⟨r, e, rfl⟩, by rw [hf]; rfl⟩ hretry
    | timer i => exact h.keep rfl (fun _ hm => List.mem_of_mem_eraseIdx hm) harmed
    | startInline | startOther | enqueue | stop | event | runStart | runReset | givenUp | connecting
    | refused | failed | delivered | handled | ignored | broken | succeeded | stopped =>
        exact h.keep rfl (fun _ hm => hm) harmed

/-- In every run the retry timers that were armed since the last `Restart` have the delays 500 ms,
1 s, 2 s, …, in this order and up to 30 s, and every timer that is armed has one of them. -/
theorem backs_off {tr : List (Connector × ConnectorAct)} (hr : Run (stepOf step) init tr s) :
    delays tr = (List.range (delays tr).length).map (fun n => min (500 * 2 ^ n) 30000) ∧
      ∀ d ∈ s.timers, 500 ≤ d ∧ d ≤ 30000 := by
  have h : Backs (delays tr) s := by
    refine hr.invariant_trace (I := fun tr s => Backs (delays tr) s) (G := fun _ _ => True)
      (fun _ _ => trivial) backs_init ?_
    intro tr t a u h _ hst
    rw [delays_snoc]
    split
    · next ha =>
        subst ha
        cases steps_of_step hst with
        | restart => exact ⟨rfl, rfl, h.timers⟩
    · next ha => exact h.step ha hst
  refine ⟨h.delays, fun d hd => ?_⟩
  obtain ⟨n, rfl⟩ := h.timers d hd
  exact delay_bounds n

/-- Every attempt is refused. -/
def refusedSeven : List ConnectorAct :=
  .start true :: (List.replicate 7 [.loop .ECONNREFUSED 0, .loop .ok 0, .timer 0]).flatten

theorem refusedSeven_backs_off : ∃ tr s, runAll step init refusedSeven = some (tr, s) ∧
    delays tr = [500, 1000, 2000, 4000, 8000, 16000, 30000] := by
  obtain ⟨tr, s, hrun, hlen⟩ : ∃ tr s, runAll step init refusedSeven = some (tr, s) ∧
      (delays tr).length = 7 :=
    exists_computed (by decide)
  refine ⟨tr, s, hrun, ?_⟩
  rw [(backs_off (run_of_runAll hrun)).1, hlen]
  decide

end Connector

end Muduo
