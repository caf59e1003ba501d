/-
# `Muduo.AsyncLog.Stop` — the last lines

`Stop` clears `running_` and waits for the back thread, which tests the flag only
at the head of its loop.  What it takes in the round it is in will still be
written; what is queued after its critical section stays there.

    Stop finds the back thread            the lines that are queued
    past the test, before the swap        are taken in this round
    anywhere else                         are lost

So nothing is lost if the back thread is in the first place, or nothing is
queued, whenever `Stop` is called (`stop_keeps_lines`).
-/
import Muduo.AsyncLog.Queue

namespace Muduo

open Chunks Runs

namespace AsyncLogger

variable {SIZE : ℕ} {s s' : AsyncLogger SIZE} {a : LogAct}

/-- When `Stop` has returned, the lines that were appended before it was called are in
the buffers that have been written or dropped. -/
def Kept (s : AsyncLogger SIZE) : Prop :=
  ∀ n, s.control = .stopped n → (s.appended.take n).flatten <+: s.processed.flatten

/-- The back thread has passed the test of `running_` and has not made the swap. -/
def beforeSwap (s : AsyncLogger SIZE) : Bool := s.point = .locking ∨ s.point = .waiting

/-- `Stop` is called when the back thread is still to make a swap, or when nothing
is queued. -/
def Heard (s : AsyncLogger SIZE) : LogAct → Prop
  | .stop => s.beforeSwap = true ∨ s.queued.flatten = []
  | _ => True

instance (s : AsyncLogger SIZE) : (a : LogAct) → Decidable (s.Heard a)
  | .stop => inferInstanceAs (Decidable (_ ∨ _))
  | .append _ | .start | .join | .wake _ | .back _ => inferInstanceAs (Decidable True)

/-- The first `n` lines have been taken, or will be in the present round. -/
def Covered (s : AsyncLogger SIZE) (n : ℕ) : Prop :=
  s.beforeSwap = true ∨ (s.appended.take n).flatten <+: s.taken.flatten

/-- The lines a `Stop` has to do with. -/
structure Stops (s : AsyncLogger SIZE) : Prop where
  stopping : ∀ n, s.control = .stopping n → n ≤ s.appended.length ∧ s.Covered n
  stopped : ∀ n, s.control = .stopped n → n ≤ s.appended.length
  kept : s.Kept

theorem stops_init : (init SIZE).Stops := ⟨nofun, nofun, nofun⟩

/-! ## What a step leaves -/

theorem take_snoc {n : ℕ} {lines : List (List Byte)} (line : List Byte) (hn : n ≤ lines.length) :
    n ≤ (lines ++ [line]).length ∧ (lines ++ [line]).take n = lines.take n := by
  refine ⟨?_, List.take_append_of_le_length hn⟩
  rw [List.length_append]
  exact Nat.le_add_right_of_le hn

theorem take_appended (h : Effect s a s') {n : ℕ} (hn : n ≤ s.appended.length) :
    n ≤ s'.appended.length ∧ s'.appended.take n = s.appended.take n := by
  cases h with
  | extend line _ _ _ _ _ ha | fresh line _ _ ha =>
      rw [ha]
      exact take_snoc line hn
  | swap _ _ _ ha | other _ _ ha =>
      rw [ha]
      exact ⟨hn, rfl⟩

theorem taken_grows (h : Effect s a s') : s.taken.flatten <+: s'.taken.flatten := by
  cases h with
  | extend _ _ _ _ _ ht | fresh _ _ ht | other _ ht => exact ht ▸ List.prefix_rfl
  | swap _ _ ht =>
      rw [ht, List.flatten_append]
      exact List.prefix_append _ _

/-- A step of the back thread adds to the log and leaves the thread that controls
the logger where it is. -/
theorem backStep_same (h : BackStep s s') : s.log <+: s'.log ∧ s'.control = s.control := by
  cases h with
  | begin | enter | leave | wait => exact ⟨List.prefix_rfl, rfl⟩
  | swap hp h =>
      obtain ⟨b, next, new2, -, -, rfl⟩ := swap_cases h
      exact ⟨List.prefix_rfl, rfl⟩
  | limit now hp =>
      unfold limit
      split
      · exact ⟨List.prefix_append _ _, rfl⟩
      · exact ⟨List.prefix_rfl, rfl⟩
  | write => exact ⟨List.prefix_append _ _, rfl⟩
  | recycle i hp hi h =>
      obtain ⟨b₁, b₂, -, -, rfl⟩ := recycle_cases h
      exact ⟨List.prefix_append _ _, rfl⟩

/-- A line is appended to the queue, and to nothing else. -/
theorem append_same {line : List Byte} (h : s.append line = some s') :
    s'.log = s.log ∧ s'.control = s.control ∧ s'.point = s.point := by
  unfold append at h
  split at h
  · exact Option.some.inj h ▸ ⟨rfl, rfl, rfl⟩
  · obtain ⟨_, -, h⟩ := Option.bind_eq_some_iff.mp h
    exact Option.some.inj h ▸ ⟨rfl, rfl, rfl⟩

theorem flatten_prefix {xs ys : List (List Byte)} (h : xs <+: ys) : xs.flatten <+: ys.flatten := by
  obtain ⟨zs, rfl⟩ := h
  rw [List.flatten_append]
  exact List.prefix_append _ _

theorem processed_grows (h : s.log <+: s'.log) : s.processed.flatten <+: s'.processed.flatten :=
  flatten_prefix (h.filterMap _)

theorem lines_prefix {n : ℕ} {lines : List (List Byte)} :
    (lines.take n).flatten <+: lines.flatten :=
  flatten_prefix (List.take_prefix _ _)

/-- The back thread makes its swap or goes on to make it, and once it has been made
the lines are taken. -/
theorem Covered.back {n : ℕ} (w : s.Slots) (hw : s.Whole) (hn : n ≤ s.appended.length)
    (h : s.Covered n) (hst : BackStep s s') : s'.Covered n := by
  have he : Effect s (.back "") s' := effect_back w hst
  obtain ⟨-, htake⟩ := take_appended he hn
  cases hst with
  | wait => exact .inl rfl
  | swap hp hst =>
      right
      obtain ⟨b, next, new2, -, -, rfl⟩ := swap_cases hst
      rw [taken_swap w hp hst, hw.flatten]
      exact lines_prefix
  | begin hp | enter hp | leave hp | limit _ hp | write _ _ hp | recycle _ hp =>
      right
      rcases h with h | h
      · simp [beforeSwap, hp] at h
      · exact htake ▸ h.trans (taken_grows he)

theorem Stops.back (w : s.Slots) (hw : s.Whole) (h : s.Stops) (hst : BackStep s s') : s'.Stops := by
  obtain ⟨hlog, hc⟩ := backStep_same hst
  have he : Effect s (.back "") s' := effect_back w hst
  refine ⟨fun n hn => ?_, fun n hn => ?_, fun n hn => ?_⟩
  · obtain ⟨hle, hcov⟩ := h.stopping n (hc ▸ hn)
    exact ⟨(take_appended he hle).1, hcov.back w hw hle hst⟩
  · exact (take_appended he (h.stopped n (hc ▸ hn))).1
  · rw [(take_appended he (h.stopped n (hc ▸ hn))).2]
    exact (h.kept n (hc ▸ hn)).trans (processed_grows hlog)

theorem Stops.append {line : List Byte} (w : s.Slots) (h : s.Stops)
    (hst : s.append line = some s') : s'.Stops := by
  obtain ⟨hlog, hc, hp⟩ := append_same hst
  have he := effect_append w hst
  refine ⟨fun n hn => ?_, fun n hn => ?_, fun n hn => ?_⟩
  · obtain ⟨hle, hcov⟩ := h.stopping n (hc ▸ hn)
    obtain ⟨hle', htake⟩ := take_appended he hle
    refine ⟨hle', ?_⟩
    rcases hcov with hcov | hcov
    · left
      rw [beforeSwap, hp]
      exact hcov
    · exact .inr (htake ▸ hcov.trans (taken_grows he))
  · exact (take_appended he (h.stopped n (hc ▸ hn))).1
  · rw [(take_appended he (h.stopped n (hc ▸ hn))).2]
    exact (h.kept n (hc ▸ hn)).trans (processed_grows (hlog ▸ List.prefix_rfl))

/-- Nothing queued means that everything is taken. -/
theorem taken_of_no_queue (hw : s.Whole) (hq : s.queued.flatten = []) :
    s.taken.flatten = s.appended.flatten := by
  have h := hw.flatten
  rw [List.flatten_append, hq, List.append_nil] at h
  exact h

/-- When the back thread has ended, or was never started, nothing of what was taken is
on its way. -/
theorem Covered.ended {n : ℕ} (w : s.Slots) (hp : s.point = .notStarted ∨ s.point = .finished)
    (h : s.Covered n) : (s.appended.take n).flatten <+: s.processed.flatten := by
  have hl := w.locals
  rcases hp with hp | hp
  · rw [hp] at hl
    rw [← taken_of_no_batch (by simp only [unwritten, hp]) hl]
    rcases h with h | h
    · simp [beforeSwap, hp] at h
    · exact h
  · rw [hp] at hl
    rw [← taken_of_no_batch (by simp only [unwritten, hp]) hl]
    rcases h with h | h
    · simp [beforeSwap, hp] at h
    · exact h

/-- `Stop` is called, and what it has to see to is covered. -/
theorem Covered.heard (hw : s.Whole) (hg : s.Heard .stop) : s.Covered s.appended.length := by
  rcases hg with hg | hg
  · exact .inl hg
  · exact .inr ((taken_of_no_queue hw hg).symm ▸ lines_prefix)

theorem Stops.step (w : s.Slots) (hw : s.Whole) (h : s.Stops) (hg : s.Heard a)
    (hst : Steps s a s') : s'.Stops := by
  cases hst with
  | append line hst => exact h.append w hst
  | started => exact h
  | start => exact ⟨nofun, nofun, nofun⟩
  | stop hr =>
      refine ⟨?_, nofun, nofun⟩
      rintro n ⟨⟩
      exact ⟨Nat.le_refl _, .heard hw hg⟩
  | stopped hc hr =>
      have hkept := (Covered.heard hw hg).ended w (w.ended hr hc)
      refine ⟨nofun, ?_, ?_⟩
      · rintro n ⟨⟩
        exact Nat.le_refl _
      · rintro n ⟨⟩
        exact hkept
  | join n hc hp =>
      obtain ⟨hle, hcov⟩ := h.stopping n hc
      have hkept := hcov.ended w (.inr hp)
      refine ⟨nofun, ?_, ?_⟩
      · rintro n' ⟨⟩
        exact hle
      · rintro n' ⟨⟩
        exact hkept
  | wake timeout hst => exact h.back w hw hst
  | back now hst => exact h.back w hw hst

/-- In a run in which every `Stop` finds the back thread in front of its swap, or
nothing queued, every line appended before a `Stop` has been written, or dropped
with its batch, when the `Stop` has returned. -/
theorem stop_keeps_lines {tr : List (AsyncLogger SIZE × LogAct)}
    (hr : Run (stepOf step) (init SIZE) tr s) (hok : ∀ p ∈ tr, Heard p.1 p.2) : s.Kept := by
  have h : (s.Slots ∧ s.Whole) ∧ s.Stops :=
    hr.invariant_of (I := fun s => (s.Slots ∧ s.Whole) ∧ s.Stops) hok
      ⟨⟨slots_init, whole_init⟩, stops_init⟩ fun h hg hst =>
        have hst := steps_of_step hst
        ⟨⟨h.1.1.step hst, h.1.2.step (effect_of_steps h.1.1 hst)⟩, h.2.step h.1.1 h.1.2 hg hst⟩
  exact h.2.kept

/-- The back thread is in front of its critical section. -/
def stopBeforeSwap : List LogAct :=
  [.start, .back "", .back "", .append [1, 2], .stop, .back "", .back "", .back "", .back "",
    .back "", .join]

theorem stopBeforeSwap_kept : ∃ tr s, runAll step (init 4) stopBeforeSwap = some (tr, s) ∧
    s.control = .stopped 1 ∧ s.passed = [[1, 2]] ∧ s.Kept := by
  obtain ⟨tr, s, hrun, hok, hc, hp⟩ : ∃ tr s, runAll step (init 4) stopBeforeSwap = some (tr, s) ∧
      (∀ p ∈ tr, Heard p.1 p.2) ∧ s.control = .stopped 1 ∧ s.passed = [[1, 2]] :=
    exists_computed (by decide)
  exact ⟨tr, s, hrun, hc, hp, stop_keeps_lines (run_of_runAll hrun) hok⟩

/-- The back thread has made its swap when the line is appended. -/
def stopAfterSwap : List LogAct :=
  [.start, .back "", .back "", .back "", .append [1, 2], .stop, .back "", .back "", .back "",
    .back "", .join]

theorem stopAfterSwap_loses : ∃ tr s, runAll step (init 4) stopAfterSwap = some (tr, s) ∧
    s.appended = [[1, 2]] ∧ s.passed = [[]] ∧ s.log.length = 1 ∧ ¬ s.Kept := by
  obtain ⟨tr, s, hrun, hc, ha, hp, hl, hnot⟩ : ∃ tr s,
      runAll step (init 4) stopAfterSwap = some (tr, s) ∧ s.control = .stopped 1 ∧
        s.appended = [[1, 2]] ∧ s.passed = [[]] ∧ s.log.length = 1 ∧
        ¬ (s.appended.take 1).flatten <+: s.processed.flatten :=
    exists_computed (by decide)
  exact ⟨tr, s, hrun, ha, hp, hl, fun h => hnot (h 1 hc)⟩

end AsyncLogger

end Muduo
