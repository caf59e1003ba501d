/-
# `Muduo.AsyncLog.Drops` — what the log says of a batch that is too large

From a batch of more than 25 buffers the back thread writes the first two and drops
the others; before that it writes how many.  So the log is no longer all that was
appended, but it is still honest:

    written     whole lines, in the order in which they were appended, none twice
    messages    each from a batch of more than 25, with the number of buffers dropped
    dropped     as many buffers as the messages say

(`drops_are_told`).
-/
import Mathlib.Algebra.Ring.Nat
import Muduo.AsyncLog.Queue

namespace Muduo

open Chunks Runs

namespace Record

/-- A buffer that was written. -/
def written? : Record → Option (List Byte)
  | written data => some data
  | dropped _ | message _ => none

def message? : Record → Option (List Byte)
  | message text => some text
  | written _ | dropped _ => none

def isDropped : Record → Bool
  | dropped _ => true
  | written _ | message _ => false

/-- The buffers that were written are among those of the batches. -/
theorem written_sublist (log : List Record) :
    (log.filterMap written?).Sublist (log.filterMap buffer?) := by
  induction log with
  | nil => exact .slnil
  | cons r log ih =>
      cases r with
      | written data => exact ih.cons_cons data
      | dropped data => exact ih.cons data
      | message text => exact ih

end Record

namespace AsyncLogger

variable {SIZE : ℕ} {s s' : AsyncLogger SIZE} {a : LogAct}
  {tr : List (AsyncLogger SIZE × LogAct)} {batches : List (String × ℕ)}

/-- The buffers that have been written. -/
def written (s : AsyncLogger SIZE) : List (List Byte) := s.log.filterMap Record.written?

/-- The number of buffers that have been dropped. -/
def drops (s : AsyncLogger SIZE) : ℕ := s.log.countP Record.isDropped + s.erased.length

/-- The batches that were too large, with the time and the number of their buffers: the messages
in the log are theirs, and the buffers dropped are all but two of each. -/
structure Told (batches : List (String × ℕ)) (s : AsyncLogger SIZE) : Prop where
  messages : s.log.filterMap Record.message? = batches.map fun b => dropMessage b.1 b.2
  large : ∀ b ∈ batches, 25 < b.2
  drops : s.drops = (batches.map fun b => b.2 - 2).sum

theorem told_init : Told [] (init SIZE) := ⟨rfl, List.forall_mem_nil _, rfl⟩

theorem Told.of_eq (h : Told batches s) (hl : s'.log = s.log) (he : s'.erased = s.erased) :
    Told batches s' := by
  refine ⟨?_, h.large, ?_⟩
  · rw [hl]
    exact h.messages
  · rw [AsyncLogger.drops, hl, he]
    exact h.drops

/-- The records that a batch leaves at its end. -/
theorem Told.recycled (h : Told batches s) :
    Told batches { s with erased := [], log := s.log ++ s.dropRecords } := by
  have hmsg : s.dropRecords.filterMap Record.message? = [] := by
    rw [dropRecords, List.filterMap_map]
    exact List.filterMap_eq_nil_iff.mpr fun _ _ => rfl
  have hdrop : s.dropRecords.countP Record.isDropped = s.erased.length := by
    rw [dropRecords, List.countP_map]
    exact List.countP_eq_length.mpr fun _ _ => rfl
  refine ⟨?_, h.large, ?_⟩
  · rw [List.filterMap_append, hmsg, List.append_nil]
    exact h.messages
  · rw [AsyncLogger.drops, List.countP_append, hdrop]
    exact h.drops

theorem told_back (w : s.Slots) (h : Told batches s) :
    BackStep s s' → ∃ batches', Told batches' s' := by
  intro hst
  cases hst with
  | begin | enter | leave | wait => exact ⟨batches, h.of_eq rfl rfl⟩
  | swap hp hst =>
      obtain ⟨b, next, new2, -, -, rfl⟩ := swap_cases hst
      exact ⟨batches, h.of_eq rfl rfl⟩
  | limit now hp =>
      obtain ⟨-, -, -, he⟩ : s.Locals .swapped := hp ▸ w.locals
      rw [limit]
      split
      · next hlt =>
          refine ⟨batches ++ [(now, s.buffersToWrite.length)], ?_, ?_, ?_⟩
          · rw [List.filterMap_append, List.map_append, h.messages]
            rfl
          · exact List.forall_mem_append.mpr ⟨h.large, List.forall_mem_singleton.mpr hlt⟩
          · have hd := h.drops
            rw [AsyncLogger.drops, he, List.length_nil, Nat.add_zero] at hd
            rw [AsyncLogger.drops, List.countP_append, List.length_drop, List.map_append,
              List.sum_append, ← hd]
            rfl
      · exact ⟨batches, h.of_eq rfl rfl⟩
  | write i buf hp hi =>
      refine ⟨batches, ?_, h.large, ?_⟩
      · rw [List.filterMap_append, ← h.messages]
        exact List.append_nil _
      · rw [AsyncLogger.drops, List.countP_append, ← h.drops]
        rfl
  | recycle i hp hi hst =>
      obtain ⟨b₁, b₂, -, -, rfl⟩ := recycle_cases hst
      exact ⟨batches, h.recycled.of_eq rfl rfl⟩

theorem told_step (w : s.Slots) (h : Told batches s) :
    Steps s a s' → ∃ batches', Told batches' s' := by
  intro hst
  cases hst with
  | append line hst =>
      rcases append_cases w hst with ⟨-, rfl⟩ | ⟨b, -, rfl⟩
      · exact ⟨batches, h.of_eq rfl rfl⟩
      · exact ⟨batches, h.of_eq rfl rfl⟩
  | started => exact ⟨batches, h⟩
  | start | stop | stopped | join => exact ⟨batches, h.of_eq rfl rfl⟩
  | wake timeout hst => exact told_back w h hst
  | back now hst => exact told_back w h hst

/-- In every run, with batches of any size, the buffers that were written are whole lines in the
order in which they were appended, none twice, and the numbers in the messages add up to the
number of buffers that were dropped. -/
theorem drops_are_told (hr : Run (stepOf step) (init SIZE) tr s) :
    (∃ kept, kept.Sublist s.appended ∧ Cuts s.written kept) ∧
      ∃ batches : List (String × ℕ),
        s.log.filterMap Record.message? = (batches.map fun b => dropMessage b.1 b.2) ∧
          (∀ b ∈ batches, 25 < b.2) ∧ s.drops = (batches.map fun b => b.2 - 2).sum := by
  constructor
  · refine Cuts.sublist (whole_of_run hr) ?_
    rw [taken, List.append_assoc]
    exact (Record.written_sublist s.log).trans (List.sublist_append_left _ _)
  · have h : s.Slots ∧ ∃ batches, Told batches s := by
      refine hr.invariant (I := fun s => s.Slots ∧ ∃ batches, Told batches s)
        ⟨slots_init, [], told_init⟩ ?_
      rintro t a u ⟨w, batches, h⟩ hst
      exact ⟨w.step (steps_of_step hst), told_step w h (steps_of_step hst)⟩
    obtain ⟨-, batches, h⟩ := h
    exact ⟨batches, h.messages, h.large, h.drops⟩

/-- Twenty-seven lines, each in a buffer of its own. -/
def tooMany : List LogAct :=
  .start :: List.replicate 27 (.append [1, 2, 3]) ++
    [.back "", .back "", .back "", .wake true, .back "", .back "", .back "", .back ""]

theorem tooMany_told : ∃ tr s, runAll step (init 4) tooMany = some (tr, s) ∧
    s.written = [[1, 2, 3], [1, 2, 3]] ∧ (∃ kept, kept.Sublist s.appended ∧ Cuts s.written kept) ∧
      ∃ batches : List (String × ℕ), (∀ b ∈ batches, 25 < b.2) ∧
        25 = (batches.map fun b => b.2 - 2).sum := by
  obtain ⟨tr, s, hrun, hw, hd⟩ : ∃ tr s, runAll step (init 4) tooMany = some (tr, s) ∧
      s.written = [[1, 2, 3], [1, 2, 3]] ∧ s.drops = 25 :=
    exists_computed (by decide +kernel)
  obtain ⟨hkept, batches, -, hlarge, hsum⟩ := drops_are_told (run_of_runAll hrun)
  exact ⟨tr, s, hrun, hw, hkept, batches, hlarge, hd.symm.trans hsum⟩

end AsyncLogger

end Muduo
