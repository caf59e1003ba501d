/-
# `Muduo.LogFile.RollSize` — is a log file shorter than `rollSize`?

A line that takes the file to the limit rolls it, unless it is written in the
second of the last roll; so after a line of a later second the file should be
short again.  What is compared with the limit is an `int` that has the low 32
bits of the size.  A file of 2 GiB or more looks shorter than it is, or negative,
and no file ever looks as long as a limit that is not an `int`.
-/
import Muduo.LogFile.Model

namespace Muduo.LogFile

open Runs

/-- The file is shorter than the limit. -/
def Shorter (l : LogFile) : Prop := ∃ f ∈ l.file, (f.size : ℤ) < l.rollSize

/-- A line of a later second than the last roll. -/
def Late (l : LogFile) : LogOp → Prop
  | .append _ now _ _ => l.lastRoll < now
  | .flush _ | .roolFile _ _ => False

/-- After a line of a later second than the last roll the file is shorter than the limit. -/
def RespectsRollSize (l : LogFile) (op : LogOp) : Prop := l.Late op → ∀ r ∈ l.exec op, r.1.Shorter

/-- A line of a later second asks for a roll if the file is as long as the limit, and what
a roll opens is shorter. -/
def RollsInTime (l : LogFile) : LogOp → Prop
  | .append size now _ opened => l.lastRoll < now → ∀ f ∈ l.file,
      (l.rollSize ≤ (f.append size).size → l.Rolls (f.append size) now) ∧
      (l.Rolls (f.append size) now → opened < l.rollSize)
  | .flush _ | .roolFile _ _ => True

instance (l : LogFile) : Decidable l.Shorter := inferInstanceAs (Decidable (∃ f ∈ l.file, _))

instance (l : LogFile) : (op : LogOp) → Decidable (l.Late op)
  | .append _ _ _ _ => inferInstanceAs (Decidable (_ < _))
  | .flush _ | .roolFile _ _ => inferInstanceAs (Decidable False)

instance (l : LogFile) (op : LogOp) : Decidable (l.RespectsRollSize op) :=
  inferInstanceAs (Decidable (_ → ∀ r ∈ l.exec op, _))

instance (l : LogFile) : (op : LogOp) → Decidable (l.RollsInTime op)
  | .append _ _ _ _ => inferInstanceAs (Decidable (_ → ∀ f ∈ l.file, _ ∧ _))
  | .flush _ | .roolFile _ _ => inferInstanceAs (Decidable True)

variable {l l' : LogFile} {effs : List LogEffect} {f : File} {size opened : ℕ} {now rollNow : ℤ}

/-- Nothing is wrong with a file below 2 GiB. -/
theorem rollsInTime_of_small (hsmall : ∀ f ∈ l.file, f.size + size < 2 ^ 31)
    (hopened : opened < l.rollSize) : l.RollsInTime (.append size now rollNow opened) := by
  intro _ f hf
  refine ⟨fun hlong => .inl ?_, fun _ => hopened⟩
  have hwritten : (f.append size).written = (f.append size).size :=
    File.written_of_lt (hsmall f hf)
  show (f.append size).written ≥ l.rollSize
  rw [hwritten]
  exact hlong

theorem shorter_iff (hf : l.file = some f) : l.Shorter ↔ (f.size : ℤ) < l.rollSize := by
  constructor
  · rintro ⟨g, hg, hlt⟩
    obtain rfl := Option.some.inj (hf.symm.trans hg)
    exact hlt
  · exact fun hlt => ⟨f, hf, hlt⟩

/-- A late line leaves a short file exactly when it rolls in time. -/
theorem Appended.shorter_iff (h : Appended l f now rollNow opened l' effs)
    (hlate : rollNow > l.lastRoll) : l'.Shorter ↔
      (l.rollSize ≤ f.size → l.Rolls f now) ∧ (l.Rolls f now → opened < l.rollSize) := by
  have hkept : ∀ c, ¬ l.Rolls f now → (Shorter { l with count := c, file := some f } ↔
      (l.rollSize ≤ f.size → l.Rolls f now) ∧ (l.Rolls f now → opened < l.rollSize)) := by
    intro c hroll
    rw [LogFile.shorter_iff rfl]
    constructor
    · intro hlt
      exact ⟨fun hle => absurd hlt (not_lt.mpr hle), fun h => absurd h hroll⟩
    · intro h
      exact not_le.mp fun hle => hroll (h.1 hle)
  cases h with
  | rolled c hroll _ =>
      rw [LogFile.shorter_iff rfl]
      exact ⟨fun hlt => ⟨fun _ => hroll, fun _ => hlt⟩, fun h => h.2 hroll⟩
  | refused c _ hearly => exact absurd hlate hearly
  | flushed hroll _ _ => exact hkept 0 hroll
  | kept c hroll _ => exact hkept c hroll

theorem respectsRollSize_iff {op : LogOp} (hclock : op.first ≤ op.last)
    (h : l.exec op = some (l', effs)) : l.RespectsRollSize op ↔ l.RollsInTime op := by
  cases op with
  | flush now => exact iff_of_true (fun h => h.elim) trivial
  | roolFile now opened => exact iff_of_true (fun h => h.elim) trivial
  | append size now rollNow opened =>
      obtain ⟨f, hf, happ⟩ := append_cases h
      have hiff := fun hlate => happ.shorter_iff (lt_of_lt_of_le hlate hclock)
      constructor
      · intro hr hlate g hg
        obtain rfl := Option.some.inj (hf.symm.trans hg)
        exact (hiff hlate).mp (hr hlate _ h)
      · intro hr hlate r hexec
        obtain rfl := Option.some.inj (h.symm.trans hexec)
        exact (hiff hlate).mpr (hr hlate f hf)

/-- Through a run the lines of later seconds leave files shorter than the limit exactly when
they all roll in time. -/
theorem roll_size_respected_iff {rollSize flushInterval checkEveryN now : ℤ} {opened : ℕ}
    {tr : List (LogFile × (LogOp × List LogEffect))}
    (hr : Run (stepOut exec) (new rollSize flushInterval checkEveryN now opened) tr l)
    (hclock : ∀ p ∈ tr, p.2.1.first ≤ p.2.1.last) :
    (∀ p ∈ tr, p.1.RespectsRollSize p.2.1) ↔ ∀ p ∈ tr, p.1.RollsInTime p.2.1 :=
  hr.forall_congr (I := fun _ => True) (C := fun _ a => a.1.first ≤ a.1.last)
    (G := fun l a => l.RespectsRollSize a.1) (H := fun l a => l.RollsInTime a.1) hclock trivial
    (fun _ _ _ => trivial) fun _ hc hst => respectsRollSize_iff hc hst

/-- Two lines in the second of the first roll; then a roll by size, a flush, a refused roll
and another one by the day. -/
def daysOfLines : List LogOp :=
  [.append 60 100 100 0, .append 60 100 100 0, .append 10 101 101 0, .append 60 105 105 0,
    .append 90 105 106 0, .append 10 86400 86401 0]

theorem daysOfLines_respected : ∃ tr l,
    runOut exec (new 100 3 1 100 0) daysOfLines = some (tr, l) ∧
      (tr.map fun p => p.2.2) = [[], [], [.roll], [.flush], [.roll], [.roll]] ∧
      (∀ p ∈ tr, p.1.RespectsRollSize p.2.1) := by
  obtain ⟨tr, l, hrun, hclock, hin, heffs⟩ : ∃ tr l,
      runOut exec (new 100 3 1 100 0) daysOfLines = some (tr, l) ∧
        (∀ p ∈ tr, p.2.1.first ≤ p.2.1.last) ∧ (∀ p ∈ tr, p.1.RollsInTime p.2.1) ∧
        (tr.map fun p => p.2.2) = [[], [], [.roll], [.flush], [.roll], [.roll]] :=
    exists_computed (by decide)
  exact ⟨tr, l, hrun, heffs, (roll_size_respected_iff (run_of_runOut hrun) hclock).mpr hin⟩

/-- Two lines of 1 GiB, in later seconds than the roll. -/
def twoGiB : List LogOp := [.append (2 ^ 30) 101 101 0, .append (2 ^ 30) 102 102 0]

/-- With a limit of 2 GiB the file is as long as the limit, and `Written` is negative. -/
theorem twoGiB_not_rolled : ∃ tr l,
    runOut exec (new (2 ^ 31) 3 1024 100 0) twoGiB = some (tr, l) ∧
      (∀ p ∈ tr, p.2.1.first ≤ p.2.1.last) ∧ l.file = some ⟨2 ^ 31⟩ ∧ l.rollSize = 2 ^ 31 ∧
      File.written ⟨2 ^ 31⟩ = -2 ^ 31 ∧ ¬ ∀ p ∈ tr, p.1.RespectsRollSize p.2.1 :=
  exists_computed (by decide +kernel)

end Muduo.LogFile
