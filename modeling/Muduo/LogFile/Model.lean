/-
# `Muduo.LogFile.Model` — base/LogFile.h, base/LogFile.cpp

A log file appends lines to an open file, opens another one when the file has
grown to `rollSize` or a new period has begun, and flushes the stream now and
then.  Of the file only its size matters; what is in it, and its name, are left
out, and so is the mutex: the calls of a run are those of the threads in the
order they hold it.  They come one after the other: `Flush` reads the clock
before it takes the mutex, and no other call is made between the two.

A call is given what it reads from the clock, in seconds, and the size that the
file it opens has already: the file is opened to append to it, and its name has
only the local time to the second and the process, so that it need not be new.
-/
import Mathlib.Algebra.Order.Ring.Int
import Muduo.Basic
import Muduo.Lib.Runs

namespace Muduo

/-- `kPollPerSeconds`. -/
def kPollPerSeconds : ℤ := 60 * 60 * 24

/-- `class LogFile::File`: the bytes in the file. -/
structure LogFile.File where
  size : ℕ
deriving DecidableEq, Repr

namespace LogFile.File

def append (f : File) (size : ℕ) : File := ⟨f.size + size⟩

/-- `Written`: `tellp()` as an `int`. -/
def written (f : File) : ℤ := (BitVec.ofNat 32 f.size).toInt

/-- An `int` has the size of a file that is short enough. -/
theorem written_of_lt {f : File} (h : f.size < 2 ^ 31) : f.written = f.size := by
  have hlt : f.size < 2 ^ 32 := h.trans (by decide)
  rw [written, BitVec.toInt_eq_toNat_cond, BitVec.toNat_ofNat, Nat.mod_eq_of_lt hlt,
    if_pos (by omega)]

end LogFile.File

/-- `class LogFile`. -/
structure LogFile where
  rollSize : ℤ
  flushInterval : ℤ
  checkEveryN : ℤ
  count : ℤ
  lastRoll : ℤ
  lastFlush : ℤ
  latestStartOfPeriod : ℤ
  file : Option LogFile.File
deriving DecidableEq, Repr

/-- What a call does besides writing its line. -/
inductive LogEffect
  /-- Another file was opened. -/
  | roll
  /-- The stream was flushed. -/
  | flush
deriving DecidableEq, Repr

namespace LogFile

/-- `now / kPollPerSeconds * kPollPerSeconds`. -/
def startOfPeriod (now : ℤ) : ℤ := now.tdiv kPollPerSeconds * kPollPerSeconds

/-- `RoolFile`: nothing happens in the second of the last roll. -/
def roolFile (l : LogFile) (now : ℤ) (opened : ℕ) : LogFile × Bool :=
  if now > l.lastRoll then
    ({ l with lastRoll := now, lastFlush := now, latestStartOfPeriod := startOfPeriod now,
              file := some ⟨opened⟩ }, true)
  else (l, false)

/-- A `LogFile` as it is constructed. -/
def new (rollSize flushInterval checkEveryN now : ℤ) (opened : ℕ) : LogFile :=
  (roolFile { rollSize, flushInterval, checkEveryN, count := 0, lastRoll := 0, lastFlush := 0,
              latestStartOfPeriod := 0, file := none } now opened).1

/-- `RoolFile` inside another function. -/
def rollAnd (l : LogFile) (now : ℤ) (opened : ℕ) : LogFile × List LogEffect :=
  let (l, rolled) := l.roolFile now opened
  (l, if rolled then [.roll] else [])

/-- `AppendUnlocked`: `now` is what the check reads, `rollNow` what `RoolFile` reads. -/
def appendUnlocked (l : LogFile) (size : ℕ) (now rollNow : ℤ) (opened : ℕ) :
    Option (LogFile × List LogEffect) := do
  let file ← l.file
  let file := file.append size
  let l := { l with file := some file }
  if file.written ≥ l.rollSize then
    return l.rollAnd rollNow opened
  else
    let l := { l with count := l.count + 1 }
    if l.count ≥ l.checkEveryN then
      let l := { l with count := 0 }
      if startOfPeriod now ≠ l.latestStartOfPeriod then
        return l.rollAnd rollNow opened
      -- `lastFlush_` is not set here
      else if now - l.lastFlush > l.flushInterval then
        return (l, [.flush])
      else
        return (l, [])
    else
      return (l, [])

def flush (l : LogFile) (now : ℤ) : Option LogFile := do
  let _ ← l.file
  return { l with lastFlush := now }

end LogFile

/-- The calls. -/
inductive LogOp
  | append (size : ℕ) (now rollNow : ℤ) (opened : ℕ)
  | flush (now : ℤ)
  | roolFile (now : ℤ) (opened : ℕ)
deriving DecidableEq, Repr

namespace LogOp

/-- The first and the last reading of the clock. -/
def first : LogOp → ℤ
  | .append _ now _ _ | .flush now | .roolFile now _ => now

def last : LogOp → ℤ
  | .append _ _ rollNow _ => rollNow
  | .flush now | .roolFile now _ => now

end LogOp

namespace LogFile

/-- One call; there is no result where no file is open. -/
def exec (l : LogFile) : LogOp → Option (LogFile × List LogEffect)
  | .append size now rollNow opened => l.appendUnlocked size now rollNow opened
  | .flush now => (l.flush now).map (·, [.flush])
  | .roolFile now opened => some (l.rollAnd now opened)

/-! ## What an append does -/

/-- The line takes the file to the limit, as far as `Written` tells. -/
def Full (l : LogFile) (f : File) : Prop := f.written ≥ l.rollSize

/-- The line is one that looks at the clock. -/
def Checks (l : LogFile) (f : File) : Prop := ¬ l.Full f ∧ l.count + 1 ≥ l.checkEveryN

/-- The line asks for a roll. -/
def Rolls (l : LogFile) (f : File) (now : ℤ) : Prop :=
  l.Full f ∨ l.Checks f ∧ startOfPeriod now ≠ l.latestStartOfPeriod

instance (l : LogFile) (f : File) : Decidable (l.Full f) := inferInstanceAs (Decidable (_ ≥ _))

instance (l : LogFile) (f : File) : Decidable (l.Checks f) := inferInstanceAs (Decidable (_ ∧ _))

instance (l : LogFile) (f : File) (now : ℤ) : Decidable (l.Rolls f now) :=
  inferInstanceAs (Decidable (_ ∨ _))

/-- The outcomes, where `f` is the file with the line. -/
inductive Appended (l : LogFile) (f : File) (now rollNow : ℤ) (opened : ℕ) :
    LogFile → List LogEffect → Prop
  | rolled (c : ℤ) (hroll : l.Rolls f now) (hlate : rollNow > l.lastRoll) :
      Appended l f now rollNow opened
        { l with count := c, lastRoll := rollNow, lastFlush := rollNow,
                 latestStartOfPeriod := startOfPeriod rollNow, file := some ⟨opened⟩ } [.roll]
  | refused (c : ℤ) (hroll : l.Rolls f now) (hearly : ¬ rollNow > l.lastRoll) :
      Appended l f now rollNow opened { l with count := c, file := some f } []
  | flushed (hroll : ¬ l.Rolls f now) (hcheck : l.Checks f)
      (hdue : now - l.lastFlush > l.flushInterval) :
      Appended l f now rollNow opened { l with count := 0, file := some f } [.flush]
  | kept (c : ℤ) (hroll : ¬ l.Rolls f now)
      (hnone : ¬ (l.Checks f ∧ now - l.lastFlush > l.flushInterval)) :
      Appended l f now rollNow opened { l with count := c, file := some f } []

variable {l l' : LogFile} {f : File} {size opened : ℕ} {now rollNow : ℤ} {effs : List LogEffect}

theorem rollAnd_of_late (h : now > l.lastRoll) : l.rollAnd now opened =
    ({ l with lastRoll := now, lastFlush := now, latestStartOfPeriod := startOfPeriod now,
              file := some ⟨opened⟩ }, [.roll]) := by
  rw [rollAnd, roolFile, if_pos h]
  rfl

theorem rollAnd_of_early (h : ¬ now > l.lastRoll) : l.rollAnd now opened = (l, []) := by
  rw [rollAnd, roolFile, if_neg h]
  rfl

theorem appended_of_rollAnd {c : ℤ} (hroll : l.Rolls f now)
    (h : rollAnd { l with count := c, file := some f } rollNow opened = (l', effs)) :
    Appended l f now rollNow opened l' effs := by
  by_cases hlate : rollNow > l.lastRoll
  · rw [rollAnd_of_late (by exact hlate)] at h
    obtain ⟨rfl, rfl⟩ := Prod.mk.inj h
    exact .rolled c hroll hlate
  · rw [rollAnd_of_early (by exact hlate)] at h
    obtain ⟨rfl, rfl⟩ := Prod.mk.inj h
    exact .refused c hroll hlate

/-- The outcomes are all there are. -/
theorem append_cases (h : l.appendUnlocked size now rollNow opened = some (l', effs)) :
    ∃ f, l.file = some f ∧ Appended l (f.append size) now rollNow opened l' effs := by
  obtain ⟨f, hf, h⟩ := Option.bind_eq_some_iff.mp h
  refine ⟨f, hf, ?_⟩
  dsimp only at h
  split at h
  · next hfull => exact appended_of_rollAnd (c := l.count) (.inl hfull) (Option.some.inj h)
  · next hfull =>
      split at h
      · next hcount =>
          have hcheck : l.Checks (f.append size) := ⟨hfull, hcount⟩
          split at h
          · next hnew =>
              exact appended_of_rollAnd (c := 0) (.inr ⟨hcheck, hnew⟩) (Option.some.inj h)
          · next hnew =>
              have hroll : ¬ l.Rolls (f.append size) now := not_or.mpr ⟨hfull, fun hr => hnew hr.2⟩
              split at h
              · next hdue =>
                  obtain ⟨rfl, rfl⟩ := Prod.mk.inj (Option.some.inj h)
                  exact .flushed hroll hcheck hdue
              · next hdue =>
                  obtain ⟨rfl, rfl⟩ := Prod.mk.inj (Option.some.inj h)
                  exact .kept 0 hroll fun hc => hdue hc.2
      · next hcount =>
          have hcheck : ¬ l.Checks (f.append size) := fun hc => hcount hc.2
          obtain ⟨rfl, rfl⟩ := Prod.mk.inj (Option.some.inj h)
          refine .kept (l.count + 1) (not_or.mpr ⟨hfull, fun hr => hcheck hr.1⟩) fun hc => ?_
          exact hcheck hc.1

end LogFile

end Muduo
