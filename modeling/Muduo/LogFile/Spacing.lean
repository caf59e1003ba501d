/-
# `Muduo.LogFile.Spacing` — how far apart are the flushes?

An append that looks at the clock flushes when more than `flushInterval` seconds
have passed since `lastFlush`.  `Flush` and `RoolFile` set that, the automatic
flush does not: after one every look at the clock flushes again, until the next
`Flush` or roll.

A session remembers the latest flush or roll and, when it was an automatic
flush, that it was.
-/
import Muduo.LogFile.Model

namespace Muduo

open Runs

/-- A log file with the latest reading of the clock, the time of the latest flush or roll,
and the latest automatic flush if nothing has set `lastFlush` since. -/
structure LogSession where
  log : LogFile
  clock : ℤ
  latest : ℤ
  auto : Option ℤ
deriving DecidableEq, Repr

namespace LogSession

/-- The session after a call with these effects. -/
def note (s : LogSession) (log : LogFile) (op : LogOp) (effs : List LogEffect) : LogSession :=
  let s := { s with log, clock := op.last }
  match op, effs with
  | _, [] => s
  | .append _ now _ _, [.flush] => { s with latest := now, auto := some now }
  | op, _ => { s with latest := op.last, auto := none }

def exec (s : LogSession) (op : LogOp) : Option LogSession := do
  let (log, effs) ← s.log.exec op
  return s.note log op effs

def init (rollSize flushInterval checkEveryN now : ℤ) (opened : ℕ) : LogSession :=
  let log := LogFile.new rollSize flushInterval checkEveryN now opened
  { log, clock := now, latest := log.lastFlush, auto := none }

/-- The clock does not go back. -/
def InOrder (s : LogSession) (op : LogOp) : Prop := s.clock ≤ op.first ∧ op.first ≤ op.last

/-- An automatic flush comes more than `flushInterval` seconds after the latest flush or roll. -/
def Spaced (s : LogSession) : LogOp → Prop
  | .append size now rollNow opened => ∀ r ∈ s.log.exec (.append size now rollNow opened),
      r.2 = [.flush] → now - s.latest > s.log.flushInterval
  | .flush _ | .roolFile _ _ => True

/-- An append does not look at the clock, without a roll, within `flushInterval` seconds of an
automatic flush that no `Flush` and no roll has followed. -/
def Unhurried (s : LogSession) : LogOp → Prop
  | .append size now _ _ => ∀ t ∈ s.auto, ∀ f ∈ s.log.file,
      ¬ s.log.Rolls (f.append size) now → s.log.Checks (f.append size) →
        now - t > s.log.flushInterval
  | .flush _ | .roolFile _ _ => True

instance (s : LogSession) (op : LogOp) : Decidable (s.InOrder op) :=
  inferInstanceAs (Decidable (_ ∧ _))

instance (s : LogSession) : (op : LogOp) → Decidable (s.Spaced op)
  | .append size now rollNow opened =>
      inferInstanceAs (Decidable (∀ r ∈ s.log.exec (.append size now rollNow opened), _ → _))
  | .flush _ | .roolFile _ _ => inferInstanceAs (Decidable True)

instance (s : LogSession) : (op : LogOp) → Decidable (s.Unhurried op)
  | .append _ _ _ _ =>
      inferInstanceAs (Decidable (∀ t ∈ s.auto, ∀ f ∈ s.log.file, _ → _ → _))
  | .flush _ | .roolFile _ _ => inferInstanceAs (Decidable True)

/-- `lastFlush` is the latest flush or roll unless an automatic flush has come after it. -/
structure Recalls (s : LogSession) : Prop where
  fresh : s.auto = none → s.latest = s.log.lastFlush
  stale : ∀ t ∈ s.auto, s.latest = t ∧ t ≤ s.clock ∧ t - s.log.lastFlush > s.log.flushInterval

variable {s s' : LogSession} {op : LogOp}

theorem recalls_init (rollSize flushInterval checkEveryN now : ℤ) (opened : ℕ) :
    (init rollSize flushInterval checkEveryN now opened).Recalls :=
  ⟨fun _ => rfl, nofun⟩

/-- A call without effects keeps what is remembered. -/
theorem Recalls.keep (h : s.Recalls) {log : LogFile} {clock : ℤ} (hclock : s.clock ≤ clock)
    (hlast : log.lastFlush = s.log.lastFlush) (hint : log.flushInterval = s.log.flushInterval) :
    Recalls { s with log, clock } where
  fresh ha := (h.fresh ha).trans hlast.symm
  stale t ht := by
    obtain ⟨hl, hc, hd⟩ := h.stale t ht
    refine ⟨hl, hc.trans hclock, ?_⟩
    rw [hlast, hint]
    exact hd

theorem Recalls.step (h : s.Recalls) (hclock : s.InOrder op) (hst : s.exec op = some s') :
    s'.Recalls := by
  obtain ⟨⟨log, effs⟩, hexec, hst⟩ := Option.bind_eq_some_iff.mp hst
  obtain rfl := Option.some.inj hst
  have hle := hclock.1.trans hclock.2
  cases op with
  | append size now rollNow opened =>
      obtain ⟨f, -, happ⟩ := LogFile.append_cases hexec
      cases happ with
      | rolled c _ _ => exact ⟨fun _ => rfl, nofun⟩
      | refused c _ _ => exact h.keep hle rfl rfl
      | kept c _ _ => exact h.keep hle rfl rfl
      | flushed _ _ hdue =>
          refine ⟨nofun, fun t ht => ?_⟩
          obtain rfl := Option.some.inj ht
          exact ⟨rfl, hclock.2, hdue⟩
  | flush now =>
      obtain ⟨l, hl, hp⟩ := Option.map_eq_some_iff.mp hexec
      obtain ⟨rfl, rfl⟩ := Prod.mk.inj hp
      obtain ⟨_, -, hl⟩ := Option.bind_eq_some_iff.mp hl
      obtain rfl := Option.some.inj hl
      exact ⟨fun _ => rfl, nofun⟩
  | roolFile now opened =>
      have hroll : s.log.rollAnd now opened = (log, effs) := Option.some.inj hexec
      by_cases hlate : now > s.log.lastRoll
      · rw [LogFile.rollAnd_of_late hlate] at hroll
        obtain ⟨rfl, rfl⟩ := Prod.mk.inj hroll
        exact ⟨fun _ => rfl, nofun⟩
      · rw [LogFile.rollAnd_of_early hlate] at hroll
        obtain ⟨rfl, rfl⟩ := Prod.mk.inj hroll
        exact h.keep hle rfl rfl

/-- One append: after an automatic flush every look at the clock flushes, before it the
interval is kept. -/
theorem Recalls.spaced_iff (h : s.Recalls) (hclock : s.InOrder op) (hst : s.exec op = some s') :
    s.Spaced op ↔ s.Unhurried op := by
  obtain ⟨⟨log, effs⟩, hexec, -⟩ := Option.bind_eq_some_iff.mp hst
  cases op with
  | flush now => exact Iff.rfl
  | roolFile now opened => exact Iff.rfl
  | append size now rollNow opened =>
      obtain ⟨f, hf, happ⟩ := LogFile.append_cases hexec
      constructor
      · intro hs t ht g hg hroll hcheck
        obtain rfl := Option.some.inj (hf.symm.trans hg)
        obtain ⟨hlatest, hle, hdue⟩ := h.stale t ht
        have hnow : t ≤ now := hle.trans hclock.1
        -- the check finds `lastFlush` even longer ago than the automatic flush did
        have hflush : effs = [.flush] := by
          cases happ with
          | rolled c hr _ => exact absurd hr hroll
          | refused c hr _ => exact absurd hr hroll
          | flushed _ _ _ => rfl
          | kept c _ hnone => exact absurd ⟨hcheck, by omega⟩ hnone
        have hspaced := hs (log, effs) hexec hflush
        rwa [hlatest] at hspaced
      · intro hu r hr hflush
        obtain rfl := Option.some.inj (hexec.symm.trans hr)
        cases happ with
        | rolled c _ _ => cases hflush
        | refused c _ _ => cases hflush
        | kept c _ _ => cases hflush
        | flushed hroll hcheck hdue =>
            cases ha : s.auto with
            | none =>
                rw [h.fresh ha]
                exact hdue
            | some t =>
                rw [(h.stale t ha).1]
                exact hu t ha f hf hroll hcheck

/-- Through a run the automatic flushes are more than `flushInterval` seconds apart from the
latest flush or roll exactly when no append looks at the clock sooner than that after an
automatic flush. -/
theorem flushes_spaced_iff {rollSize flushInterval checkEveryN now : ℤ} {opened : ℕ}
    {tr : List (LogSession × LogOp)}
    (hr : Run (stepOf exec) (init rollSize flushInterval checkEveryN now opened) tr s)
    (hclock : ∀ p ∈ tr, p.1.InOrder p.2) :
    (∀ p ∈ tr, p.1.Spaced p.2) ↔ ∀ p ∈ tr, p.1.Unhurried p.2 :=
  hr.forall_congr (I := Recalls) hclock (recalls_init ..) (fun h hc hst => h.step hc hst)
    fun h hc hst => h.spaced_iff hc hst

/-- Flushes of all kinds, each long enough after the one before; the last append follows the
automatic flush, but a `Flush` has come between them. -/
def slowLines : List LogOp :=
  [.append 10 101 101 0, .append 10 104 104 0, .append 10 108 108 0, .flush 109,
    .append 10 110 110 0, .append 10 113 113 0]

theorem slowLines_spaced : ∃ tr s, runAll exec (init 1000 3 1 100 0) slowLines = some (tr, s) ∧
    s.latest = 113 ∧ s.auto = some 113 ∧ ∀ p ∈ tr, p.1.Spaced p.2 := by
  obtain ⟨tr, s, hrun, hclock, hu, hlatest, hauto⟩ : ∃ tr s,
      runAll exec (init 1000 3 1 100 0) slowLines = some (tr, s) ∧
        (∀ p ∈ tr, p.1.InOrder p.2) ∧ (∀ p ∈ tr, p.1.Unhurried p.2) ∧
        s.latest = 113 ∧ s.auto = some 113 :=
    exists_computed (by decide)
  exact ⟨tr, s, hrun, hlatest, hauto, (flushes_spaced_iff (run_of_runAll hrun) hclock).mpr hu⟩

/-- A line a second, with the default interval of three seconds. -/
def lineASecond : List LogOp := [.append 10 104 104 0, .append 10 105 105 0]

/-- Both lines flush, one second apart. -/
theorem lineASecond_flushes_twice : ∃ tr s,
    runAll exec (init 1000 3 1 100 0) lineASecond = some (tr, s) ∧
      (∀ p ∈ tr, p.1.InOrder p.2) ∧ (tr.map fun p => p.1.latest) = [100, 104] ∧
      s.latest = 105 ∧ s.log.lastFlush = 100 ∧ ¬ ∀ p ∈ tr, p.1.Spaced p.2 :=
  exists_computed (by decide)

end LogSession

end Muduo
