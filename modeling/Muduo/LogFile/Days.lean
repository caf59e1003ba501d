/-
# `Muduo.LogFile.Days` — which lines are in a file of another day?

A file belongs to the day in which it was opened.  That the day is over is seen
by the line that looks at the clock, and not every line does: `checkEveryN` of
them may go by.  A line that takes the file to the limit does not count, but
rolls, and the first of a new day cannot be refused.

A line that is written on another day than that of the file is a stray.  A day
keeps those of the open file, and of each file that was closed.
-/
import Muduo.LogFile.Spacing

namespace Muduo

open Runs

namespace LogFile

variable {l l' : LogFile} {f : File} {size opened : ℕ} {now rollNow t : ℤ} {effs : List LogEffect}

theorem startOfPeriod_mono (h : now ≤ t) : startOfPeriod now ≤ startOfPeriod t :=
  Int.mul_le_mul_of_nonneg_right (Int.tdiv_le_tdiv (by decide) h) (by decide)

/-- The line is of another day than the file. -/
def Stray (l : LogFile) (now : ℤ) : Prop := startOfPeriod now ≠ l.latestStartOfPeriod

instance (l : LogFile) (now : ℤ) : Decidable (l.Stray now) := inferInstanceAs (Decidable (_ ≠ _))

/-- A roll, made or refused, leaves the counter as it is. -/
theorem rollAnd_count (h : l.rollAnd now opened = (l', effs)) :
    l'.checkEveryN = l.checkEveryN ∧ l'.count = l.count := by
  by_cases hlate : now > l.lastRoll
  · rw [rollAnd_of_late hlate] at h
    exact (Prod.mk.inj h).1 ▸ ⟨rfl, rfl⟩
  · rw [rollAnd_of_early hlate] at h
    exact (Prod.mk.inj h).1 ▸ ⟨rfl, rfl⟩

/-- The counter goes on with each line that does not take the file to the limit. -/
theorem appendUnlocked_count (hf : l.file = some f)
    (h : l.appendUnlocked size now rollNow opened = some (l', effs)) :
    l'.checkEveryN = l.checkEveryN ∧ l'.count =
      if l.Full (f.append size) then l.count
      else if l.Checks (f.append size) then 0 else l.count + 1 := by
  simp only [appendUnlocked, hf, Option.bind_eq_bind, Option.bind_some] at h
  by_cases hfull : l.Full (f.append size)
  · rw [if_pos (show (f.append size).written ≥ l.rollSize from hfull)] at h
    rw [if_pos hfull]
    exact rollAnd_count (l := { l with file := some (f.append size) }) (Option.some.inj h)
  · rw [if_neg (show ¬ (f.append size).written ≥ l.rollSize from hfull)] at h
    rw [if_neg hfull]
    by_cases hcount : l.count + 1 ≥ l.checkEveryN
    · rw [if_pos hcount] at h
      rw [if_pos (show l.Checks (f.append size) from ⟨hfull, hcount⟩)]
      split at h
      · exact rollAnd_count (l := { l with count := 0, file := some (f.append size) })
          (Option.some.inj h)
      · split at h <;> exact (Prod.mk.inj (Option.some.inj h)).1 ▸ ⟨rfl, rfl⟩
    · rw [if_neg hcount] at h
      rw [if_neg fun hc => hcount hc.2]
      exact (Prod.mk.inj (Option.some.inj h)).1 ▸ ⟨rfl, rfl⟩

end LogFile

/-- A log file with the latest reading of the clock, the strays in the open file and those
in the files before it. -/
structure LogDays where
  log : LogFile
  clock : ℤ
  strays : ℕ
  closed : List ℕ
deriving DecidableEq, Repr

namespace LogDays

/-- The strays of the open file with the line of the call. -/
def written (s : LogDays) : LogOp → ℕ
  | .append _ now _ _ => s.strays + if s.log.Stray now then 1 else 0
  | .flush _ | .roolFile _ _ => s.strays

/-- The days after a call with these effects. -/
def note (s : LogDays) (log : LogFile) (op : LogOp) (effs : List LogEffect) : LogDays :=
  if .roll ∈ effs then
    { log, clock := op.last, strays := 0, closed := s.closed ++ [s.written op] }
  else { s with log, clock := op.last, strays := s.written op }

def exec (s : LogDays) (op : LogOp) : Option LogDays := do
  let (log, effs) ← s.log.exec op
  return s.note log op effs

def init (rollSize flushInterval checkEveryN now : ℤ) (opened : ℕ) : LogDays :=
  { log := LogFile.new rollSize flushInterval checkEveryN now opened
    clock := now, strays := 0, closed := [] }

/-- The clock does not go back. -/
def InOrder (s : LogDays) (op : LogOp) : Prop := s.clock ≤ op.first ∧ op.first ≤ op.last

instance (s : LogDays) (op : LogOp) : Decidable (s.InOrder op) :=
  inferInstanceAs (Decidable (_ ∧ _))

/-- What is known of a log file and of the latest reading of the clock: a file that is open
belongs to the day of the last roll, and the counter has counted its strays. -/
structure Counts (bound : ℤ) (s : LogDays) : Prop where
  bounded : max 1 s.log.checkEveryN = bound
  opened : s.log.file.isSome → s.log.lastRoll ≤ s.clock ∧
    s.log.latestStartOfPeriod = LogFile.startOfPeriod s.log.lastRoll
  counted : (s.strays : ℤ) ≤ s.log.count
  count_lt : s.log.count < bound
  dayOver : 0 < s.strays → s.log.latestStartOfPeriod < LogFile.startOfPeriod s.clock
  closed : ∀ n ∈ s.closed, (n : ℤ) ≤ bound

variable {s s' : LogDays} {op : LogOp} {bound : ℤ}

theorem counts_init (rollSize flushInterval checkEveryN now : ℤ) (opened : ℕ) :
    (init rollSize flushInterval checkEveryN now opened).Counts (max 1 checkEveryN) := by
  by_cases h : now > 0
  · refine ⟨?_, ?_, ?_, ?_, fun h => absurd h (lt_irrefl 0), List.forall_mem_nil _⟩
    all_goals rw [init, LogFile.new, LogFile.roolFile, if_pos h]
    · exact fun _ => ⟨le_rfl, rfl⟩
    · exact le_rfl
    · exact lt_max_of_lt_left one_pos
  · refine ⟨?_, ?_, ?_, ?_, fun h => absurd h (lt_irrefl 0), List.forall_mem_nil _⟩
    all_goals rw [init, LogFile.new, LogFile.roolFile, if_neg h]
    · exact fun hf => Bool.noConfusion hf
    · exact le_rfl
    · exact lt_max_of_lt_left one_pos

/-- A line of the file's own day finds no stray before it. -/
theorem Counts.no_strays (h : s.Counts bound) {now : ℤ} (hclock : s.clock ≤ now)
    (hday : ¬ s.log.Stray now) : s.strays = 0 := by
  by_contra hpos
  have hover := h.dayOver (Nat.pos_of_ne_zero hpos)
  have hle := LogFile.startOfPeriod_mono hclock
  rw [not_not.mp hday] at hle
  exact absurd hover (not_lt.mpr hle)

/-- A stray is of a later day than the file, and comes later than the last roll. -/
theorem Counts.stray_late (h : s.Counts bound) {now : ℤ} (hopen : s.log.file.isSome)
    (hclock : s.clock ≤ now) (hs : s.log.Stray now) :
    s.log.latestStartOfPeriod < LogFile.startOfPeriod now ∧ s.log.lastRoll < now := by
  obtain ⟨hroll, hday⟩ := h.opened hopen
  have hle := LogFile.startOfPeriod_mono (hroll.trans hclock)
  refine ⟨lt_of_le_of_ne (hday ▸ hle) hs.symm, lt_of_le_of_ne (hroll.trans hclock) ?_⟩
  intro heq
  exact hs (heq ▸ hday).symm

theorem Counts.count_nonneg (h : s.Counts bound) : 0 ≤ s.log.count :=
  (Int.natCast_nonneg _).trans h.counted

theorem Counts.bound_pos (h : s.Counts bound) : 0 < bound := by
  rw [← h.bounded]
  exact lt_max_of_lt_left one_pos

/-- A line adds one stray at most. -/
theorem written_le (s : LogDays) : (op : LogOp) → s.written op ≤ s.strays + 1
  | .append size now rollNow opened => by
      rw [written]
      split <;> omega
  | .flush now | .roolFile now opened => Nat.le_succ _

theorem Counts.written_le (h : s.Counts bound) (op : LogOp) : (s.written op : ℤ) ≤ bound := by
  have hle := h.counted
  have hlt := h.count_lt
  have hone := s.written_le op
  omega

/-- A roll closes a file, and the next one has no strays. -/
theorem Counts.roll (h : s.Counts bound) {log : LogFile}
    (hevery : s.log.checkEveryN = log.checkEveryN) (hlast : log.lastRoll = op.last)
    (hday : log.latestStartOfPeriod = LogFile.startOfPeriod log.lastRoll)
    (hc : 0 ≤ log.count ∧ log.count < bound) :
    Counts bound
      { log, clock := op.last, strays := 0, closed := s.closed ++ [s.written op] } where
  bounded := hevery ▸ h.bounded
  opened _ := ⟨hlast.le, hday⟩
  counted := hc.1
  count_lt := hc.2
  dayOver hpos := absurd hpos (lt_irrefl 0)
  closed := List.forall_mem_append.mpr
    ⟨h.closed, List.forall_mem_singleton.mpr (h.written_le op)⟩

/-- A line that stays in the file: the counter has gone on if it is a stray. -/
theorem Counts.stay (h : s.Counts bound) {size opened : ℕ} {now rollNow c : ℤ} {f : LogFile.File}
    (hopen : s.log.file.isSome) (hclock : s.InOrder (.append size now rollNow opened))
    (hstray : s.log.Stray now → c = s.log.count + 1) (hc : 0 ≤ c ∧ c < bound) :
    Counts bound { s with log := { s.log with count := c, file := some f }, clock := rollNow,
                          strays := s.written (.append size now rollNow opened) } := by
  obtain ⟨hroll, hday⟩ := h.opened hopen
  have hle := hroll.trans (hclock.1.trans hclock.2)
  by_cases hs : s.log.Stray now
  · have hlater := (h.stray_late hopen hclock.1 hs).1
    refine ⟨h.bounded, fun _ => ⟨hle, hday⟩, ?_, hc.2, fun _ => ?_, h.closed⟩
    · have hle := h.counted
      simp only [written, if_pos hs, hstray hs]
      omega
    · exact lt_of_lt_of_le hlater (LogFile.startOfPeriod_mono hclock.2)
  · have hnone := h.no_strays hclock.1 hs
    have hwritten : s.written (.append size now rollNow opened) = 0 := by
      rw [written, if_neg hs, hnone]
    refine ⟨h.bounded, fun _ => ⟨hle, hday⟩, ?_, hc.2, fun hpos => ?_, h.closed⟩
    · rw [hwritten]
      exact hc.1
    · rw [hwritten] at hpos
      exact absurd hpos (lt_irrefl 0)

theorem Counts.append (h : s.Counts bound) {size opened : ℕ} {now rollNow : ℤ} {log : LogFile}
    {effs : List LogEffect} (hclock : s.InOrder (.append size now rollNow opened))
    (hexec : s.log.appendUnlocked size now rollNow opened = some (log, effs)) :
    (s.note log (.append size now rollNow opened) effs).Counts bound := by
  obtain ⟨f, hf, happ⟩ := LogFile.append_cases hexec
  obtain ⟨hevery, hcount⟩ := LogFile.appendUnlocked_count hf hexec
  have hopen : s.log.file.isSome := hf ▸ rfl
  have hnonneg := h.count_nonneg
  have hpos := h.bound_pos
  have hlt := h.count_lt
  cases happ with
  | rolled c hroll hlate =>
      have hc : 0 ≤ c ∧ c < bound := by
        dsimp only at hcount
        split at hcount
        · omega
        · rw [if_pos (hroll.resolve_left ‹_›).1] at hcount
          omega
      exact h.roll hevery.symm rfl rfl hc
  | refused c hroll hearly =>
      -- the roll is refused in the second of the last one, so in the day of the file
      have hday : ¬ s.log.Stray now := by
        intro hs
        have hlater := (h.stray_late hopen hclock.1 hs).2
        exact hearly (lt_of_lt_of_le hlater hclock.2)
      have hc : 0 ≤ c ∧ c < bound := by
        dsimp only at hcount
        split at hcount
        · omega
        · rw [if_pos (hroll.resolve_left ‹_›).1] at hcount
          omega
      exact h.stay hopen hclock (fun hs => absurd hs hday) hc
  | flushed hroll hcheck hdue =>
      have hday : ¬ s.log.Stray now := fun hs => hroll (.inr ⟨hcheck, hs⟩)
      exact h.stay hopen hclock (fun hs => absurd hs hday) ⟨le_rfl, hpos⟩
  | kept c hroll hnone =>
      have hfull : ¬ s.log.Full (f.append size) := fun hfull => hroll (.inl hfull)
      dsimp only at hcount
      rw [if_neg hfull] at hcount
      by_cases hcheck : s.log.Checks (f.append size)
      · rw [if_pos hcheck] at hcount
        have hday : ¬ s.log.Stray now := fun hs => hroll (.inr ⟨hcheck, hs⟩)
        exact h.stay hopen hclock (fun hs => absurd hs hday) (by omega)
      · rw [if_neg hcheck] at hcount
        have hless : s.log.count + 1 < s.log.checkEveryN := not_le.mp fun hle =>
          hcheck ⟨hfull, hle⟩
        have hle : s.log.checkEveryN ≤ bound := h.bounded ▸ le_max_right _ _
        exact h.stay hopen hclock (fun _ => hcount) (by omega)

theorem Counts.step (h : s.Counts bound) (hclock : s.InOrder op) (hst : s.exec op = some s') :
    s'.Counts bound := by
  obtain ⟨⟨log, effs⟩, hexec, hst⟩ := Option.bind_eq_some_iff.mp hst
  obtain rfl := Option.some.inj hst
  -- a call that leaves the file to the strays it had
  have hkeep : ∀ lastFlush t : ℤ, s.clock ≤ t →
      Counts bound { s with log := { s.log with lastFlush }, clock := t } := by
    intro lastFlush t hle
    refine ⟨h.bounded, fun hf => ⟨(h.opened hf).1.trans hle, (h.opened hf).2⟩, h.counted,
      h.count_lt, fun hpos => ?_, h.closed⟩
    exact lt_of_lt_of_le (h.dayOver hpos) (LogFile.startOfPeriod_mono hle)
  cases op with
  | append size now rollNow opened => exact h.append hclock hexec
  | flush now =>
      obtain ⟨l, hl, hp⟩ := Option.map_eq_some_iff.mp hexec
      obtain ⟨rfl, rfl⟩ := Prod.mk.inj hp
      obtain ⟨_, -, hl⟩ := Option.bind_eq_some_iff.mp hl
      obtain rfl := Option.some.inj hl
      exact hkeep now now hclock.1
  | roolFile now opened =>
      have hroll : s.log.rollAnd now opened = (log, effs) := Option.some.inj hexec
      by_cases hlate : now > s.log.lastRoll
      · rw [LogFile.rollAnd_of_late hlate] at hroll
        obtain ⟨rfl, rfl⟩ := Prod.mk.inj hroll
        exact h.roll rfl rfl rfl ⟨h.count_nonneg, h.count_lt⟩
      · rw [LogFile.rollAnd_of_early hlate] at hroll
        obtain ⟨rfl, rfl⟩ := Prod.mk.inj hroll
        exact hkeep s.log.lastFlush now hclock.1

/-- Days are cut within `checkEveryN` lines: through a run no file has got more lines of
another day than that (or one), and the open one has fewer. -/
theorem days_cut {rollSize flushInterval checkEveryN now : ℤ} {opened : ℕ}
    {tr : List (LogDays × LogOp)}
    (hr : Run (stepOf exec) (init rollSize flushInterval checkEveryN now opened) tr s)
    (hclock : ∀ p ∈ tr, p.1.InOrder p.2) :
    (∀ n ∈ s.closed, (n : ℤ) ≤ max 1 checkEveryN) ∧ (s.strays : ℤ) < max 1 checkEveryN := by
  have hcounts : s.Counts (max 1 checkEveryN) :=
    hr.invariant_of hclock (counts_init ..) fun h hc hst => h.step hc hst
  exact ⟨hcounts.closed, lt_of_le_of_lt hcounts.counted hcounts.count_lt⟩

/-- Looks at the clock every three lines, and has just done so when the day is over: three
strays.  The next day is cut by a line that takes the file to the limit. -/
def threeDays : List LogOp :=
  [.append 10 100 100 0, .append 10 101 101 0, .append 10 102 102 0, .append 10 86400 86400 0,
    .append 10 86401 86401 0, .append 10 86402 86402 0, .append 10 172800 172800 0,
    .append 90 172801 172801 0]

theorem threeDays_cut : ∃ tr s, runAll exec (init 100 3 3 100 0) threeDays = some (tr, s) ∧
    s.closed = [3, 2] ∧ s.strays = 0 ∧ ∀ n ∈ s.closed, (n : ℤ) ≤ max 1 3 := by
  obtain ⟨tr, s, hrun, hclock, hclosed, hstrays⟩ : ∃ tr s,
      runAll exec (init 100 3 3 100 0) threeDays = some (tr, s) ∧
        (∀ p ∈ tr, p.1.InOrder p.2) ∧ s.closed = [3, 2] ∧ s.strays = 0 :=
    exists_computed (by decide)
  exact ⟨tr, s, hrun, hclosed, hstrays, (days_cut (run_of_runAll hrun) hclock).1⟩

end LogDays

end Muduo
