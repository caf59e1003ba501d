/-
# `Muduo.Timer.Model` — Timer.h, TimerQueue.cpp

`TimerMinHeap` is a binary heap of owned timers with an index from timer ids to
heap positions; `TimerQueue` keeps the deadline the timerfd is armed for.

Times are counted as the clock counts them, in nanoseconds from the epoch of
`steady_clock`; intervals are milliseconds.  Both are counts of 64 bits in the source,
and an overflow of their sum has no defined result in C++.  There are two sums here:

    addInterval      as an integer: the sum of the code where it fits 64 bits
    addInterval64    modulo 2^64: what the machine computes

The loop of `GetExpiredTimers` is written for either of them.  Terminate, which asks what
it does for any interval, takes the second; the other modules take the first, and are
about runs in which no sum overflows (`getExpiredTimers64_eq`).

An entry of `timerList` is `none` when its pointer has been moved out, which
`getExpiredTimers` does to the root while it works on it.
-/
import Mathlib.Algebra.Group.Nat.Defs
import Mathlib.Algebra.Ring.Int.Defs
import Muduo.Basic
import Muduo.Lib.IndexMap

namespace Muduo

open BinHeap

/-- `TimePoint_t::max()`. -/
def timePointMax : ℤ := 2 ^ 63 - 1

/-- `TimePoint_t + Interval_t`, when it fits 64 bits. -/
def addInterval (t i : ℤ) : ℤ := t + i * 1000000

/-- `TimePoint_t + Interval_t` in 64 bits, in two's complement. -/
def addInterval64 (t i : ℤ) : ℤ := (addInterval t i).bmod (2 ^ 64)

/-- The counts of 64 bits. -/
def Fits64 (x : ℤ) : Prop := -2 ^ 63 ≤ x ∧ x < 2 ^ 63

theorem addInterval64_of_fits {t i : ℤ} (h : Fits64 (addInterval t i)) :
    addInterval64 t i = addInterval t i := by
  obtain ⟨hlo, hhi⟩ := h
  refine Int.bmod_eq_of_le_mul_two ?_ ?_
  · push_cast
    omega
  · push_cast
    omega

/-- Where it fits, the sum is later exactly when the interval is positive. -/
theorem lt_addInterval64_iff {t i : ℤ} (h : Fits64 (addInterval t i)) :
    t < addInterval64 t i ↔ 0 < i := by
  rw [addInterval64_of_fits h, addInterval]
  omega

/-- A clock that does not go back, by the numbers of its readings. -/
def Steady (clock : ℕ → ℤ) : Prop := ∀ ⦃j k : ℕ⦄, j ≤ k → clock j ≤ clock k

/-- `class Timer`: `expiration` is a `TimePoint_t`, `interval` an `Interval_t`. -/
structure Timer (Cb : Type) where
  cb : Cb
  expiration : ℤ
  interval : ℤ
  id : ℤ
deriving DecidableEq, Repr

namespace Timer

variable {Cb : Type}

def expirationTime (t : Timer Cb) : ℤ := t.expiration

def getId (t : Timer Cb) : ℤ := t.id

/-- `interval_ != Interval_t::zero()`. -/
def repeats (t : Timer Cb) : Bool := t.interval != 0

/-- The timer that takes the place of a repeating one when the clock reads `now`. -/
def rearmBy (sum : ℤ → ℤ → ℤ) (now : ℤ) (t : Timer Cb) : Timer Cb :=
  { cb := t.cb, expiration := sum now t.interval, interval := t.interval, id := t.id }

abbrev rearm (now : ℤ) (t : Timer Cb) : Timer Cb := t.rearmBy addInterval now

section Rearm

variable (sum : ℤ → ℤ → ℤ) (now : ℤ) (t : Timer Cb)

@[simp] theorem rearmBy_id : (t.rearmBy sum now).id = t.id := rfl

@[simp] theorem rearmBy_interval : (t.rearmBy sum now).interval = t.interval := rfl

@[simp] theorem rearmBy_expiration : (t.rearmBy sum now).expiration = sum now t.interval := rfl

@[simp] theorem rearmBy_repeats : (t.rearmBy sum now).repeats = t.repeats := rfl

end Rearm

/-- How often `GetExpiredTimers` reads the clock in the round that takes the timer out. -/
def readings (t : Timer Cb) : ℕ := if t.repeats then 2 else 1

theorem readings_pos (t : Timer Cb) : 0 < t.readings := by
  unfold readings
  split <;> decide

end Timer

/-! ## TimerMinHeap -/

/-- `class TimerQueue::TimerMinHeap`. -/
structure TimerMinHeap (Cb : Type) where
  timerList : List (Option (Timer Cb))
  positions : AList fun _ : ℤ => ℕ

namespace TimerMinHeap

variable {Cb : Type}

/-- A heap as it is constructed. -/
def init : TimerMinHeap Cb := ⟨[], ∅⟩

/-- The timer behind `timerList_[i]`. -/
def deref (h : TimerMinHeap Cb) (i : ℕ) : Option (Timer Cb) := h.timerList[i]?.join

/-- `swap(timerList_[i], timerList_[j])`. -/
def swap (h : TimerMinHeap Cb) (i j : ℕ) : Option (TimerMinHeap Cb) :=
  if i < h.timerList.length ∧ j < h.timerList.length then
    some { h with timerList := swapAt h.timerList i j }
  else none

/-- `positions_[timerList_[i]->GetId()] = i`. -/
def setPosition (h : TimerMinHeap Cb) (i : ℕ) : Option (TimerMinHeap Cb) := do
  let t ← h.deref i
  return { h with positions := h.positions.insert t.getId i }

def isEmpty (h : TimerMinHeap Cb) : Bool := h.timerList.isEmpty

/-- `Top()`, dereferenced. -/
def top (h : TimerMinHeap Cb) : Option (Timer Cb) := h.deref 0

/-- The loop of `Add`. -/
def addLoop : ℕ → ℕ → ℕ → TimerMinHeap Cb → Option (TimerMinHeap Cb × Bool)
  | 0, _, _, _ => none
  | fuel + 1, idx, parentIdx, h => do
      let cur ← h.deref idx
      let par ← h.deref parentIdx
      if cur.expirationTime < par.expirationTime then
        let h ← h.swap idx parentIdx
        let h ← h.setPosition idx
        let h ← h.setPosition parentIdx
        if parentIdx ≠ 0 then addLoop fuel parentIdx ((parentIdx - 1) / 2) h
        else some (h, true)
      else some (h, false)

/-- `Add`: the Boolean says that the timer became the root, so that the
deadline of the timerfd needs an update. -/
def add (h : TimerMinHeap Cb) (t : Timer Cb) : Option (TimerMinHeap Cb × Bool) := do
  let idx := h.timerList.length
  let h : TimerMinHeap Cb :=
    { timerList := h.timerList ++ [some t], positions := h.positions.insert t.getId idx }
  assert (h.timerList.length = h.positions.keys.length)
  if idx = 0 then some (h, true)
  else addLoop (idx + 1) idx ((idx - 1) / 2) h

/-- One comparison of `Adjust`: `i` replaces the candidate if it is in range
and expires earlier. -/
def earlier (h : TimerMinHeap Cb) (cand i : ℕ) : Option ℕ :=
  if i < h.timerList.length then do
    let t ← h.deref i
    let c ← h.deref cand
    if t.expirationTime < c.expirationTime then some i else some cand
  else some cand

/-- The loop of `Adjust`. -/
def adjustLoop : ℕ → ℕ → TimerMinHeap Cb → Option (TimerMinHeap Cb)
  | 0, _, _ => none
  | fuel + 1, curMid, h =>
      if curMid * 2 + 1 < h.timerList.length then do
        let cand ← h.earlier curMid (curMid * 2 + 1)
        let cand ← h.earlier cand (curMid * 2 + 2)
        if cand ≠ curMid then
          let h ← h.swap curMid cand
          let h ← h.setPosition cand
          let h ← h.setPosition curMid
          adjustLoop fuel cand h
        else some h
      else some h

def adjust (h : TimerMinHeap Cb) (curMid : ℕ) : Option (TimerMinHeap Cb) :=
  adjustLoop (h.timerList.length + 1) curMid h

/-- `positions_.erase(id)`, with the assertions on the number of erased entries
and on the sizes. -/
def erasePosition (h : TimerMinHeap Cb) (id : ℤ) : Option (TimerMinHeap Cb) := do
  assert (id ∈ h.positions)
  let h : TimerMinHeap Cb := { h with positions := h.positions.erase id }
  assert (h.timerList.length = h.positions.keys.length)
  return h

/-- `timerList_.pop_back()`. -/
def popBack (h : TimerMinHeap Cb) : TimerMinHeap Cb := { h with timerList := h.timerList.dropLast }

/-- `PopMovedTimer`: takes out the timer `id`, whose entry may have been moved from. -/
def popMovedTimer (h : TimerMinHeap Cb) (id : ℤ) : Option (TimerMinHeap Cb) := do
  assert (h.timerList ≠ [])
  if h.timerList.length > 1 then
    let target ← h.positions.lookup id
    let back ← h.deref (h.timerList.length - 1)
    let flag := back.getId != id
    let h ← h.swap target (h.timerList.length - 1)
    let h ← h.popBack.erasePosition id
    if flag then
      let h ← h.setPosition target
      h.adjust target
    else some h
  else
    assert (h.positions.keys.length = 1)
    some init

/-- `Pop`. -/
def pop (h : TimerMinHeap Cb) : Option (TimerMinHeap Cb) := do
  let front ← h.top
  h.popMovedTimer front.getId

/-- `Del`: the Boolean says that the root was taken out. -/
def del (h : TimerMinHeap Cb) (id : ℤ) : Option (TimerMinHeap Cb × Bool) :=
  match h.positions.lookup id with
  | none => some (h, false)
  | some idx =>
      if idx = 0 then do
        let h ← h.pop
        some (h, true)
      else do
        let back ← h.deref (h.timerList.length - 1)
        let backTimerId := back.getId
        let h ← h.swap idx (h.timerList.length - 1)
        let h ← h.popBack.erasePosition id
        if backTimerId ≠ id then
          let h : TimerMinHeap Cb := { h with positions := h.positions.insert backTimerId idx }
          let h ← h.adjust idx
          some (h, false)
        else some (h, false)

end TimerMinHeap

/-! ## TimerQueue -/

/-- The `it_value` of a `struct itimerspec`. -/
structure Itimerspec where
  tvSec : ℤ
  tvNsec : ℤ
deriving DecidableEq, Repr

/-- `class TimerQueue`. -/
structure TimerQueue (Cb : Type) where
  heap : TimerMinHeap Cb
  latestTime : ℤ
  /-- What the timerfd was last set to; it is created disarmed. -/
  timerfd : Itimerspec
  nextTimerId : BitVec 32

namespace TimerQueue

variable {Cb : Type}

/-- A queue as it is constructed. -/
def init : TimerQueue Cb := ⟨.init, timePointMax, ⟨0, 0⟩, 0⟩

/-- The `itimerspec` that `ResetTimerfd` fills in for a deadline.
`duration_cast` rounds towards zero. -/
def toItimerspec (d : ℤ) : Itimerspec :=
  if d ≠ timePointMax then
    let sec := Int.tdiv d 1000000000
    ⟨sec, d - sec * 1000000000⟩
  else ⟨0, 0⟩

def resetTimerfd (q : TimerQueue Cb) : TimerQueue Cb :=
  { q with timerfd := toItimerspec q.latestTime }

/-- The part of `AddTimer` that runs in the calling thread: it takes the next
id and makes the timer that `addTimerInLoop` is then given. -/
def addTimer (q : TimerQueue Cb) (when interval : ℤ) (cb : Cb) :
    Option (TimerQueue Cb × Timer Cb) := do
  assert (when ≠ timePointMax)
  let curTimerId := q.nextTimerId.toInt
  some ({ q with nextTimerId := q.nextTimerId + 1 },
    { cb := cb, expiration := when, interval := interval, id := curTimerId })

def addTimerInLoop (q : TimerQueue Cb) (t : Timer Cb) : Option (TimerQueue Cb) := do
  let timeout := t.expirationTime
  let (heap, latestNeedUpdate) ← q.heap.add t
  let q : TimerQueue Cb := { q with heap := heap }
  if latestNeedUpdate then
    some { q with latestTime := timeout }.resetTimerfd
  else some q

/-- `latestTime_` as read from the heap: the root's expiration, or
`TimePoint_t::max()` when there is none. -/
def latestOf (h : TimerMinHeap Cb) : Option ℤ :=
  if h.isEmpty then some timePointMax
  else do
    let t ← h.top
    some t.expirationTime

def cancelTimerInLoop (q : TimerQueue Cb) (id : ℤ) : Option (TimerQueue Cb) := do
  let (heap, latestNeedUpdate) ← q.heap.del id
  let q : TimerQueue Cb := { q with heap := heap }
  if latestNeedUpdate then
    let latest ← latestOf q.heap
    some { q with latestTime := latest }.resetTimerfd
  else some q

/-- The loop of `GetExpiredTimers`.  `clock k` is what the `k`-th call of
`steady_clock::now()` returns; `k` counts the calls made so far. -/
def expireLoop (sum : ℤ → ℤ → ℤ) (clock : ℕ → ℤ) :
    ℕ → ℕ → TimerMinHeap Cb → List (Timer Cb) → Option (TimerMinHeap Cb × List (Timer Cb))
  | 0, _, _, _ => none
  | fuel + 1, k, h, result =>
      if h.isEmpty then some (h, result)
      else do
        let t ← h.top
        if t.expirationTime ≤ clock k then
          -- `std::move(heap_->Top())` leaves a null pointer at the root
          let h : TimerMinHeap Cb := { h with timerList := h.timerList.set 0 none }
          if t.repeats then
            let next := t.rearmBy sum (clock (k + 1))
            let h : TimerMinHeap Cb := { h with timerList := h.timerList.set 0 (some next) }
            let h ← h.adjust 0
            expireLoop sum clock fuel (k + 2) h (result ++ [t])
          else
            let h ← h.popMovedTimer t.getId
            expireLoop sum clock fuel (k + 1) h (result ++ [t])
        else some (h, result)

/-- `GetExpiredTimers`.  The assertion `latestTime_ < heap_->Top()->ExpirationTime()`
after the loop is not part of it: a release build, the default one, compiles it
out, and runs that pass it in a state where it is false exist.  `TimerIteration` has it. -/
def getExpiredTimersBy (sum : ℤ → ℤ → ℤ) (fuel : ℕ) (clock : ℕ → ℤ) (q : TimerQueue Cb) :
    Option (TimerQueue Cb × List (Timer Cb)) := do
  let (heap, result) ← expireLoop sum clock fuel 0 q.heap []
  let latest ← latestOf heap
  some ({ q with heap := heap, latestTime := latest }.resetTimerfd, result)

def getExpiredTimers (fuel : ℕ) (clock : ℕ → ℤ) (q : TimerQueue Cb) :
    Option (TimerQueue Cb × List (Timer Cb)) :=
  q.getExpiredTimersBy addInterval fuel clock

def getExpiredTimers64 (fuel : ℕ) (clock : ℕ → ℤ) (q : TimerQueue Cb) :
    Option (TimerQueue Cb × List (Timer Cb)) :=
  q.getExpiredTimersBy addInterval64 fuel clock

end TimerQueue

end Muduo
