/-
# `Muduo.AsyncLog.Model` — AsyncLogging.h, AsyncLogging.cpp, FixedBuffer of LogStream.h

Any thread calls `Append`, which is one critical section.  One thread calls
`Start` and `Stop`; the back thread runs `ThreadFunc`.

    append line      Append
    start            Start
    stop             Stop, up to its compare_exchange
    join             the join in Stop, and its return
    back now         the next step of the back thread; now is what the clock
                     and put_time make of the time of a message
    wake timeout     wait_for returns with the mutex: notified, spuriously, or
                     after flushInterval_

A `unique_ptr` that may be null is an `Option`.  `currentBuffer_` is null only
inside a critical section; what the source moves into it is asserted, or has
been tested, not to be null.
-/
import Muduo.Buffer.Model
import Muduo.Lib.Runs

namespace Muduo

/-- `FixedBuffer<SIZE>`: the bytes from `data_` to `cur_`. -/
structure FixedBuffer (SIZE : ℕ) where
  data : List Byte
  fits : data.length ≤ SIZE
deriving DecidableEq

def kLargeBuffer : ℕ := 4000 * 1024

namespace FixedBuffer

variable {SIZE : ℕ}

def new : FixedBuffer SIZE := ⟨[], Nat.zero_le _⟩

def getLength (b : FixedBuffer SIZE) : ℕ := b.data.length

def avail (b : FixedBuffer SIZE) : ℕ := SIZE - b.data.length

def append (b : FixedBuffer SIZE) (line : List Byte) : FixedBuffer SIZE :=
  if h : line.length < b.avail then
    ⟨b.data ++ line, by
      unfold avail at h
      rw [List.length_append]
      omega⟩
  else b

def reset (_ : FixedBuffer SIZE) : FixedBuffer SIZE := new

@[simp] theorem new_data : (new : FixedBuffer SIZE).data = [] := rfl

@[simp] theorem reset_data (b : FixedBuffer SIZE) : b.reset.data = [] := rfl

theorem append_data {b : FixedBuffer SIZE} {line : List Byte} (h : line.length < b.avail) :
    (b.append line).data = b.data ++ line := by
  unfold append
  rw [dif_pos h]

theorem avail_of_empty {b : FixedBuffer SIZE} (h : b.data = []) : b.avail = SIZE := by
  unfold avail
  rw [h]
  rfl

end FixedBuffer

/-- Where `ThreadFunc` is. -/
inductive BackPoint
  | notStarted
  /-- before `assert(running_ == true)` -/
  | starting
  /-- before the test of `while (running_)` -/
  | testing
  /-- before the critical section -/
  | locking
  /-- in `wait_for` -/
  | waiting
  /-- after the critical section -/
  | swapped
  /-- in the loop over `buffers_to_write`, before the element with this index -/
  | writing (i : ℕ)
  | finished
deriving DecidableEq, Repr

/-- The thread that calls `Start` and `Stop`; `n` is the number of lines that had
been appended when `Stop` was called. -/
inductive Control
  | idle
  /-- before or in `join` -/
  | stopping (n : ℕ)
  /-- `Stop` has returned -/
  | stopped (n : ℕ)
deriving DecidableEq, Repr

/-- What has become of the buffers of the batches, and the other things passed to
`LogFile::Append`. -/
inductive Record
  | written (data : List Byte)
  | dropped (data : List Byte)
  | message (text : List Byte)
deriving DecidableEq, Repr

/-- What has been passed to `LogFile::Append`. -/
def Record.passed? : Record → Option (List Byte)
  | written data => some data
  | dropped _ => none
  | message text => some text

/-- The content of a buffer of a batch. -/
def Record.buffer? : Record → Option (List Byte)
  | written data => some data
  | dropped data => some data
  | message _ => none

/-- `class AsyncLogger` with the locals of `ThreadFunc`.  `log`, `erased` and
`appended` are no fields of the source: what has become of the batches, the
buffers that were erased from the present one, and the lines in the order in
which their `Append` calls took the mutex. -/
structure AsyncLogger (SIZE : ℕ) where
  running : Bool
  buffers : List (FixedBuffer SIZE)
  currentBuffer : FixedBuffer SIZE
  nextBuffer : Option (FixedBuffer SIZE)
  point : BackPoint
  newBuffer1 : Option (FixedBuffer SIZE)
  newBuffer2 : Option (FixedBuffer SIZE)
  buffersToWrite : List (FixedBuffer SIZE)
  control : Control
  log : List Record
  erased : List (FixedBuffer SIZE)
  appended : List (List Byte)

inductive LogAct
  | append (line : List Byte)
  | start
  | stop
  | join
  | wake (timeout : Bool)
  | back (now : String)
deriving DecidableEq, Repr

namespace AsyncLogger

variable {SIZE : ℕ}

def init (SIZE : ℕ) : AsyncLogger SIZE :=
  { running := false, buffers := [], currentBuffer := .new, nextBuffer := some .new,
    point := .notStarted, newBuffer1 := none, newBuffer2 := none, buffersToWrite := [],
    control := .idle, log := [], erased := [], appended := [] }

/-- `Append`. -/
def append (s : AsyncLogger SIZE) (line : List Byte) : Option (AsyncLogger SIZE) :=
  if line.length < s.currentBuffer.avail then
    some { s with currentBuffer := s.currentBuffer.append line, appended := s.appended ++ [line] }
  else do
    let current :=
      match s.nextBuffer with
      | some b => b
      | none => .new
    assert (line.length < current.avail)
    some { s with buffers := s.buffers ++ [s.currentBuffer], nextBuffer := none,
                  currentBuffer := current.append line, appended := s.appended ++ [line] }

def isStopping (s : AsyncLogger SIZE) : Bool :=
  match s.control with
  | .stopping _ => true
  | .idle | .stopped _ => false

/-- `Start`: a new thread when the `compare_exchange` succeeds. -/
def start (s : AsyncLogger SIZE) : Option (AsyncLogger SIZE) := do
  guard (s.isStopping = false)
  if s.running then some s
  else some { s with running := true, point := .starting, control := .idle }

/-- `Stop`, up to its `compare_exchange`; when that fails `Stop` returns. -/
def stop (s : AsyncLogger SIZE) : Option (AsyncLogger SIZE) := do
  guard (s.isStopping = false)
  if s.running then some { s with running := false, control := .stopping s.appended.length }
  else some { s with control := .stopped s.appended.length }

def join (s : AsyncLogger SIZE) : Option (AsyncLogger SIZE) :=
  match s.control with
  | .stopping n => do
      guard (s.point = .finished)
      some { s with control := .stopped n }
  | .idle | .stopped _ => none

/-- The critical section after its loop. -/
def swap (s : AsyncLogger SIZE) : Option (AsyncLogger SIZE) := do
  let current ← s.newBuffer1
  let s := { s with point := .swapped, buffersToWrite := s.buffers ++ [s.currentBuffer],
                    buffers := s.buffersToWrite, currentBuffer := current, newBuffer1 := none }
  match s.nextBuffer with
  | some _ => some s
  | none => some { s with nextBuffer := s.newBuffer2, newBuffer2 := none }

/-- `while (!buffers_.empty() && status == no_timeout)`. -/
def waitOrSwap (s : AsyncLogger SIZE) (timeout : Bool) : Option (AsyncLogger SIZE) :=
  if s.buffers ≠ [] ∧ timeout = false then some { s with point := .waiting } else s.swap

/-- The text written instead of the buffers that are dropped from a batch of `n`. -/
def dropMessage (now : String) (n : ℕ) : List Byte :=
  let msg := "Dropped log messages at " ++ now ++ ", " ++ toString (n - 2) ++ "larger buffers\n"
  msg.toByteArray.data.toList.map UInt8.toBitVec

/-- The test for more than 25 buffers. -/
def limit (s : AsyncLogger SIZE) (now : String) : AsyncLogger SIZE :=
  if s.buffersToWrite.length > 25 then
    { s with point := .writing 0, buffersToWrite := s.buffersToWrite.take 2,
             log := s.log ++ [.message (dropMessage now s.buffersToWrite.length)],
             erased := s.buffersToWrite.drop 2 }
  else { s with point := .writing 0 }

/-- The buffers that were erased, as they stand in the log. -/
def dropRecords (s : AsyncLogger SIZE) : List Record := s.erased.map fun b => .dropped b.data

/-- What comes after the loop over `buffers_to_write`. -/
def recycle (s : AsyncLogger SIZE) : Option (AsyncLogger SIZE) := do
  let toWrite := if s.buffersToWrite.length > 2 then s.buffersToWrite.take 2 else s.buffersToWrite
  assert (s.newBuffer1 = none)
  let b ← toWrite.getLast?
  let s := { s with point := .testing, newBuffer1 := some b.reset, buffersToWrite := [],
                    log := s.log ++ s.dropRecords, erased := [] }
  match s.newBuffer2 with
  | some _ => some s
  | none => do
      let b ← toWrite.dropLast.getLast?
      some { s with newBuffer2 := some b.reset }

/-- The next step of `ThreadFunc`. -/
def back (s : AsyncLogger SIZE) (now : String) : Option (AsyncLogger SIZE) :=
  match s.point with
  | .starting => do
      assert (s.running = true)
      some { s with point := .testing, newBuffer1 := some .new, newBuffer2 := some .new,
                    buffersToWrite := [] }
  | .testing =>
      if s.running then do
        assert (s.newBuffer1.map FixedBuffer.getLength = some 0)
        assert (s.newBuffer2.map FixedBuffer.getLength = some 0)
        assert (s.buffersToWrite = [])
        some { s with point := .locking }
      else some { s with point := .finished }
  | .locking => s.waitOrSwap false
  | .swapped => do
      assert (s.buffersToWrite ≠ [])
      some (s.limit now)
  | .writing i =>
      match s.buffersToWrite[i]? with
      | some buf => some { s with point := .writing (i + 1), log := s.log ++ [.written buf.data] }
      | none => s.recycle
  | .notStarted | .waiting | .finished => none

def step (s : AsyncLogger SIZE) : LogAct → Option (AsyncLogger SIZE)
  | .append line => s.append line
  | .start => s.start
  | .stop => s.stop
  | .join => s.join
  | .wake timeout => do
      guard (s.point = .waiting)
      s.waitOrSwap timeout
  | .back now => s.back now

/-! ## What a step can do -/

variable {s s' : AsyncLogger SIZE} {a : LogAct}

/-- The steps of the back thread. -/
inductive BackStep (s : AsyncLogger SIZE) : AsyncLogger SIZE → Prop
  | begin (hp : s.point = .starting) (hr : s.running = true) :
      BackStep s { s with point := .testing, newBuffer1 := some .new, newBuffer2 := some .new,
                          buffersToWrite := [] }
  | enter (hp : s.point = .testing) (hr : s.running = true) :
      BackStep s { s with point := .locking }
  | leave (hp : s.point = .testing) (hr : s.running = false) :
      BackStep s { s with point := .finished }
  | wait (hp : s.point = .locking ∨ s.point = .waiting) : BackStep s { s with point := .waiting }
  | swap {s' : AsyncLogger SIZE} (hp : s.point = .locking ∨ s.point = .waiting)
      (h : s.swap = some s') : BackStep s s'
  | limit (now : String) (hp : s.point = .swapped) : BackStep s (s.limit now)
  | write (i : ℕ) (buf : FixedBuffer SIZE) (hp : s.point = .writing i)
      (hi : s.buffersToWrite[i]? = some buf) :
      BackStep s { s with point := .writing (i + 1), log := s.log ++ [.written buf.data] }
  | recycle {s' : AsyncLogger SIZE} (i : ℕ) (hp : s.point = .writing i)
      (hi : s.buffersToWrite[i]? = none) (h : s.recycle = some s') : BackStep s s'

/-- The steps of all threads. -/
inductive Steps (s : AsyncLogger SIZE) : LogAct → AsyncLogger SIZE → Prop
  | append {s' : AsyncLogger SIZE} (line : List Byte) (h : s.append line = some s') :
      Steps s (.append line) s'
  | started (hr : s.running = true) : Steps s .start s
  | start (hc : s.isStopping = false) (hr : s.running = false) :
      Steps s .start { s with running := true, point := .starting, control := .idle }
  | stop (hr : s.running = true) :
      Steps s .stop { s with running := false, control := .stopping s.appended.length }
  | stopped (hc : s.isStopping = false) (hr : s.running = false) :
      Steps s .stop { s with control := .stopped s.appended.length }
  | join (n : ℕ) (hc : s.control = .stopping n) (hp : s.point = .finished) :
      Steps s .join { s with control := .stopped n }
  | wake {s' : AsyncLogger SIZE} (timeout : Bool) (h : BackStep s s') : Steps s (.wake timeout) s'
  | back {s' : AsyncLogger SIZE} (now : String) (h : BackStep s s') : Steps s (.back now) s'

theorem backStep_of_waitOrSwap {timeout : Bool} (hp : s.point = .locking ∨ s.point = .waiting)
    (h : s.waitOrSwap timeout = some s') : BackStep s s' := by
  unfold waitOrSwap at h
  split at h
  · exact Option.some.inj h ▸ .wait hp
  · exact .swap hp h

theorem backStep_of_back {now : String} (h : s.back now = some s') : BackStep s s' := by
  unfold back at h
  cases hp : s.point with
  | notStarted | waiting | finished => simp [hp] at h
  | starting =>
      simp only [hp] at h
      obtain ⟨_, hr, h⟩ := Option.bind_eq_some_iff.mp h
      exact Option.some.inj h ▸ .begin hp (assert_eq_some_iff.mp hr)
  | testing =>
      simp only [hp] at h
      cases hr : s.running with
      | true =>
          rw [if_pos hr] at h
          simp only [Option.bind_eq_bind, Option.bind_eq_some_iff] at h
          obtain ⟨_, -, _, -, _, -, h⟩ := h
          exact Option.some.inj h ▸ .enter hp hr
      | false =>
          rw [if_neg (by simp [hr])] at h
          exact Option.some.inj h ▸ .leave hp hr
  | locking =>
      simp only [hp] at h
      exact backStep_of_waitOrSwap (.inl hp) h
  | swapped =>
      simp only [hp] at h
      obtain ⟨_, -, h⟩ := Option.bind_eq_some_iff.mp h
      exact Option.some.inj h ▸ .limit now hp
  | writing i =>
      simp only [hp] at h
      cases hi : s.buffersToWrite[i]? with
      | some buf =>
          simp only [hi] at h
          exact Option.some.inj h ▸ .write i buf hp hi
      | none =>
          simp only [hi] at h
          exact .recycle i hp hi h

theorem steps_of_step (h : s.step a = some s') : Steps s a s' := by
  cases a with
  | append line => exact .append line h
  | start =>
      obtain ⟨hc, h⟩ := guard_bind_eq_some_iff.mp h
      cases hr : s.running with
      | true =>
          rw [if_pos hr] at h
          exact Option.some.inj h ▸ .started hr
      | false =>
          rw [if_neg (by simp [hr])] at h
          exact Option.some.inj h ▸ .start hc hr
  | stop =>
      obtain ⟨hc, h⟩ := guard_bind_eq_some_iff.mp h
      cases hr : s.running with
      | true =>
          rw [if_pos hr] at h
          exact Option.some.inj h ▸ .stop hr
      | false =>
          rw [if_neg (by simp [hr])] at h
          exact Option.some.inj h ▸ .stopped hc hr
  | join =>
      simp only [step, join] at h
      split at h
      · next n hc =>
          obtain ⟨hp, h⟩ := guard_bind_eq_some_iff.mp h
          exact Option.some.inj h ▸ .join n hc hp
      · exact nomatch h
      · exact nomatch h
  | wake timeout =>
      obtain ⟨hp, h⟩ := guard_bind_eq_some_iff.mp h
      exact .wake timeout (backStep_of_waitOrSwap (.inr hp) h)
  | back now => exact .back now (backStep_of_back h)

end AsyncLogger

end Muduo
