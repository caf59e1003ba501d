/-
# `Muduo.AsyncLog.Pointers` — the buffers of AsyncLogging.cpp as pointers

`AsyncLogger` leaves out that a `unique_ptr` can be null where the source never
tests it.  Here every buffer is behind its pointer: a move leaves null, and a null
pointer that is dereferenced, or a false assertion, ends the execution.

    Safe              who holds a buffer at which point
    Safe.step         a thread that can go on takes its step, and the result is safe
    recycling_safe    what this says about every run
    view_run_iff      the runs of `AsyncLogger` are the runs of the pointers

States are those in which the mutex is free: a critical section is one step, and
`wait_for` gives the mutex up.
-/
import Muduo.AsyncLog.Queue

namespace Muduo

open Runs

/-- `using BufferPtr = std::unique_ptr<Buffer>`. -/
abbrev BufferPtr (SIZE : ℕ) := Option (FixedBuffer SIZE)

theorem FixedBuffer.avail_le {SIZE : ℕ} (b : FixedBuffer SIZE) : b.avail ≤ SIZE := Nat.sub_le _ _

/-- Where `ThreadFunc` is in its loop, and not in `wait_for`. -/
def BackPoint.inLoop : BackPoint → Bool
  | .testing | .locking | .swapped | .writing _ => true
  | .notStarted | .starting | .waiting | .finished => false

/-- The pointers of `AsyncLogger` and of `ThreadFunc`; `stopping`: a `Stop` is to join the
back thread. -/
structure LoggerPtrs (SIZE : ℕ) where
  running : Bool
  stopping : Bool
  buffers : List (BufferPtr SIZE)
  currentBuffer : BufferPtr SIZE
  nextBuffer : BufferPtr SIZE
  point : BackPoint
  newBuffer1 : BufferPtr SIZE
  newBuffer2 : BufferPtr SIZE
  buffersToWrite : List (BufferPtr SIZE)

namespace LoggerPtrs

variable {SIZE : ℕ}

def init (SIZE : ℕ) : LoggerPtrs SIZE :=
  { running := false, stopping := false, buffers := [], currentBuffer := some .new,
    nextBuffer := some .new, point := .notStarted, newBuffer1 := none, newBuffer2 := none,
    buffersToWrite := [] }

/-- `Append`. -/
def append (s : LoggerPtrs SIZE) (line : List Byte) : Option (LoggerPtrs SIZE) := do
  let current ← s.currentBuffer
  if line.length < current.avail then
    some { s with currentBuffer := some (current.append line) }
  else do
    let s : LoggerPtrs SIZE :=
      { s with buffers := s.buffers ++ [s.currentBuffer], currentBuffer := none }
    let s : LoggerPtrs SIZE :=
      match s.nextBuffer with
      | some b => { s with currentBuffer := some b, nextBuffer := none }
      | none => { s with currentBuffer := some .new }
    let current ← s.currentBuffer
    assert (line.length < current.avail)
    some { s with currentBuffer := some (current.append line) }

def start (s : LoggerPtrs SIZE) : Option (LoggerPtrs SIZE) := do
  guard (s.stopping = false)
  if s.running then some s else some { s with running := true, point := .starting }

def stop (s : LoggerPtrs SIZE) : Option (LoggerPtrs SIZE) := do
  guard (s.stopping = false)
  if s.running then some { s with running := false, stopping := true } else some s

def join (s : LoggerPtrs SIZE) : Option (LoggerPtrs SIZE) := do
  guard (s.stopping = true ∧ s.point = .finished)
  some { s with stopping := false }

/-- The critical section after its loop. -/
def swap (s : LoggerPtrs SIZE) : LoggerPtrs SIZE :=
  let s := { s with buffers := s.buffers ++ [s.currentBuffer], currentBuffer := none }
  let s := { s with buffersToWrite := s.buffers, buffers := s.buffersToWrite }
  let s := { s with point := .swapped, currentBuffer := s.newBuffer1, newBuffer1 := none }
  if s.nextBuffer.isNone then { s with nextBuffer := s.newBuffer2, newBuffer2 := none } else s

def waitOrSwap (s : LoggerPtrs SIZE) (timeout : Bool) : LoggerPtrs SIZE :=
  if s.buffers ≠ [] ∧ timeout = false then { s with point := .waiting } else s.swap

/-- The last buffer is moved out of the vector and reset. -/
def takeBack (bs : List (BufferPtr SIZE)) : Option (FixedBuffer SIZE × List (BufferPtr SIZE)) := do
  let p ← bs.getLast?
  let b ← p
  some (b.reset, bs.dropLast)

/-- What comes after the loop over `buffers_to_write`. -/
def recycle (s : LoggerPtrs SIZE) : Option (LoggerPtrs SIZE) := do
  let toWrite := if s.buffersToWrite.length > 2 then s.buffersToWrite.take 2 else s.buffersToWrite
  assert (s.newBuffer1 = none)
  assert (toWrite ≠ [])
  let (b₁, toWrite) ← takeBack toWrite
  let s := { s with point := .testing, newBuffer1 := some b₁, buffersToWrite := [] }
  if s.newBuffer2.isNone then do
    assert (toWrite ≠ [])
    let (b₂, _) ← takeBack toWrite
    some { s with newBuffer2 := some b₂ }
  else some s

/-- The next step of `ThreadFunc`. -/
def back (s : LoggerPtrs SIZE) : Option (LoggerPtrs SIZE) :=
  match s.point with
  | .starting => do
      assert (s.running = true)
      some { s with point := .testing, newBuffer1 := some .new, newBuffer2 := some .new,
                    buffersToWrite := [] }
  | .testing =>
      if s.running then do
        assert (s.newBuffer1.map FixedBuffer.getLength = some 0)
        assert (s.newBuffer2.map FixedBuffer.getLength = some 0)
        assert (s.buffersToWrite = [])
        some { s with point := .locking }
      else some { s with point := .finished }
  | .locking => some (s.waitOrSwap false)
  | .swapped => do
      assert (s.buffersToWrite ≠ [])
      if s.buffersToWrite.length > 25 then
        some { s with point := .writing 0, buffersToWrite := s.buffersToWrite.take 2 }
      else some { s with point := .writing 0 }
  | .writing i =>
      match s.buffersToWrite[i]? with
      | some buf => do
          let _ ← buf
          some { s with point := .writing (i + 1) }
      | none => s.recycle
  | .notStarted | .waiting | .finished => none

def step (s : LoggerPtrs SIZE) : LogAct → Option (LoggerPtrs SIZE)
  | .append line => s.append line
  | .start => s.start
  | .stop => s.stop
  | .join => s.join
  | .wake timeout => do
      guard (s.point = .waiting)
      some (s.waitOrSwap timeout)
  | .back _ => s.back

/-! ## Who holds a buffer -/

/-- An empty buffer. -/
def Spare (p : BufferPtr SIZE) : Prop := ∃ b : FixedBuffer SIZE, p = some b ∧ b.data = []

/-- The locals of `ThreadFunc` at each point. -/
def Locals (s : LoggerPtrs SIZE) : BackPoint → Prop
  | .notStarted | .finished | .starting => True
  | .testing | .locking | .waiting =>
      Spare s.newBuffer1 ∧ Spare s.newBuffer2 ∧ s.buffersToWrite = []
  | .swapped | .writing _ =>
      s.newBuffer1 = none ∧
        (s.newBuffer2 = none ∧ 2 ≤ s.buffersToWrite.length ∨ Spare s.newBuffer2) ∧
        s.buffersToWrite ≠ [] ∧ none ∉ s.buffersToWrite

structure Safe (s : LoggerPtrs SIZE) : Prop where
  current : s.currentBuffer ≠ none
  buffers : none ∉ s.buffers
  next : s.nextBuffer = none ∧ s.buffers ≠ [] ∨ Spare s.nextBuffer
  locals : s.Locals s.point

theorem spare_new : Spare (some (FixedBuffer.new : FixedBuffer SIZE)) := ⟨_, rfl, rfl⟩

theorem Spare.ne_none {p : BufferPtr SIZE} (h : Spare p) : p ≠ none := by
  obtain ⟨b, rfl, -⟩ := h
  exact Option.some_ne_none b

theorem Spare.length_eq {p : BufferPtr SIZE} (h : Spare p) :
    p.map FixedBuffer.getLength = some 0 := by
  obtain ⟨b, rfl, hb⟩ := h
  exact congrArg some (List.length_eq_zero_iff.mpr hb)

theorem safe_init : (init SIZE).Safe where
  current := Option.some_ne_none _
  buffers := List.not_mem_nil
  next := .inr spare_new
  locals := trivial

variable {s s' : LoggerPtrs SIZE} {a : LogAct}

theorem Locals.of_eq {p : BackPoint} (h : s.Locals p) (h₁ : s'.newBuffer1 = s.newBuffer1)
    (h₂ : s'.newBuffer2 = s.newBuffer2) (hw : s'.buffersToWrite = s.buffersToWrite) :
    s'.Locals p := by
  unfold Locals at h ⊢
  rw [h₁, h₂, hw]
  exact h

theorem none_not_mem_snoc {bs : List (BufferPtr SIZE)} {p : BufferPtr SIZE} (h : none ∉ bs)
    (hp : p ≠ none) : none ∉ bs ++ [p] := by
  intro hmem
  rcases List.mem_append.mp hmem with hmem | hmem
  · exact h hmem
  · exact hp (List.mem_singleton.mp hmem).symm

/-! ## Append -/

/-- `Append` of a line shorter than a buffer finds a current buffer with enough room. -/
theorem Safe.append (w : s.Safe) {line : List Byte} (hl : line.length < SIZE) :
    ∃ s', s.append line = some s' ∧ s'.Safe := by
  obtain ⟨c, hc⟩ := Option.ne_none_iff_exists'.mp w.current
  unfold LoggerPtrs.append
  simp only [hc, Option.bind_eq_bind, Option.bind_some]
  split
  · exact ⟨_, rfl, Option.some_ne_none _, w.buffers, w.next, w.locals.of_eq rfl rfl rfl⟩
  · have hbuffers : none ∉ s.buffers ++ [some c] :=
      none_not_mem_snoc w.buffers (Option.some_ne_none c)
    have hne : s.buffers ++ [some c] ≠ [] := List.append_ne_nil_of_right_ne_nil _ (by simp)
    cases hn : s.nextBuffer with
    | none =>
        have hroom : line.length < (FixedBuffer.new : FixedBuffer SIZE).avail := hl
        simp only [assert_of hroom, Option.bind_some]
        exact ⟨_, rfl, Option.some_ne_none _, hbuffers, .inl ⟨rfl, hne⟩,
          w.locals.of_eq rfl rfl rfl⟩
    | some b =>
        have hempty : b.data = [] := by
          rcases w.next with ⟨hnone, -⟩ | ⟨b', hb', hempty⟩
          · exact absurd (hn.symm.trans hnone) (Option.some_ne_none b)
          · obtain rfl := Option.some.inj (hn.symm.trans hb')
            exact hempty
        have hroom : line.length < b.avail := by
          rw [FixedBuffer.avail_of_empty hempty]
          exact hl
        simp only [assert_of hroom, Option.bind_some]
        exact ⟨_, rfl, Option.some_ne_none _, hbuffers, .inl ⟨rfl, hne⟩,
          w.locals.of_eq rfl rfl rfl⟩

/-! ## The back thread -/

/-- The swap of the critical section.  A null `nextBuffer_` takes `newBuffer2`, and the
batch then has the buffer that was full and `currentBuffer_`. -/
theorem Safe.swap (w : s.Safe) (hl : s.Locals .locking) : s.swap.Safe := by
  obtain ⟨h₁, h₂, hw⟩ := hl
  have hbatch : none ∉ s.buffers ++ [s.currentBuffer] := none_not_mem_snoc w.buffers w.current
  have hne : s.buffers ++ [s.currentBuffer] ≠ [] :=
    List.append_ne_nil_of_right_ne_nil _ (List.cons_ne_nil _ _)
  have hempty : none ∉ s.buffersToWrite := hw ▸ List.not_mem_nil
  unfold LoggerPtrs.swap
  dsimp only
  split
  · next hn =>
      have hfull : s.buffers ≠ [] := by
        rcases w.next with ⟨-, hfull⟩ | hspare
        · exact hfull
        · exact absurd (Option.isNone_iff_eq_none.mp hn) hspare.ne_none
      have hpos := List.length_pos_of_ne_nil hfull
      have htwo : 2 ≤ (s.buffers ++ [s.currentBuffer]).length := by
        rw [List.length_append, List.length_singleton]
        omega
      exact ⟨h₁.ne_none, hempty, .inr h₂, rfl, .inl ⟨rfl, htwo⟩, hne, hbatch⟩
  · next hn =>
      have hnext : Spare s.nextBuffer := by
        rcases w.next with ⟨hnone, -⟩ | hspare
        · exact absurd (Option.isNone_iff_eq_none.mpr hnone) hn
        · exact hspare
      exact ⟨h₁.ne_none, hempty, .inr hnext, rfl, .inr h₂, hne, hbatch⟩

theorem Safe.waitOrSwap {timeout : Bool} (w : s.Safe) (hl : s.Locals .locking) :
    (s.waitOrSwap timeout).Safe := by
  unfold LoggerPtrs.waitOrSwap
  split
  · exact ⟨w.current, w.buffers, w.next, hl.of_eq rfl rfl rfl⟩
  · exact w.swap hl

/-- A step that moves the back thread, and shortens the batch at most. -/
theorem Safe.goto (w : s.Safe) {p : BackPoint} {bs : List (BufferPtr SIZE)}
    (hl : { s with buffersToWrite := bs }.Locals p) :
    { s with point := p, buffersToWrite := bs }.Safe :=
  ⟨w.current, w.buffers, w.next, hl.of_eq rfl rfl rfl⟩

/-- What is left of a batch that has been cut to two buffers. -/
theorem Locals.take {i : ℕ} (h : s.Locals .swapped) :
    { s with buffersToWrite := s.buffersToWrite.take 2 }.Locals (.writing i) := by
  obtain ⟨h₁, h₂, hne, hnone⟩ := h
  have hpos := List.length_pos_of_ne_nil hne
  have hlen : (s.buffersToWrite.take 2).length = min 2 s.buffersToWrite.length :=
    List.length_take
  have hne' : s.buffersToWrite.take 2 ≠ [] := List.ne_nil_of_length_pos (by omega)
  refine ⟨h₁, h₂.imp_left fun ⟨hn, htwo⟩ => ⟨hn, ?_⟩, hne',
    fun hmem => hnone (List.mem_of_mem_take hmem)⟩
  show 2 ≤ (s.buffersToWrite.take 2).length
  omega

/-- The last buffer of a batch without null pointers is recycled. -/
theorem takeBack_spec {bs : List (BufferPtr SIZE)} (hne : bs ≠ []) (hnone : none ∉ bs) :
    ∃ b : FixedBuffer SIZE, b.data = [] ∧ takeBack bs = some (b, bs.dropLast) := by
  obtain ⟨b, hb⟩ := Option.ne_none_iff_exists'.mp fun h : bs.getLast hne = none =>
    hnone (h ▸ List.getLast_mem hne)
  refine ⟨b.reset, rfl, ?_⟩
  unfold takeBack
  rw [List.getLast?_eq_some_getLast hne, hb]
  rfl

/-- Both spare buffers are there again at the end of an iteration. -/
theorem Safe.recycle {i : ℕ} (w : s.Safe) (hl : s.Locals (.writing i)) :
    ∃ s', s.recycle = some s' ∧ s'.Safe := by
  obtain ⟨h₁, h₂, hne, hnone⟩ := hl
  obtain ⟨toWrite, htw⟩ : ∃ l, l = if s.buffersToWrite.length > 2 then s.buffersToWrite.take 2
      else s.buffersToWrite := ⟨_, rfl⟩
  have hpos := List.length_pos_of_ne_nil hne
  have hlen : toWrite.length = min 2 s.buffersToWrite.length := by
    rw [htw]
    split
    · exact List.length_take
    · omega
  have hsub : ∀ p ∈ toWrite, p ∈ s.buffersToWrite := by
    rw [htw]
    split
    · exact fun p hp => List.mem_of_mem_take hp
    · exact fun p hp => hp
  have hne' : toWrite ≠ [] := List.ne_nil_of_length_pos (by omega)
  obtain ⟨b₁, he₁, hb₁⟩ := takeBack_spec hne' fun hmem => hnone (hsub _ hmem)
  unfold LoggerPtrs.recycle
  simp only [← htw, assert_of h₁, assert_of hne', hb₁, Option.bind_eq_bind, Option.bind_some]
  split
  · next hn =>
      have htwo : 2 ≤ s.buffersToWrite.length := by
        rcases h₂ with ⟨-, htwo⟩ | hspare
        · exact htwo
        · exact absurd (Option.isNone_iff_eq_none.mp hn) hspare.ne_none
      have hlast : toWrite.dropLast ≠ [] := by
        apply List.ne_nil_of_length_pos
        rw [List.length_dropLast]
        omega
      obtain ⟨b₂, he₂, hb₂⟩ := takeBack_spec hlast fun hmem =>
        hnone (hsub _ (List.dropLast_subset _ hmem))
      simp only [assert_of hlast, hb₂, Option.bind_some]
      exact ⟨_, rfl, w.current, w.buffers, w.next, ⟨b₁, rfl, he₁⟩, ⟨b₂, rfl, he₂⟩, rfl⟩
  · next hn =>
      have hspare : Spare s.newBuffer2 := by
        rcases h₂ with ⟨hnull, -⟩ | hspare
        · exact absurd (Option.isNone_iff_eq_none.mpr hnull) hn
        · exact hspare
      exact ⟨_, rfl, w.current, w.buffers, w.next, ⟨b₁, rfl, he₁⟩, hspare, rfl⟩

/-! ## Every thread goes on -/

/-- The thread can take this step: a line is shorter than a buffer, `Start` and `Stop`
are called in turn, and the back thread is where the step begins. -/
def Ready (s : LoggerPtrs SIZE) : LogAct → Prop
  | .append line => line.length < SIZE
  | .start | .stop => s.stopping = false
  | .join => s.stopping = true ∧ s.point = .finished
  | .wake _ => s.point = .waiting
  | .back _ => s.point.inLoop = true ∨ s.point = .starting ∧ s.running = true

/-- The back thread goes on, except where it finds that `Stop` has been called before
its first statement. -/
theorem Safe.back (w : s.Safe)
    (h : s.point.inLoop = true ∨ s.point = .starting ∧ s.running = true) :
    ∃ s', s.back = some s' ∧ s'.Safe := by
  have hl := w.locals
  unfold LoggerPtrs.back
  cases hp : s.point with
  | notStarted | waiting | finished => simp [hp, BackPoint.inLoop] at h
  | starting =>
      have hr : s.running = true := by
        rcases h with h | ⟨-, hr⟩
        · simp [hp, BackPoint.inLoop] at h
        · exact hr
      simp only [assert_of hr, Option.bind_eq_bind, Option.bind_some]
      exact ⟨_, rfl, w.current, w.buffers, w.next, spare_new, spare_new, rfl⟩
  | testing =>
      rw [hp] at hl
      obtain ⟨h₁, h₂, hw⟩ := hl
      simp only [assert_of h₁.length_eq, assert_of h₂.length_eq, assert_of hw,
        Option.bind_eq_bind, Option.bind_some]
      split
      · exact ⟨_, rfl, w.current, w.buffers, w.next, h₁, h₂, hw⟩
      · exact ⟨_, rfl, w.current, w.buffers, w.next, trivial⟩
  | locking => exact ⟨_, rfl, w.waitOrSwap (hp ▸ hl :)⟩
  | swapped =>
      rw [hp] at hl
      simp only [assert_of hl.2.2.1, Option.bind_eq_bind, Option.bind_some]
      split
      · exact ⟨_, rfl, w.goto hl.take⟩
      · exact ⟨_, rfl, w.goto hl⟩
  | writing i =>
      rw [hp] at hl
      dsimp only
      cases hi : s.buffersToWrite[i]? with
      | none => exact w.recycle hl
      | some buf =>
          obtain ⟨b, rfl⟩ := Option.ne_none_iff_exists'.mp fun h : buf = none =>
            hl.2.2.2 (h ▸ List.mem_of_getElem? hi)
          refine ⟨_, rfl, w.current, w.buffers, w.next, ?_⟩
          exact hl

/-- A thread that can go on takes its step, whatever the pointers are, and they are
safe again. -/
theorem Safe.step (w : s.Safe) (h : s.Ready a) : ∃ s', s.step a = some s' ∧ s'.Safe := by
  unfold LoggerPtrs.step
  cases a with
  | append line => exact w.append h
  | start =>
      have hs : s.stopping = false := h
      simp only [LoggerPtrs.start, hs, guard, if_true]
      split
      · exact ⟨_, rfl, w⟩
      · exact ⟨_, rfl, w.current, w.buffers, w.next, trivial⟩
  | stop =>
      have hs : s.stopping = false := h
      simp only [LoggerPtrs.stop, hs, guard, if_true]
      split
      · exact ⟨_, rfl, w.current, w.buffers, w.next, w.locals.of_eq rfl rfl rfl⟩
      · exact ⟨_, rfl, w⟩
  | join =>
      have hj : s.stopping = true ∧ s.point = .finished := h
      simp only [LoggerPtrs.join, hj, guard, and_self, if_true]
      exact ⟨_, rfl, w.current, w.buffers, w.next, trivial⟩
  | wake timeout =>
      have hw : s.point = .waiting := h
      simp only [hw, guard, if_true]
      exact ⟨_, rfl, w.waitOrSwap (hw ▸ w.locals :)⟩
  | back now => exact w.back h

/-- A step that was taken could be taken. -/
theorem ready_of_step (h : s.step a = some s') : s.Ready a := by
  cases a with
  | append line =>
      obtain ⟨c, -, h⟩ := Option.bind_eq_some_iff.mp h
      split at h
      · next hlt => exact Nat.lt_of_lt_of_le hlt c.avail_le
      · obtain ⟨c', -, h⟩ := Option.bind_eq_some_iff.mp h
        obtain ⟨_, hlt, -⟩ := Option.bind_eq_some_iff.mp h
        exact Nat.lt_of_lt_of_le (assert_eq_some_iff.mp hlt) c'.avail_le
  | start | stop | join | wake => exact (guard_bind_eq_some_iff.mp h).1
  | back now =>
      show s.point.inLoop = true ∨ s.point = .starting ∧ s.running = true
      unfold LoggerPtrs.step LoggerPtrs.back at h
      cases hp : s.point with
      | notStarted | waiting | finished => simp [hp] at h
      | testing | locking | swapped | writing => exact .inl rfl
      | starting =>
          simp only [hp] at h
          obtain ⟨_, hr, -⟩ := Option.bind_eq_some_iff.mp h
          exact .inr ⟨rfl, assert_eq_some_iff.mp hr⟩

variable {tr : List (LoggerPtrs SIZE × LogAct)}

theorem pointers_safe (hr : Run (stepOf step) (init SIZE) tr s) : s.Safe :=
  hr.invariant (I := Safe) safe_init fun w hst => by
    obtain ⟨u, hu, hsafe⟩ := w.step (ready_of_step hst)
    exact Option.some.inj (hu.symm.trans hst) ▸ hsafe

/-- Between the critical sections `currentBuffer_` is there, `nextBuffer_` is null only
when a buffer is full, and both spare buffers are there and empty at the head of the
loop; no assertion stops a thread that can go on. -/
theorem recycling_safe (hr : Run (stepOf step) (init SIZE) tr s) :
    s.currentBuffer ≠ none ∧ (s.nextBuffer = none → s.buffers ≠ []) ∧
      (s.point = .testing → Spare s.newBuffer1 ∧ Spare s.newBuffer2) ∧
      ∀ a, s.Ready a → ∃ s', s.step a = some s' := by
  have w := pointers_safe hr
  refine ⟨w.current, fun hn => ?_, fun hp => ?_, fun a ha => ?_⟩
  · rcases w.next with ⟨-, hne⟩ | hspare
    · exact hne
    · exact absurd hn hspare.ne_none
  · have hl := w.locals
    rw [hp] at hl
    exact ⟨hl.1, hl.2.1⟩
  · obtain ⟨s', hs', -⟩ := w.step ha
    exact ⟨s', hs'⟩

/-- Two lines that do not fit into one buffer, written and followed by `Stop` and
`Start`, and the same lines again. -/
def twoCycles : List LogAct :=
  [.start, .append [1, 2, 3], .append [4, 5, 6], .back "", .back "", .back "", .wake true,
    .back "", .back "", .back "", .back "", .stop, .back "", .join, .start, .back "",
    .append [1, 2, 3], .append [4, 5, 6]]

theorem spares_return : ∃ tr s, runAll step (init 4) twoCycles = some (tr, s) ∧
    s.nextBuffer = none ∧ s.buffers ≠ [] ∧ s.currentBuffer ≠ none ∧
    Spare s.newBuffer1 ∧ Spare s.newBuffer2 ∧ ∃ s', s.step (.back "") = some s' := by
  obtain ⟨tr, s, hrun, hn, hp⟩ : ∃ tr s, runAll step (init 4) twoCycles = some (tr, s) ∧
      s.nextBuffer = none ∧ s.point = .testing :=
    exists_computed (by decide +kernel)
  obtain ⟨hcur, hnext, hspares, hgo⟩ := recycling_safe (run_of_runAll hrun)
  have hready : s.Ready (.back "") := .inl (hp ▸ rfl)
  exact ⟨tr, s, hrun, hn, hnext hn, hcur, (hspares hp).1, (hspares hp).2, hgo _ hready⟩

end LoggerPtrs

/-! ## The buffers without their pointers -/

namespace AsyncLogger

variable {SIZE : ℕ} {s s' : AsyncLogger SIZE} {a : LogAct}

/-- The buffers that are there behind their pointers. -/
def view (s : AsyncLogger SIZE) : LoggerPtrs SIZE :=
  { running := s.running, stopping := s.isStopping, buffers := s.buffers.map some,
    currentBuffer := some s.currentBuffer, nextBuffer := s.nextBuffer, point := s.point,
    newBuffer1 := s.newBuffer1, newBuffer2 := s.newBuffer2,
    buffersToWrite := s.buffersToWrite.map some }

theorem view_append {line : List Byte} (h : s.append line = some s') :
    s.view.append line = some s'.view := by
  unfold append at h
  simp only [LoggerPtrs.append, view, Option.bind_eq_bind, Option.bind_some]
  split at h
  · next hlt =>
      rw [if_pos hlt]
      exact Option.some.inj h ▸ rfl
  · next hlt =>
      obtain ⟨_, hroom, h⟩ := Option.bind_eq_some_iff.mp h
      rw [if_neg hlt, ← Option.some.inj h]
      cases hn : s.nextBuffer with
      | none =>
          rw [assert_eq_some_iff, hn] at hroom
          simp [assert_of hroom, isStopping]
      | some b =>
          rw [assert_eq_some_iff, hn] at hroom
          simp [assert_of hroom, isStopping]

theorem view_swap (h : s.swap = some s') : s.view.swap = s'.view := by
  obtain ⟨b, hb, h⟩ := Option.bind_eq_some_iff.mp h
  unfold LoggerPtrs.swap
  cases hn : s.nextBuffer with
  | some next =>
      simp only [hn] at h
      simp [← Option.some.inj h, view, hb, hn, isStopping]
  | none =>
      simp only [hn] at h
      simp [← Option.some.inj h, view, hb, hn, isStopping]

theorem view_waitOrSwap {timeout : Bool} (h : s.waitOrSwap timeout = some s') :
    s.view.waitOrSwap timeout = s'.view := by
  have hempty : s.view.buffers ≠ [] ↔ s.buffers ≠ [] := not_congr List.map_eq_nil_iff
  unfold waitOrSwap at h
  unfold LoggerPtrs.waitOrSwap
  split at h
  · next hwait =>
      rw [if_pos ⟨hempty.mpr hwait.1, hwait.2⟩]
      exact Option.some.inj h ▸ rfl
  · next hwait =>
      rw [if_neg fun hview => hwait ⟨hempty.mp hview.1, hview.2⟩]
      exact view_swap h

theorem takeBack_map {bs : List (FixedBuffer SIZE)} {b : FixedBuffer SIZE}
    (h : bs.getLast? = some b) :
    bs.map some ≠ [] ∧
      LoggerPtrs.takeBack (bs.map some) = some (b.reset, bs.dropLast.map some) := by
  constructor
  · intro hnil
    rw [List.map_eq_nil_iff.mp hnil] at h
    exact Option.some_ne_none b h.symm
  · simp [LoggerPtrs.takeBack, List.getLast?_map, h, List.map_dropLast]

theorem view_recycle (h : s.recycle = some s') : s.view.recycle = some s'.view := by
  obtain ⟨toWrite, htw⟩ : ∃ l, l = if s.buffersToWrite.length > 2 then s.buffersToWrite.take 2
      else s.buffersToWrite := ⟨_, rfl⟩
  have hview : (if s.view.buffersToWrite.length > 2 then s.view.buffersToWrite.take 2
      else s.view.buffersToWrite) = toWrite.map some := by
    rw [htw]
    simp only [view, List.length_map]
    split
    · exact List.map_take.symm
    · rfl
  unfold recycle at h
  simp only [← htw, Option.bind_eq_bind, Option.bind_eq_some_iff] at h
  obtain ⟨_, h₁, b₁, hb₁, h⟩ := h
  obtain ⟨hne, hback⟩ := takeBack_map hb₁
  have h₁ : s.view.newBuffer1 = none := assert_eq_some_iff.mp h₁
  unfold LoggerPtrs.recycle
  simp only [hview, assert_of h₁, assert_of hne, hback, Option.bind_eq_bind, Option.bind_some]
  cases hn : s.newBuffer2 with
  | some b₂ =>
      simp only [hn] at h
      simp [← Option.some.inj h, view, hn, isStopping]
  | none =>
      simp only [hn, Option.bind_eq_some_iff] at h
      obtain ⟨b₂, hb₂, h⟩ := h
      obtain ⟨hne₂, hback₂⟩ := takeBack_map hb₂
      simp only [assert_of hne₂, hback₂]
      simp [← Option.some.inj h, view, hn, isStopping]

theorem view_back {now : String} (h : s.back now = some s') : s.view.back = some s'.view := by
  unfold back at h
  unfold LoggerPtrs.back
  have hv : s.view.point = s.point := rfl
  cases hp : s.point with
  | notStarted | waiting | finished => simp [hp] at h
  | starting =>
      simp only [hp] at h hv
      obtain ⟨_, hr, h⟩ := Option.bind_eq_some_iff.mp h
      have hr : s.view.running = true := assert_eq_some_iff.mp hr
      simp only [hv, assert_of hr, Option.bind_eq_bind, Option.bind_some]
      exact Option.some.inj h ▸ rfl
  | testing =>
      simp only [hp] at h hv
      simp only [hv]
      split at h
      · next hr =>
          simp only [Option.bind_eq_bind, Option.bind_eq_some_iff, assert_eq_some_iff] at h
          obtain ⟨_, h₁, _, h₂, _, hw, h⟩ := h
          have hr : s.view.running = true := hr
          have h₁ : s.view.newBuffer1.map FixedBuffer.getLength = some 0 := h₁
          have h₂ : s.view.newBuffer2.map FixedBuffer.getLength = some 0 := h₂
          have hw : s.view.buffersToWrite = [] := List.map_eq_nil_iff.mpr hw
          rw [if_pos hr, assert_of h₁, assert_of h₂, assert_of hw]
          exact Option.some.inj h ▸ rfl
      · next hr =>
          have hr : ¬s.view.running = true := hr
          rw [if_neg hr]
          exact Option.some.inj h ▸ rfl
  | locking =>
      simp only [hp] at h hv
      simp only [hv]
      exact congrArg some (view_waitOrSwap h)
  | swapped =>
      simp only [hp] at h hv
      obtain ⟨_, hne, h⟩ := Option.bind_eq_some_iff.mp h
      have hne : s.view.buffersToWrite ≠ [] :=
        List.map_eq_nil_iff.not.mpr (assert_eq_some_iff.mp hne)
      have hlen : s.view.buffersToWrite.length = s.buffersToWrite.length := List.length_map _
      simp only [hv, assert_of hne, hlen, Option.bind_eq_bind, Option.bind_some]
      rw [← Option.some.inj h]
      unfold limit
      split
      · simp [view, isStopping, List.map_take]
      · rfl
  | writing i =>
      simp only [hp] at h hv
      simp only [hv]
      have hi : s.view.buffersToWrite[i]? = s.buffersToWrite[i]?.map some := List.getElem?_map
      cases hb : s.buffersToWrite[i]? with
      | none =>
          simp only [hb] at h
          simp only [hi, hb, Option.map_none]
          exact view_recycle h
      | some buf =>
          simp only [hb] at h
          simp only [hi, hb, Option.map_some]
          exact Option.some.inj h ▸ rfl

/-- The buffers that are there take the steps of their pointers. -/
theorem view_step (h : s.step a = some s') : s.view.step a = some s'.view := by
  cases a with
  | append line => exact view_append h
  | start =>
      obtain ⟨hc, h⟩ := guard_bind_eq_some_iff.mp h
      refine guard_bind_eq_some_iff.mpr ⟨hc, ?_⟩
      have hr : s.view.running = s.running := rfl
      rw [hr]
      split at h
      · next hr =>
          rw [if_pos hr]
          exact Option.some.inj h ▸ rfl
      · next hr =>
          rw [if_neg hr, ← Option.some.inj h]
          simp only [view, isStopping] at hc ⊢
          rw [hc]
  | stop =>
      obtain ⟨hc, h⟩ := guard_bind_eq_some_iff.mp h
      refine guard_bind_eq_some_iff.mpr ⟨hc, ?_⟩
      have hr : s.view.running = s.running := rfl
      rw [hr]
      split at h
      · next hr =>
          rw [if_pos hr]
          exact Option.some.inj h ▸ rfl
      · next hr =>
          rw [if_neg hr, ← Option.some.inj h]
          simp only [view, isStopping] at hc ⊢
          rw [hc]
  | join =>
      simp only [step, join] at h
      cases hc : s.control with
      | idle | stopped => simp [hc] at h
      | stopping n =>
          simp only [hc] at h
          obtain ⟨hp, h⟩ := guard_bind_eq_some_iff.mp h
          have hstop : s.view.stopping = true := by simp only [view, isStopping, hc]
          refine guard_bind_eq_some_iff.mpr ⟨⟨hstop, hp⟩, ?_⟩
          exact Option.some.inj h ▸ rfl
  | wake timeout =>
      obtain ⟨hp, h⟩ := guard_bind_eq_some_iff.mp h
      exact guard_bind_eq_some_iff.mpr ⟨hp, congrArg some (view_waitOrSwap h)⟩
  | back now => exact view_back h

/-- A thread of the logger goes on whenever its pointers let it. -/
theorem Slots.progress (w : s.Slots) (h : s.view.Ready a) : ∃ s', s.step a = some s' := by
  rw [← Option.isSome_iff_exists]
  cases a with
  | append line => exact append_isSome w h
  | start =>
      have hc : s.isStopping = false := h
      simp only [AsyncLogger.step, AsyncLogger.start, hc, guard, if_true]
      cases s.running with
      | true => rfl
      | false => rfl
  | stop =>
      have hc : s.isStopping = false := h
      simp only [AsyncLogger.step, AsyncLogger.stop, hc, guard, if_true]
      cases s.running with
      | true => rfl
      | false => rfl
  | join =>
      obtain ⟨hstop, hp⟩ : s.isStopping = true ∧ s.point = .finished := h
      cases hc : s.control with
      | idle | stopped => simp [isStopping, hc] at hstop
      | stopping n =>
          simp only [AsyncLogger.step, AsyncLogger.join, hc, hp, guard, if_true]
          rfl
  | wake timeout => exact wake_isSome w h
  | back now =>
      have h : s.point.inLoop = true ∨ s.point = .starting ∧ s.running = true := h
      have hne : ∀ p : BackPoint, p.inLoop = false → p ≠ .starting → s.point ≠ p := by
        rintro p hp hs rfl
        rcases h with h | ⟨h, -⟩
        · exact Bool.noConfusion (hp.symm.trans h)
        · exact hs h
      refine back_isSome w (hne _ rfl BackPoint.noConfusion) (hne _ rfl BackPoint.noConfusion)
        (hne _ rfl BackPoint.noConfusion) fun hp => ?_
      rcases h with h | ⟨-, hr⟩
      · rw [hp] at h
        exact Bool.noConfusion h
      · exact hr

/-- The pointers take no other steps than the buffers behind them. -/
theorem view_step_iff {p : LoggerPtrs SIZE} (w : s.Slots) :
    s.view.step a = some p ↔ ∃ s', s.step a = some s' ∧ p = s'.view := by
  constructor
  · intro h
    obtain ⟨s', hs'⟩ := w.progress (LoggerPtrs.ready_of_step h)
    exact ⟨s', hs', Option.some.inj (h.symm.trans (view_step hs'))⟩
  · rintro ⟨s', hs', rfl⟩
    exact view_step hs'

/-- The runs of the pointers are those of the logger, with the same actions. -/
theorem view_run_iff {p : LoggerPtrs SIZE} {acts : List LogAct} :
    (∃ tr, Run (stepOf LoggerPtrs.step) (LoggerPtrs.init SIZE) tr p ∧ tr.map Prod.snd = acts) ↔
      ∃ tr s, Run (stepOf step) (init SIZE) tr s ∧ p = s.view ∧ tr.map Prod.snd = acts := by
  constructor
  · rintro ⟨tr, hr, rfl⟩
    obtain ⟨tr', s, hrun, ⟨rfl, -⟩, hacts⟩ := hr.simulates (T := stepOf step)
      (R := fun p s => p = s.view ∧ s.Slots) (G := fun _ _ => True) (fun _ _ => trivial)
      ⟨rfl, slots_init⟩ (by
        rintro p s a p' ⟨rfl, w⟩ - hst
        obtain ⟨s', hs', hp⟩ := (view_step_iff w).mp hst
        exact ⟨s', hs', hp, w.step (steps_of_step hs')⟩)
    exact ⟨tr', s, hrun, rfl, hacts⟩
  · rintro ⟨tr, s, hr, rfl, rfl⟩
    obtain ⟨tr', p, hrun, rfl, hacts⟩ := hr.simulates (T := stepOf LoggerPtrs.step)
      (R := fun s p => p = s.view) (G := fun _ _ => True) (fun _ _ => trivial) rfl
      fun hp _ hst => ⟨_, hp ▸ view_step hst, rfl⟩
    exact ⟨tr', hrun, hacts⟩

end AsyncLogger

end Muduo
