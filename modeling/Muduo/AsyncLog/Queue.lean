/-
# `Muduo.AsyncLog.Queue` — the buffers are a queue of lines

The content of the logger is in two parts: what the back thread has taken out of
`buffers_` and `currentBuffer_` in its critical sections (`taken`), and what is
still there (`queued`).  A step does one of three things with them:

    Append             puts a line behind the last chunk that is queued, or
                       begins a new chunk with it
    critical section   moves all that is queued behind what is taken
    all others         nothing: a buffer that is written, dropped, reset or
                       handed on was taken or is empty

For this the five slots have to be disjoint and the spare buffers empty
(`Slots`).  So the chunks are whole in every state (`whole_of_run`), and as long
as no batch is larger than 25 all that was taken has been or will be written
(`log_is_queue`).  The lines are those of the `Append` calls of the run, in the
order in which they took the mutex (`appended_of_run`).
-/
import Muduo.AsyncLog.Model
import Muduo.Lib.Chunks
import Muduo.Lib.Runs

namespace Muduo

open Chunks Runs

/-- The line of an `Append`. -/
def LogAct.line? : LogAct → Option (List Byte)
  | append line => some line
  | start | stop | join | wake _ | back _ => none

namespace AsyncLogger

variable {SIZE : ℕ} {s s' : AsyncLogger SIZE} {a : LogAct}

/-! ## The slots -/

/-- What the locals of `ThreadFunc` hold at each point. -/
def Locals (s : AsyncLogger SIZE) : BackPoint → Prop
  | .notStarted | .finished | .starting => s.erased = []
  | .testing | .locking | .waiting =>
      s.newBuffer1 ≠ none ∧ s.newBuffer2 ≠ none ∧ s.buffersToWrite = [] ∧ s.erased = []
  | .swapped =>
      s.newBuffer1 = none ∧ s.buffersToWrite ≠ [] ∧
        (s.newBuffer2 = none → 2 ≤ s.buffersToWrite.length) ∧ s.erased = []
  | .writing i =>
      s.newBuffer1 = none ∧ s.buffersToWrite ≠ [] ∧
        (s.newBuffer2 = none → 2 ≤ s.buffersToWrite.length) ∧ i ≤ s.buffersToWrite.length

/-- The spare buffers are empty, `nextBuffer_` is null only when a buffer is full,
and there is a back thread exactly between `Start` and the end of `Stop`. -/
structure Slots (s : AsyncLogger SIZE) : Prop where
  nextBuffer : ∀ b ∈ s.nextBuffer, b.data = []
  newBuffer1 : ∀ b ∈ s.newBuffer1, b.data = []
  newBuffer2 : ∀ b ∈ s.newBuffer2, b.data = []
  nextTaken : s.nextBuffer = none → s.buffers ≠ []
  locals : s.Locals s.point
  running : s.running = true → s.isStopping = false
  ended : s.running = false → s.isStopping = false → s.point = .notStarted ∨ s.point = .finished

theorem slots_init : (init SIZE).Slots where
  nextBuffer := by rintro b ⟨⟩; rfl
  newBuffer1 := nofun
  newBuffer2 := nofun
  nextTaken := nofun
  locals := rfl
  running := nofun
  ended := fun _ _ => .inl rfl

/-- `Append` puts the line into `currentBuffer_`, or this into `buffers_` and the
line into an empty one. -/
theorem append_cases {line : List Byte} (w : s.Slots) (h : s.append line = some s') :
    (line.length < s.currentBuffer.avail ∧
      s' = { s with currentBuffer := s.currentBuffer.append line,
                    appended := s.appended ++ [line] }) ∨
    ∃ b : FixedBuffer SIZE, b.data = line ∧
      s' = { s with buffers := s.buffers ++ [s.currentBuffer], nextBuffer := none,
                    currentBuffer := b, appended := s.appended ++ [line] } := by
  unfold append at h
  split at h
  · next hlt => exact .inl ⟨hlt, (Option.some.inj h).symm⟩
  · obtain ⟨_, hlt, h⟩ := Option.bind_eq_some_iff.mp h
    obtain rfl := Option.some.inj h
    rw [assert_eq_some_iff] at hlt
    refine .inr ⟨_, ?_, rfl⟩
    rw [FixedBuffer.append_data hlt]
    cases hn : s.nextBuffer with
    | none => rfl
    | some b => rw [w.nextBuffer b hn, List.nil_append]

/-- The critical section hands over all that is queued, and leaves a
`currentBuffer_` and a `nextBuffer_` out of the spare buffers. -/
theorem swap_cases (h : s.swap = some s') :
    ∃ (b : FixedBuffer SIZE) (next new2 : Option (FixedBuffer SIZE)), s.newBuffer1 = some b ∧
      ((next = s.nextBuffer ∧ next ≠ none ∧ new2 = s.newBuffer2) ∨
        (s.nextBuffer = none ∧ next = s.newBuffer2 ∧ new2 = none)) ∧
      s' = { s with point := .swapped, buffersToWrite := s.buffers ++ [s.currentBuffer],
                    buffers := s.buffersToWrite, currentBuffer := b, newBuffer1 := none,
                    nextBuffer := next, newBuffer2 := new2 } := by
  obtain ⟨b, hb, h⟩ := Option.bind_eq_some_iff.mp h
  refine ⟨b, ?_⟩
  cases hn : s.nextBuffer with
  | some next =>
      simp only [hn] at h
      exact ⟨_, _, hb, .inl ⟨rfl, nofun, rfl⟩, (Option.some.inj h).symm⟩
  | none =>
      simp only [hn] at h
      exact ⟨_, _, hb, .inr ⟨rfl, rfl, rfl⟩, (Option.some.inj h).symm⟩

/-- Behind the loop the two spare buffers are there again. -/
theorem recycle_cases (h : s.recycle = some s') :
    ∃ b₁ b₂ : FixedBuffer SIZE, b₁.data = [] ∧ (s.newBuffer2 = some b₂ ∨ b₂.data = []) ∧
      s' = { s with point := .testing, newBuffer1 := some b₁, newBuffer2 := some b₂,
                    buffersToWrite := [], erased := [],
                    log := s.log ++ s.dropRecords } := by
  simp only [recycle, Option.bind_eq_bind, Option.bind_eq_some_iff] at h
  obtain ⟨_, -, b, -, h⟩ := h
  cases hn : s.newBuffer2 with
  | some b₂ =>
      simp only [hn] at h
      exact ⟨_, b₂, b.reset_data, .inl rfl, (Option.some.inj h).symm⟩
  | none =>
      simp only [hn, Option.bind_eq_some_iff] at h
      obtain ⟨b', -, h⟩ := h
      exact ⟨_, _, b.reset_data, .inr b'.reset_data, (Option.some.inj h).symm⟩

theorem Locals.of_eq {p : BackPoint} (h : s.Locals p) (h₁ : s'.newBuffer1 = s.newBuffer1)
    (h₂ : s'.newBuffer2 = s.newBuffer2) (hw : s'.buffersToWrite = s.buffersToWrite)
    (he : s'.erased = s.erased) : s'.Locals p := by
  unfold Locals at h ⊢
  rw [h₁, h₂, hw, he]
  exact h

/-- The thread that controls the logger has not ended the back thread. -/
theorem Slots.alive (w : s.Slots) (hs : s.point ≠ .notStarted) (hf : s.point ≠ .finished) :
    s.running = false → s.isStopping = false → False := by
  intro hr hc
  rcases w.ended hr hc with h | h
  · exact hs h
  · exact hf h

theorem Slots.append {line : List Byte} (w : s.Slots) (h : s.append line = some s') :
    s'.Slots := by
  rcases append_cases w h with ⟨-, rfl⟩ | ⟨b, -, rfl⟩
  · exact { w with locals := w.locals.of_eq rfl rfl rfl rfl }
  · exact
      { w with
        nextBuffer := nofun
        nextTaken := fun _ => by simp
        locals := w.locals.of_eq rfl rfl rfl rfl }

/-- A step of the back thread that leaves the queue alone. -/
theorem Slots.goto (w : s.Slots) {p : BackPoint} (hs : s.point ≠ .notStarted)
    (hf : s.point ≠ .finished) {n₁ n₂ : Option (FixedBuffer SIZE)}
    {ws es : List (FixedBuffer SIZE)} {log : List Record} (h₁ : ∀ b ∈ n₁, b.data = [])
    (h₂ : ∀ b ∈ n₂, b.data = [])
    (hl : Locals { s with newBuffer1 := n₁, newBuffer2 := n₂, buffersToWrite := ws,
                          erased := es } p) :
    Slots { s with point := p, newBuffer1 := n₁, newBuffer2 := n₂, buffersToWrite := ws,
                   erased := es, log := log } :=
  { w with
    newBuffer1 := h₁
    newBuffer2 := h₂
    locals := hl.of_eq rfl rfl rfl rfl
    ended := fun hr hc => (w.alive hs hf hr hc).elim }

/-- The critical section of the back thread. -/
theorem Slots.swap (w : s.Slots) (hl : s.Locals .locking) (hs : s.point ≠ .notStarted)
    (hf : s.point ≠ .finished) (h : s.swap = some s') : s'.Slots := by
  obtain ⟨hn₁, hn₂, hw, he⟩ := hl
  have hne : s.buffers ++ [s.currentBuffer] ≠ [] := by simp
  obtain ⟨b, next, new2, -, hnext, rfl⟩ := swap_cases h
  rcases hnext with ⟨rfl, hsome, rfl⟩ | ⟨hnone, rfl, rfl⟩
  · exact
      { nextBuffer := w.nextBuffer
        newBuffer1 := nofun
        newBuffer2 := w.newBuffer2
        nextTaken := fun hnone => absurd hnone hsome
        locals := ⟨rfl, hne, fun hnone => absurd hnone hn₂, he⟩
        running := w.running
        ended := fun hr hc => (w.alive hs hf hr hc).elim }
  · have hlen : 2 ≤ (s.buffers ++ [s.currentBuffer]).length := by
      have hpos := List.length_pos_of_ne_nil (w.nextTaken hnone)
      rw [List.length_append]
      exact Nat.succ_le_succ hpos
    exact
      { nextBuffer := w.newBuffer2
        newBuffer1 := nofun
        newBuffer2 := nofun
        nextTaken := fun hnone => absurd hnone hn₂
        locals := ⟨rfl, hne, fun _ => hlen, he⟩
        running := w.running
        ended := fun hr hc => (w.alive hs hf hr hc).elim }

theorem Slots.limit {now : String} (w : s.Slots) (hp : s.point = .swapped) :
    (s.limit now).Slots := by
  have hs : s.point ≠ .notStarted := by rw [hp]; exact nofun
  have hf : s.point ≠ .finished := by rw [hp]; exact nofun
  obtain ⟨hn₁, hne, hn₂, -⟩ : s.Locals .swapped := hp ▸ w.locals
  unfold AsyncLogger.limit
  split
  · next hlt =>
      have hlen : (s.buffersToWrite.take 2).length = 2 := by
        rw [List.length_take]
        omega
      refine w.goto hs hf w.newBuffer1 w.newBuffer2
        ⟨hn₁, fun h => ?_, fun _ => Nat.le_of_eq hlen.symm, Nat.zero_le _⟩
      exact nomatch hlen.symm.trans (congrArg List.length h)
  · exact w.goto hs hf w.newBuffer1 w.newBuffer2 ⟨hn₁, hne, hn₂, Nat.zero_le _⟩

theorem Slots.recycle {i : ℕ} (w : s.Slots) (hp : s.point = .writing i)
    (h : s.recycle = some s') : s'.Slots := by
  have hs : s.point ≠ .notStarted := by rw [hp]; exact nofun
  have hf : s.point ≠ .finished := by rw [hp]; exact nofun
  obtain ⟨b₁, b₂, hb₁, hb₂, rfl⟩ := recycle_cases h
  refine w.goto hs hf ?_ ?_ ⟨nofun, nofun, rfl, rfl⟩
  · rintro b ⟨⟩
    exact hb₁
  · rintro b ⟨⟩
    rcases hb₂ with hb₂ | hb₂
    · exact w.newBuffer2 _ hb₂
    · exact hb₂

theorem Slots.back (w : s.Slots) (h : BackStep s s') : s'.Slots := by
  have hne : ∀ {p : BackPoint}, s.point = p → p ≠ .notStarted → p ≠ .finished →
      s.point ≠ .notStarted ∧ s.point ≠ .finished := fun hp hs hf => hp ▸ ⟨hs, hf⟩
  have hl := w.locals
  cases h with
  | begin hp hr =>
      obtain ⟨hs, hf⟩ := hne hp nofun nofun
      rw [hp] at hl
      exact w.goto hs hf (by rintro b ⟨⟩; rfl) (by rintro b ⟨⟩; rfl) ⟨nofun, nofun, rfl, hl⟩
  | enter hp hr =>
      obtain ⟨hs, hf⟩ := hne hp nofun nofun
      rw [hp] at hl
      exact w.goto hs hf w.newBuffer1 w.newBuffer2 hl
  | leave hp hr =>
      rw [hp] at hl
      exact
        { w with
          locals := hl.2.2.2
          ended := fun _ _ => .inr rfl }
  | wait hp =>
      rcases hp with hp | hp
      · obtain ⟨hs, hf⟩ := hne hp nofun nofun
        rw [hp] at hl
        exact w.goto hs hf w.newBuffer1 w.newBuffer2 hl
      · obtain ⟨hs, hf⟩ := hne hp nofun nofun
        rw [hp] at hl
        exact w.goto hs hf w.newBuffer1 w.newBuffer2 hl
  | swap hp h =>
      rcases hp with hp | hp
      · obtain ⟨hs, hf⟩ := hne hp nofun nofun
        rw [hp] at hl
        exact w.swap hl hs hf h
      · obtain ⟨hs, hf⟩ := hne hp nofun nofun
        rw [hp] at hl
        exact w.swap hl hs hf h
  | limit now hp => exact w.limit hp
  | write i buf hp hi =>
      obtain ⟨hs, hf⟩ := hne hp nofun nofun
      rw [hp] at hl
      obtain ⟨hn₁, hne, hn₂, -⟩ := hl
      obtain ⟨hlt, -⟩ := List.getElem?_eq_some_iff.mp hi
      exact w.goto hs hf w.newBuffer1 w.newBuffer2 ⟨hn₁, hne, hn₂, hlt⟩
  | recycle i hp hi h => exact w.recycle hp h

theorem Slots.step (w : s.Slots) (h : Steps s a s') : s'.Slots := by
  cases h with
  | append line h => exact w.append h
  | started hr => exact w
  | start hc hr =>
      have he : s.erased = [] := by
        have hl := w.locals
        rcases w.ended hr hc with hp | hp
        · exact (hp ▸ hl :)
        · exact (hp ▸ hl :)
      exact { w with locals := he, running := fun _ => rfl, ended := nofun }
  | stop hr =>
      exact { w with locals := w.locals.of_eq rfl rfl rfl rfl, running := nofun, ended := nofun }
  | stopped hc hr =>
      exact
        { w with
          locals := w.locals.of_eq rfl rfl rfl rfl
          running := fun _ => rfl
          ended := fun hr _ => w.ended hr hc }
  | join n hc hp =>
      exact
        { w with
          locals := w.locals.of_eq rfl rfl rfl rfl
          running := fun _ => rfl
          ended := fun _ _ => .inr hp }
  | wake timeout h => exact w.back h
  | back now h => exact w.back h

/-! ## What is taken and what is queued -/

def contents (bs : List (FixedBuffer SIZE)) : List (List Byte) := bs.map FixedBuffer.data

@[simp] theorem contents_append (bs cs : List (FixedBuffer SIZE)) :
    contents (bs ++ cs) = contents bs ++ contents cs := List.map_append

/-- The part of `buffers_to_write` that is still to be written. -/
def unwritten (s : AsyncLogger SIZE) : List (FixedBuffer SIZE) :=
  match s.point with
  | .swapped => s.buffersToWrite
  | .writing i => s.buffersToWrite.drop i
  | .notStarted | .starting | .testing | .locking | .waiting | .finished => []

/-- The chunks of earlier batches and of the present one. -/
def processed (s : AsyncLogger SIZE) : List (List Byte) := s.log.filterMap Record.buffer?

/-- What the critical sections of the back thread have taken. -/
def taken (s : AsyncLogger SIZE) : List (List Byte) :=
  s.processed ++ contents (s.unwritten ++ s.erased)

/-- What it has not taken yet. -/
def queued (s : AsyncLogger SIZE) : List (List Byte) := contents (s.buffers ++ [s.currentBuffer])

/-- What a step does with the two parts. -/
inductive Effect (s : AsyncLogger SIZE) : LogAct → AsyncLogger SIZE → Prop
  | extend {s' : AsyncLogger SIZE} (line c : List Byte) (cs : List (List Byte))
      (hq : s.queued = cs ++ [c]) (hq' : s'.queued = cs ++ [c ++ line]) (ht : s'.taken = s.taken)
      (ha : s'.appended = s.appended ++ [line]) : Effect s (.append line) s'
  | fresh {s' : AsyncLogger SIZE} (line : List Byte) (hq : s'.queued = s.queued ++ [line])
      (ht : s'.taken = s.taken) (ha : s'.appended = s.appended ++ [line]) :
      Effect s (.append line) s'
  | swap {a : LogAct} {s' : AsyncLogger SIZE} (hp : s.point = .locking ∨ s.point = .waiting)
      (hq : s'.queued = [[]]) (ht : s'.taken = s.taken ++ s.queued)
      (ha : s'.appended = s.appended) : Effect s a s'
  | other {a : LogAct} {s' : AsyncLogger SIZE} (hq : s'.queued = s.queued)
      (ht : s'.taken = s.taken) (ha : s'.appended = s.appended) : Effect s a s'

theorem effect_append {line : List Byte} (w : s.Slots) (h : s.append line = some s') :
    Effect s (.append line) s' := by
  rcases append_cases w h with ⟨hlt, rfl⟩ | ⟨b, rfl, rfl⟩
  · refine .extend line s.currentBuffer.data (contents s.buffers) (contents_append _ _) ?_ rfl rfl
    rw [queued, contents_append]
    exact congrArg (fun d => contents s.buffers ++ [d]) (FixedBuffer.append_data hlt)
  · exact .fresh b.data (contents_append _ _) rfl rfl

theorem taken_of_no_batch (hp : s.unwritten = []) (he : s.erased = []) :
    s.taken = s.processed := by
  rw [taken, hp, he]
  exact List.append_nil _

theorem unwritten_of_outside (hp : s.point = .locking ∨ s.point = .waiting) :
    s.unwritten = [] := by
  rcases hp with hp | hp
  · simp only [unwritten, hp]
  · simp only [unwritten, hp]

theorem locals_of_outside (w : s.Slots) (hp : s.point = .locking ∨ s.point = .waiting) :
    s.Locals .locking := by
  have hl := w.locals
  rcases hp with hp | hp
  · exact (hp ▸ hl :)
  · exact (hp ▸ hl :)

theorem taken_swap (w : s.Slots) (hp : s.point = .locking ∨ s.point = .waiting)
    (h : s.swap = some s') : s'.taken = s.taken ++ s.queued := by
  obtain ⟨-, -, -, he⟩ := locals_of_outside w hp
  obtain ⟨b, next, new2, -, -, rfl⟩ := swap_cases h
  rw [taken_of_no_batch (unwritten_of_outside hp) he, taken]
  simp only [he, List.append_nil]
  rfl

/-- The back thread appends no line. -/
theorem BackStep.appended (h : BackStep s s') : s'.appended = s.appended := by
  cases h with
  | begin | enter | leave | wait | write => rfl
  | swap hp h =>
      obtain ⟨b, next, new2, -, -, rfl⟩ := swap_cases h
      rfl
  | limit now hp =>
      unfold AsyncLogger.limit
      split <;> rfl
  | recycle i hp hi h =>
      obtain ⟨b₁, b₂, -, -, rfl⟩ := recycle_cases h
      rfl

theorem effect_swap (w : s.Slots) (hp : s.point = .locking ∨ s.point = .waiting)
    (h : s.swap = some s') : Effect s a s' := by
  refine .swap hp ?_ (taken_swap w hp h) (BackStep.swap hp h).appended
  obtain ⟨-, -, hw, -⟩ := locals_of_outside w hp
  obtain ⟨b, next, new2, hb, -, rfl⟩ := swap_cases h
  simp only [queued, hw, List.nil_append]
  exact congrArg (fun d => [d]) (w.newBuffer1 b hb)

@[simp] theorem filterMap_snoc_message (log : List Record) (text : List Byte) :
    (log ++ [Record.message text]).filterMap Record.buffer? = log.filterMap Record.buffer? := by
  rw [List.filterMap_append]
  exact List.append_nil _

/-- The buffers that a large batch loses are still in `taken`. -/
theorem taken_limit {now : String} (hp : s.point = .swapped) (he : s.erased = []) :
    (s.limit now).taken = s.taken := by
  have hs : s.taken = s.processed ++ contents s.buffersToWrite := by
    simp only [taken, unwritten, hp, he, List.append_nil]
  rw [hs]
  unfold limit
  split
  · simp only [taken, unwritten, processed, filterMap_snoc_message, List.drop_zero,
      List.take_append_drop]
  · simp only [taken, unwritten, he, List.drop_zero, List.append_nil]
    rfl

theorem taken_write {i : ℕ} {buf : FixedBuffer SIZE} (hp : s.point = .writing i)
    (hi : s.buffersToWrite[i]? = some buf) :
    taken { s with point := .writing (i + 1), log := s.log ++ [.written buf.data] } = s.taken := by
  obtain ⟨hlt, rfl⟩ := List.getElem?_eq_some_iff.mp hi
  have hdrop := List.drop_eq_getElem_cons hlt
  simp only [taken, unwritten, processed, hp, hdrop, List.filterMap_append, List.append_assoc]
  rfl

theorem filterMap_dropRecords (s : AsyncLogger SIZE) :
    s.dropRecords.filterMap Record.buffer? = contents s.erased := by
  unfold dropRecords contents
  rw [List.filterMap_map]
  exact congrFun List.filterMap_eq_map _

theorem effect_recycle {i : ℕ} (hp : s.point = .writing i) (hi : s.buffersToWrite[i]? = none)
    (h : s.recycle = some s') : Effect s a s' := by
  have hdrop : s.buffersToWrite.drop i = [] :=
    List.drop_eq_nil_of_le (List.getElem?_eq_none_iff.mp hi)
  obtain ⟨b₁, b₂, -, -, rfl⟩ := recycle_cases h
  refine .other rfl ?_ rfl
  have hs : s.taken = s.processed ++ contents s.erased := by
    simp only [taken, unwritten, hp, hdrop, List.nil_append]
  rw [hs]
  simp only [taken, unwritten, processed, List.filterMap_append, filterMap_dropRecords,
    List.append_nil]
  exact List.append_nil _

/-- A step between batches. -/
theorem effect_goto {p : BackPoint} {n₁ n₂ : Option (FixedBuffer SIZE)}
    {ws : List (FixedBuffer SIZE)} (hu : s.unwritten = [])
    (hu' : unwritten { s with point := p, buffersToWrite := ws } = []) :
    Effect s a { s with point := p, newBuffer1 := n₁, newBuffer2 := n₂, buffersToWrite := ws } := by
  refine .other rfl ?_ rfl
  have h : unwritten { s with point := p, newBuffer1 := n₁, newBuffer2 := n₂,
                              buffersToWrite := ws } =
      s.unwritten := hu'.trans hu.symm
  rw [taken, taken, h]
  rfl

theorem effect_back (w : s.Slots) (h : BackStep s s') : Effect s a s' := by
  cases h with
  | begin hp | enter hp | leave hp => exact effect_goto (by simp only [unwritten, hp]) rfl
  | wait hp => exact effect_goto (unwritten_of_outside hp) rfl
  | swap hp h => exact effect_swap w hp h
  | limit now hp =>
      have hl : s.Locals .swapped := hp ▸ w.locals
      refine .other ?_ (taken_limit hp hl.2.2.2) (BackStep.limit now hp).appended
      unfold limit
      split <;> rfl
  | write i buf hp hi => exact .other rfl (taken_write hp hi) rfl
  | recycle i hp hi h => exact effect_recycle hp hi h

theorem effect_of_steps (w : s.Slots) (h : Steps s a s') : Effect s a s' := by
  cases h with
  | append line h => exact effect_append w h
  | started | stop | stopped | join => exact .other rfl rfl rfl
  | start hc hr =>
      have hu : s.unwritten = [] := by
        rcases w.ended hr hc with hp | hp
        · simp only [unwritten, hp]
        · simp only [unwritten, hp]
      refine .other rfl ?_ rfl
      rw [taken, taken, hu]
      rfl
  | wake timeout h => exact effect_back w h
  | back now h => exact effect_back w h

/-! ## The lines are whole -/

/-- The chunks that were taken and those that are queued are the lines that were
appended, cut between lines. -/
def Whole (s : AsyncLogger SIZE) : Prop := Cuts (s.taken ++ s.queued) s.appended

theorem whole_init : (init SIZE).Whole := cuts_empty

theorem Whole.step (h : s.Whole) (he : Effect s a s') : s'.Whole := by
  unfold Whole at h ⊢
  cases he with
  | extend line c cs hq hq' ht ha =>
      rw [ht, hq', ha, ← List.append_assoc]
      rw [hq, ← List.append_assoc] at h
      exact h.extend line
  | fresh line hq ht ha =>
      rw [ht, hq, ha, ← List.append_assoc]
      exact h.snoc line
  | swap hp hq ht ha =>
      rw [ht, hq, ha]
      exact h.snoc_nil
  | other hq ht ha =>
      rw [ht, hq, ha]
      exact h

variable {tr : List (AsyncLogger SIZE × LogAct)}

theorem whole_of_run (hr : Run (stepOf step) (init SIZE) tr s) : s.Whole := by
  have h : s.Slots ∧ s.Whole :=
    hr.invariant (I := fun s => s.Slots ∧ s.Whole) ⟨slots_init, whole_init⟩
      fun h hst =>
        ⟨h.1.step (steps_of_step hst), h.2.step (effect_of_steps h.1 (steps_of_step hst))⟩
  exact h.2

/-- Only `Append` appends, and its own line. -/
theorem Steps.appended (h : Steps s a s') : s'.appended = s.appended ++ a.line?.toList := by
  cases h with
  | append line h =>
      unfold AsyncLogger.append at h
      split at h
      · exact Option.some.inj h ▸ rfl
      · obtain ⟨_, -, h⟩ := Option.bind_eq_some_iff.mp h
        exact Option.some.inj h ▸ rfl
  | started | start | stop | stopped | join => exact (List.append_nil _).symm
  | wake timeout h | back now h => exact h.appended.trans (List.append_nil _).symm

/-- The lines of a run, in the order in which their calls took the mutex. -/
theorem appended_of_run (hr : Run (stepOf step) (init SIZE) tr s) :
    s.appended = tr.filterMap fun p => p.2.line? := by
  refine hr.invariant_trace (I := fun tr s => s.appended = tr.filterMap fun p => p.2.line?)
    (G := fun _ _ => True) (fun _ _ => trivial) rfl fun {tr t a u} h _ hst => ?_
  rw [(steps_of_step hst).appended, h, List.filterMap_append]
  cases a <;> rfl

/-! ## Nothing is dropped -/

/-- What has been passed to `LogFile::Append`. -/
def passed (s : AsyncLogger SIZE) : List (List Byte) := s.log.filterMap Record.passed?

/-- No batch has been shortened. -/
structure Undropped (s : AsyncLogger SIZE) : Prop where
  erased : s.erased = []
  passed : s.passed = s.processed

theorem Undropped.of_eq (h : s.Undropped) (he : s'.erased = s.erased) (hl : s'.log = s.log) :
    s'.Undropped := by
  refine ⟨he.trans h.erased, ?_⟩
  rw [AsyncLogger.passed, processed, hl]
  exact h.passed

theorem Undropped.back (h : s.Undropped) (hb : s.buffersToWrite.length ≤ 25)
    (hst : BackStep s s') : s'.Undropped := by
  cases hst with
  | begin | enter | leave | wait => exact h.of_eq rfl rfl
  | swap hp hst =>
      obtain ⟨b, next, new2, -, -, rfl⟩ := swap_cases hst
      exact h.of_eq rfl rfl
  | limit now hp =>
      rw [limit, if_neg (Nat.not_lt.mpr hb)]
      exact h.of_eq rfl rfl
  | write i buf hp hi =>
      refine ⟨h.erased, ?_⟩
      rw [AsyncLogger.passed, processed, List.filterMap_append, List.filterMap_append]
      exact congrArg (fun l => l ++ [buf.data]) h.passed
  | recycle i hp hi hst =>
      obtain ⟨b₁, b₂, -, -, rfl⟩ := recycle_cases hst
      have hlog : s.log ++ s.dropRecords = s.log := by
        rw [dropRecords, h.erased]
        exact List.append_nil _
      exact h.of_eq h.erased.symm hlog

theorem Undropped.step (h : s.Undropped) (hb : s.buffersToWrite.length ≤ 25)
    (hst : Steps s a s') : s'.Undropped := by
  cases hst with
  | append line hst =>
      unfold AsyncLogger.append at hst
      split at hst
      · exact Option.some.inj hst ▸ h.of_eq rfl rfl
      · obtain ⟨_, -, hst⟩ := Option.bind_eq_some_iff.mp hst
        exact Option.some.inj hst ▸ h.of_eq rfl rfl
  | started => exact h
  | start | stop | stopped | join => exact h.of_eq rfl rfl
  | wake timeout hst => exact h.back hb hst
  | back now hst => exact h.back hb hst

/-- While no batch has exceeded 25 buffers, what was passed to `LogFile::Append`,
the unwritten part of the batch, `buffers_` and `currentBuffer_` are, in this
order, the lines of the `Append` calls of the run, and no line is in two of the
chunks. -/
theorem log_is_queue (hr : Run (stepOf step) (init SIZE) tr s)
    (hb : ∀ p ∈ tr, p.1.buffersToWrite.length ≤ 25) :
    s.passed.flatten ++ (contents s.unwritten).flatten ++ (contents s.buffers).flatten ++
        s.currentBuffer.data = s.appended.flatten ∧
      Cuts (s.passed ++ contents (s.unwritten ++ s.buffers ++ [s.currentBuffer])) s.appended ∧
        s.appended = tr.filterMap fun p => p.2.line? := by
  have hu : s.Undropped :=
    hr.invariant_of (I := Undropped) (G := fun s _ => s.buffersToWrite.length ≤ 25) hb ⟨rfl, rfl⟩
      fun h hb hst => h.step hb (steps_of_step hst)
  have hw : Cuts (s.passed ++ contents (s.unwritten ++ s.buffers ++ [s.currentBuffer]))
      s.appended := by
    have hw := whole_of_run hr
    rw [Whole, taken, queued, hu.erased, ← hu.passed, List.append_nil, List.append_assoc,
      ← contents_append, ← List.append_assoc] at hw
    exact hw
  refine ⟨?_, hw, appended_of_run hr⟩
  have hflat := hw.flatten
  simp only [contents_append, List.flatten_append, ← List.append_assoc] at hflat
  rw [← hflat]
  exact congrArg _ (List.append_nil _).symm

/-- Two lines that fill a buffer, a third one while the first two are written. -/
def threeLines : List LogAct :=
  [.start, .append [1, 2], .append [3, 4], .back "", .back "", .back "", .wake true, .back "",
    .back "", .append [5]]

theorem threeLines_queued : ∃ tr s, runAll step (init 4) threeLines = some (tr, s) ∧
    s.passed = [[1, 2]] ∧ contents s.unwritten = [[3, 4]] ∧ s.currentBuffer.data = [5] ∧
    Cuts (s.passed ++ contents (s.unwritten ++ s.buffers ++ [s.currentBuffer])) s.appended := by
  obtain ⟨tr, s, hrun, hb, hp, hu, hc⟩ : ∃ tr s,
      runAll step (init 4) threeLines = some (tr, s) ∧
        (∀ p ∈ tr, p.1.buffersToWrite.length ≤ 25) ∧ s.passed = [[1, 2]] ∧
        contents s.unwritten = [[3, 4]] ∧ s.currentBuffer.data = [5] :=
    exists_computed (by decide)
  exact ⟨tr, s, hrun, hp, hu, hc, (log_is_queue (run_of_runAll hrun) hb).2.1⟩

/-! ## No assertion stops a thread -/

theorem append_isSome {line : List Byte} (w : s.Slots) (h : line.length < SIZE) :
    (s.step (.append line)).isSome := by
  unfold step append
  dsimp only
  split
  · rfl
  · cases hn : s.nextBuffer with
    | none =>
        have hlt : line.length < (FixedBuffer.new : FixedBuffer SIZE).avail := h
        simp only [assert_of hlt]
        rfl
    | some b =>
        have hlt : line.length < b.avail := by
          rw [FixedBuffer.avail_of_empty (w.nextBuffer b hn)]
          exact h
        simp only [assert_of hlt]
        rfl

theorem waitOrSwap_isSome {timeout : Bool} (hl : s.Locals .locking) :
    (s.waitOrSwap timeout).isSome := by
  obtain ⟨b, hb⟩ := Option.ne_none_iff_exists'.mp hl.1
  unfold waitOrSwap swap
  split
  · rfl
  · cases hn : s.nextBuffer with
    | none =>
        rw [hb]
        rfl
    | some next =>
        rw [hb]
        rfl

theorem recycle_isSome {i : ℕ} (hl : s.Locals (.writing i)) : s.recycle.isSome := by
  obtain ⟨hn₁, hne, hn₂, -⟩ := hl
  obtain ⟨toWrite, htw⟩ : ∃ l, l = if s.buffersToWrite.length > 2 then s.buffersToWrite.take 2
      else s.buffersToWrite := ⟨_, rfl⟩
  have hlen : toWrite.length = min 2 s.buffersToWrite.length := by
    rw [htw]
    split
    · exact List.length_take
    · omega
  have hpos := List.length_pos_of_ne_nil hne
  obtain ⟨b, hb⟩ : ∃ b, toWrite.getLast? = some b := by
    rw [← Option.isSome_iff_exists, List.getLast?_isSome]
    exact List.ne_nil_of_length_pos (by omega)
  unfold recycle
  rw [← htw, assert_of hn₁]
  simp only [hb, Option.bind_eq_bind, Option.bind_some]
  cases hn : s.newBuffer2 with
  | some _ => rfl
  | none =>
      have h2 := hn₂ hn
      obtain ⟨b', hb'⟩ : ∃ b, toWrite.dropLast.getLast? = some b := by
        rw [← Option.isSome_iff_exists, List.getLast?_isSome]
        refine List.ne_nil_of_length_pos ?_
        rw [List.length_dropLast]
        omega
      simp only [hb']
      rfl

/-- The back thread always goes on, except where it finds that `Stop` has been
called before its first statement. -/
theorem back_isSome {now : String} (w : s.Slots) (hs : s.point ≠ .notStarted)
    (hf : s.point ≠ .finished) (hw : s.point ≠ .waiting)
    (hr : s.point = .starting → s.running = true) : (s.step (.back now)).isSome := by
  unfold step back
  have hl := w.locals
  cases hp : s.point with
  | notStarted => exact absurd hp hs
  | finished => exact absurd hp hf
  | waiting => exact absurd hp hw
  | starting =>
      simp only [assert_of (hr hp)]
      rfl
  | testing =>
      rw [hp] at hl
      obtain ⟨hn₁, hn₂, hbw, -⟩ := hl
      obtain ⟨b₁, hb₁⟩ := Option.ne_none_iff_exists'.mp hn₁
      obtain ⟨b₂, hb₂⟩ := Option.ne_none_iff_exists'.mp hn₂
      have h₁ : s.newBuffer1.map FixedBuffer.getLength = some 0 := by
        rw [hb₁]
        exact congrArg some (List.length_eq_zero_iff.mpr (w.newBuffer1 b₁ hb₁))
      have h₂ : s.newBuffer2.map FixedBuffer.getLength = some 0 := by
        rw [hb₂]
        exact congrArg some (List.length_eq_zero_iff.mpr (w.newBuffer2 b₂ hb₂))
      simp only [assert_of h₁, assert_of h₂, assert_of hbw]
      split
      · rfl
      · rfl
  | locking => exact waitOrSwap_isSome (hp ▸ hl :)
  | swapped =>
      rw [hp] at hl
      simp only [assert_of hl.2.1]
      rfl
  | writing i =>
      dsimp only
      split
      · rfl
      · exact recycle_isSome (hp ▸ hl :)

theorem wake_isSome {timeout : Bool} (w : s.Slots) (hp : s.point = .waiting) :
    (s.step (.wake timeout)).isSome := by
  have h : s.step (.wake timeout) = s.waitOrSwap timeout := by
    simp only [step, hp, guard, if_true]
    rfl
  rw [h]
  exact waitOrSwap_isSome (hp ▸ w.locals :)

end AsyncLogger

end Muduo
