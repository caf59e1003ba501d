/-
# `Muduo.LoopThread.Model` — EventLoopThread.h, EventLoopThread.cpp

Two threads: the owner, which calls `Run` and later the destructor, and the
thread that `Run` starts, with the loop on its stack.  Each has a program
counter, and a step takes one of them over one critical section of `mtx_` or one
access to what they share.

    owner           the next step of the owner in Run or in the destructor
    destroy         the owner, with Run returned, enters the destructor
    spurious        the owner's wait returns without a notification
    thread          the next step of ThreadFunc; in Loop() that of EventLoop.Model
    quit            a callback of the loop, or initCb_, calls Quit()
    enqueue t       thread t makes a call of EnqueueEventLoop …
    finish t        … and ends it

The destructor reads `loop_` without the mutex, once to test it and once to call
`Quit`.  What it has read can be out of date when `Quit` uses it: the loop ends with
the thread, on whose stack it is.  The program is `aborted`, and there are no further
steps, when

    loop_ is null the second time           Quit through a null pointer
    the thread has ended in front of Quit,  Quit, or its WakeUp, on an EventLoop
    or within it                            that is destroyed
    the assertion of Quit fails

The assertion and the store of a `Quit` are one step, as in EventLoop.Model, and so is
its end: a loop that is gone at any access of `WakeUp` is gone at the last of them.
-/
import Muduo.EventLoop.Model

namespace Muduo

/-- Where the owner is. -/
inductive OwnerPoint
  | constructed
  /-- in `Run`, before the test of `while (loop_ == nullptr && !isExit_)` -/
  | testing
  /-- in `cv_.wait` -/
  | waiting
  /-- `Run` has returned -/
  | running
  /-- in the destructor, before the test of `loop_` -/
  | exiting
  /-- before `loop_` is read for `loop_->Quit()` -/
  | quitting
  /-- before the assertion of `Quit` -/
  | asserting
  /-- in `Quit`, after its store -/
  | waking
  /-- before or in `join` -/
  | joining
  | destroyed
deriving DecidableEq, Repr

/-- Where `ThreadFunc` is. -/
inductive FuncPoint
  | notStarted
  /-- `loop` is constructed, `initCb_` is called -/
  | initCb
  /-- before the critical section that publishes `loop_` -/
  | publishing
  /-- before `cv_.notify_one()` -/
  | notifying
  /-- before `loop.Loop()` -/
  | calling
  | looping
  /-- before `loop_ = nullptr` -/
  | clearing
  | finished
deriving DecidableEq, Repr

/-- The destructor has set `quit_`, and has not returned. -/
def OwnerPoint.hasQuit : OwnerPoint → Bool
  | waking | joining => true
  | _ => false

/-- The destructor is in `Quit`. -/
def OwnerPoint.inQuit : OwnerPoint → Bool
  | asserting | waking => true
  | _ => false

/-- `Loop()` has returned. -/
def FuncPoint.returned : FuncPoint → Bool
  | clearing | finished => true
  | _ => false

/-- `loop` is on the stack of the thread. -/
def FuncPoint.hasLoop : FuncPoint → Bool
  | notStarted | finished => false
  | _ => true

/-- The thread may be in code of the user. -/
def FuncPoint.userCode : FuncPoint → Bool
  | initCb | looping => true
  | _ => false

/-- `class EventLoopThread` with its loop and its two threads.  Of `loop_` it
matters whether it is null, of `IoThread_` whether it has been joined. -/
structure LoopThread where
  loop : Bool
  isExit : Bool
  owner : OwnerPoint
  thread : FuncPoint
  ev : EventLoop
  joined : Bool
  aborted : Bool

inductive ThreadAct
  | owner
  | destroy
  | spurious
  | thread
  | quit
  | enqueue (t : ℕ)
  | finish (t : ℕ)
deriving DecidableEq, Repr

namespace LoopThread

def ownerId : ℕ := 0
def threadId : ℕ := 1

def init : LoopThread :=
  { loop := false, isExit := false, owner := .constructed, thread := .notStarted,
    ev := .init threadId, joined := false, aborted := false }

/-- `Quit` in thread `t`, up to its store. -/
def callQuit (s : LoopThread) (t : ℕ) : Option LoopThread := do
  guard (s.ev.Free t)
  if s.ev.quit then some { s with aborted := true }
  else do
    let ev ← s.ev.step (.quit t)
    some { s with ev }

/-- The next step of the owner. -/
def ownerNext (s : LoopThread) : Option LoopThread :=
  match s.owner with
  | .constructed => some { s with owner := .testing, thread := .initCb }
  | .testing =>
      if s.loop || s.isExit then some { s with owner := .running }
      else some { s with owner := .waiting }
  | .exiting =>
      if s.loop then some { s with owner := .quitting } else some { s with owner := .destroyed }
  | .quitting =>
      if s.loop then some { s with owner := .asserting } else some { s with aborted := true }
  | .asserting =>
      if s.thread.hasLoop then { s with owner := .waking }.callQuit ownerId
      else some { s with aborted := true }
  | .waking =>
      if s.thread.hasLoop then do
        let ev ← s.ev.step (.finish ownerId)
        some { s with owner := .joining, ev }
      else some { s with aborted := true }
  | .joining => do
      guard (s.thread = .finished)
      some { s with owner := .destroyed, joined := true }
  | .waiting | .running | .destroyed => none

/-- `cv_.notify_one()`. -/
def notify (s : LoopThread) : LoopThread :=
  if s.owner = .waiting then { s with owner := .testing } else s

/-- The next step of `ThreadFunc`. -/
def threadNext (s : LoopThread) : Option LoopThread :=
  match s.thread with
  | .initCb => do
      guard (s.ev.call threadId = none)
      some { s with thread := .publishing }
  | .publishing =>
      if s.isExit = false then some { s with thread := .notifying, loop := true }
      else some { s with thread := .finished }.notify
  | .notifying => some { s with thread := .calling }.notify
  | .calling => do
      let ev ← s.ev.step .loop
      some { s with thread := .looping, ev }
  | .looping => do
      let ev ← s.ev.step .loop
      some { s with thread := if ev.point = .outside then .clearing else .looping, ev }
  | .clearing => some { s with thread := .finished, loop := false }
  | .notStarted | .finished => none

/-- Thread `t` may call the loop: the thread itself in code of the user, others while
the loop exists, the owner when it has it. -/
def mayCall (s : LoopThread) (t : ℕ) : Bool :=
  if t = ownerId then s.owner = .running && s.thread.hasLoop
  else if t = threadId then s.thread.userCode
  else s.thread.hasLoop

def step (s : LoopThread) (a : ThreadAct) : Option LoopThread := do
  guard (s.aborted = false)
  match a with
  | .owner => s.ownerNext
  | .destroy => do
      guard (s.owner = .running ∧ s.ev.call ownerId = none)
      some { s with owner := .exiting, isExit := true }
  | .spurious => do
      guard (s.owner = .waiting)
      some { s with owner := .testing }
  | .thread => s.threadNext
  | .quit => do
      guard (s.thread.userCode = true)
      s.callQuit threadId
  | .enqueue t => do
      guard (s.mayCall t = true)
      let ev ← s.ev.step (.enqueue t)
      some { s with ev }
  | .finish t => do
      guard (s.mayCall t = true)
      let ev ← s.ev.step (.finish t)
      some { s with ev }

/-! ## What a step can do -/

variable {s s' : LoopThread} {t : ℕ}

/-- `EnqueueEventLoop` and its end change the loop, and nothing else. -/
theorem call_cases {p : Prop} [Decidable p] {o : Option EventLoop}
    (h : (do guard p; let ev ← o; some { s with ev } : Option LoopThread) = some s') :
    ∃ ev, o = some ev ∧ s' = { s with ev } := by
  obtain ⟨-, h⟩ := guard_bind_eq_some_iff.mp h
  obtain ⟨ev, hev, h⟩ := Option.bind_eq_some_iff.mp h
  exact ⟨ev, hev, (Option.some.inj h).symm⟩

theorem callQuit_cases (h : s.callQuit t = some s') :
    (s.ev.quit = true ∧ s' = { s with aborted := true }) ∨
      (s.ev.quit = false ∧ ∃ ev, s.ev.step (.quit t) = some ev ∧ s' = { s with ev }) := by
  obtain ⟨-, h⟩ := guard_bind_eq_some_iff.mp h
  cases hq : s.ev.quit with
  | true =>
      rw [if_pos hq] at h
      exact .inl ⟨rfl, (Option.some.inj h).symm⟩
  | false =>
      rw [if_neg (by simp [hq])] at h
      obtain ⟨ev, hev, h⟩ := Option.bind_eq_some_iff.mp h
      exact .inr ⟨rfl, ev, hev, (Option.some.inj h).symm⟩

/-- The steps of the owner. -/
inductive OwnerStep (s : LoopThread) : LoopThread → Prop
  | run (ho : s.owner = .constructed) : OwnerStep s { s with owner := .testing, thread := .initCb }
  | found (ho : s.owner = .testing) : OwnerStep s { s with owner := .running }
  | wait (ho : s.owner = .testing) : OwnerStep s { s with owner := .waiting }
  | tested (ho : s.owner = .exiting) (hl : s.loop = true) :
      OwnerStep s { s with owner := .quitting }
  | skipped (ho : s.owner = .exiting) (hl : s.loop = false) :
      OwnerStep s { s with owner := .destroyed }
  | nullLoop (ho : s.owner = .quitting) (hl : s.loop = false) :
      OwnerStep s { s with aborted := true }
  | read (ho : s.owner = .quitting) (hl : s.loop = true) :
      OwnerStep s { s with owner := .asserting }
  | gone (ho : s.owner.inQuit = true) (hl : s.thread.hasLoop = false) :
      OwnerStep s { s with aborted := true }
  | quitFailed (ho : s.owner = .asserting) (hl : s.thread.hasLoop = true)
      (hq : s.ev.quit = true) : OwnerStep s { s with owner := .waking, aborted := true }
  | quit (ev : EventLoop) (ho : s.owner = .asserting) (hl : s.thread.hasLoop = true)
      (hq : s.ev.quit = false) (hev : s.ev.step (.quit ownerId) = some ev) :
      OwnerStep s { s with owner := .waking, ev }
  | woken (ev : EventLoop) (ho : s.owner = .waking) (hl : s.thread.hasLoop = true)
      (hev : s.ev.step (.finish ownerId) = some ev) : OwnerStep s { s with owner := .joining, ev }
  | join (ho : s.owner = .joining) (ht : s.thread = .finished) :
      OwnerStep s { s with owner := .destroyed, joined := true }

theorem ownerStep_of_next (h : s.ownerNext = some s') : OwnerStep s s' := by
  unfold ownerNext at h
  cases ho : s.owner with
  | waiting | running | destroyed => simp [ho] at h
  | constructed =>
      simp only [ho] at h
      exact Option.some.inj h ▸ .run ho
  | testing =>
      simp only [ho] at h
      split at h
      · exact Option.some.inj h ▸ .found ho
      · exact Option.some.inj h ▸ .wait ho
  | exiting =>
      simp only [ho] at h
      cases hl : s.loop with
      | true =>
          rw [if_pos hl] at h
          exact Option.some.inj h ▸ .tested ho hl
      | false =>
          rw [if_neg (by simp [hl])] at h
          exact Option.some.inj h ▸ .skipped ho hl
  | quitting =>
      simp only [ho] at h
      cases hl : s.loop with
      | true =>
          rw [if_pos hl] at h
          exact Option.some.inj h ▸ .read ho hl
      | false =>
          have hs := OwnerStep.nullLoop ho hl
          rw [if_neg (by simp [hl])] at h
          rw [ho] at hs
          exact Option.some.inj h ▸ hs
  | asserting =>
      simp only [ho] at h
      cases hl : s.thread.hasLoop with
      | true =>
          rw [if_pos hl] at h
          rcases callQuit_cases h with ⟨hq, rfl⟩ | ⟨hq, ev, hev, rfl⟩
          · exact .quitFailed ho hl hq
          · exact .quit ev ho hl hq hev
      | false =>
          have hs := OwnerStep.gone (by rw [ho]; rfl) hl
          rw [if_neg (by simp [hl])] at h
          rw [ho] at hs
          exact Option.some.inj h ▸ hs
  | waking =>
      simp only [ho] at h
      cases hl : s.thread.hasLoop with
      | true =>
          rw [if_pos hl] at h
          obtain ⟨ev, hev, h⟩ := Option.bind_eq_some_iff.mp h
          exact Option.some.inj h ▸ .woken ev ho hl hev
      | false =>
          have hs := OwnerStep.gone (by rw [ho]; rfl) hl
          rw [if_neg (by simp [hl])] at h
          rw [ho] at hs
          exact Option.some.inj h ▸ hs
  | joining =>
      simp only [ho] at h
      obtain ⟨ht, h⟩ := guard_bind_eq_some_iff.mp h
      exact Option.some.inj h ▸ .join ho ht

/-- The steps of `ThreadFunc`. -/
inductive FuncStep (s : LoopThread) : LoopThread → Prop
  | initCb (ht : s.thread = .initCb) : FuncStep s { s with thread := .publishing }
  | publish (ht : s.thread = .publishing) : FuncStep s { s with thread := .notifying, loop := true }
  | leave (ht : s.thread = .publishing) :
      FuncStep s ({ s with thread := .finished } : LoopThread).notify
  | notify (ht : s.thread = .notifying) :
      FuncStep s ({ s with thread := .calling } : LoopThread).notify
  | call (ev : EventLoop) (ht : s.thread = .calling) (hev : s.ev.step .loop = some ev) :
      FuncStep s { s with thread := .looping, ev }
  | loop (ev : EventLoop) (ht : s.thread = .looping) (hev : s.ev.step .loop = some ev) :
      FuncStep s { s with thread := if ev.point = .outside then .clearing else .looping, ev }
  | clear (ht : s.thread = .clearing) : FuncStep s { s with thread := .finished, loop := false }

theorem funcStep_of_next (h : s.threadNext = some s') : FuncStep s s' := by
  unfold threadNext at h
  cases ht : s.thread with
  | notStarted | finished => simp [ht] at h
  | initCb =>
      simp only [ht] at h
      obtain ⟨-, h⟩ := guard_bind_eq_some_iff.mp h
      exact Option.some.inj h ▸ .initCb ht
  | publishing =>
      simp only [ht] at h
      split at h
      · exact Option.some.inj h ▸ .publish ht
      · exact Option.some.inj h ▸ .leave ht
  | notifying =>
      simp only [ht] at h
      exact Option.some.inj h ▸ .notify ht
  | calling =>
      simp only [ht] at h
      obtain ⟨ev, hev, h⟩ := Option.bind_eq_some_iff.mp h
      exact Option.some.inj h ▸ .call ev ht hev
  | looping =>
      simp only [ht] at h
      obtain ⟨ev, hev, h⟩ := Option.bind_eq_some_iff.mp h
      exact Option.some.inj h ▸ .loop ev ht hev
  | clearing =>
      simp only [ht] at h
      exact Option.some.inj h ▸ .clear ht

theorem notify_same (s : LoopThread) : (s.notify.owner = s.owner ∨
    s.owner = .waiting ∧ s.notify.owner = .testing) ∧ s.notify.aborted = s.aborted ∧
    s.notify.thread = s.thread ∧ s.notify.ev = s.ev ∧ s.notify.joined = s.joined := by
  unfold notify
  split
  · next hw => exact ⟨.inr ⟨hw, rfl⟩, rfl, rfl, rfl, rfl⟩
  · exact ⟨.inl rfl, rfl, rfl, rfl, rfl⟩

end LoopThread

end Muduo
