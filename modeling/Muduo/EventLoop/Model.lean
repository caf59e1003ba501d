/-
# `Muduo.EventLoop.Model` — EventLoop.cpp, Bridge.cpp

One thread runs `Loop()`; any thread calls `EnqueueEventLoop` and `Quit`.  A
step is what one thread does up to the next point where another thread can
come in between: a critical section of `mtx_`, an access to an atomic, a system
call.  Both calls have two steps, and `call t` says that thread `t` has made
the first one.

    enqueue t    the critical section of EnqueueEventLoop
    quit t       Quit() up to and with the store to quit_
    finish t     what is left of the call: WakeUp or not, return
    loop         the next step of the loop thread in Loop()

The loop thread runs code of the user, which may call both functions, before
and after `Loop()`, in the handlers of active channels, in a pending callback,
and in the destructors of the callbacks when a batch is released
(`Point.userCode`).  While it is in a call `Loop()` does not go on.

A queued callback is known by the number of its push, counted in the order in
which `mtx_` is taken; what it does is the steps the loop thread takes while it
is being called.  `pushes`, `returned`, `executed` and `atQuit` are no fields of
the source: they record what has happened.
-/
import Mathlib.Algebra.Ring.Nat
import Mathlib.Logic.Function.Basic
import Muduo.Basic
import Muduo.Lib.Runs

namespace Muduo

/-- Where the loop thread is in `Loop()`. -/
inductive Point where
  /-- not in `Loop()` -/
  | outside
  /-- before `quit_ = false` -/
  | entered
  /-- before the test of `while (!quit_)` -/
  | testing
  /-- in `poller_->Poll` -/
  | polling
  /-- in `HandleActiveChannels`; `bridge`: the Bridge's channel is still to be handled -/
  | handling (bridge : Bool)
  /-- before `callingPendingCbs_.store(true)` -/
  | handled
  /-- before the swap in `HandlePendingCallbacks` -/
  | swapping
  /-- between two callbacks of the batch -/
  | between
  /-- in the callback with this number -/
  | calling (c : ℕ)
  /-- after `callingPendingCbs_.store(false)`: the batch is destroyed -/
  | releasing
deriving DecidableEq, Repr

namespace Point

/-- The loop thread runs code of the user here. -/
def userCode : Point → Bool
  | outside | handling _ | calling _ | releasing => true
  | _ => false

/-- Between `eventHandling_ = true` and `eventHandling_ = false`. -/
def handlesEvents : Point → Bool
  | handling _ => true
  | _ => false

/-- Between the two stores to `callingPendingCbs_`. -/
def callsPending : Point → Bool
  | swapping | between | calling _ => true
  | _ => false

/-- The callback that is being called. -/
def current : Point → List ℕ
  | calling c => [c]
  | _ => []

end Point

/-- A call that has not returned. -/
inductive Call where
  /-- `EnqueueEventLoop` of this callback, after its critical section -/
  | enqueue (c : ℕ)
  /-- `Quit`, after its store -/
  | quit
deriving DecidableEq, Repr

/-- `class EventLoop` with the counter of its Bridge's eventfd. -/
structure EventLoop where
  threadId : ℕ
  looping : Bool
  quit : Bool
  eventHandling : Bool
  callingPendingCbs : Bool
  pendingCbsQueue : List ℕ
  /-- the callbacks of `tmp_queue` that are still to be called -/
  tmpQueue : List ℕ
  eventfd : ℕ
  point : Point
  call : ℕ → Option Call
  pushes : ℕ
  returned : List ℕ
  executed : List ℕ
  /-- `returned` when `Quit` was last called -/
  atQuit : List ℕ

inductive LoopAct where
  | enqueue (t : ℕ)
  | quit (t : ℕ)
  | finish (t : ℕ)
  | loop
deriving DecidableEq, Repr

namespace EventLoop

/-- A loop as it is constructed in thread `threadId`. -/
def init (threadId : ℕ) : EventLoop :=
  { threadId, looping := false, quit := false, eventHandling := false, callingPendingCbs := false,
    pendingCbsQueue := [], tmpQueue := [], eventfd := 0, point := .outside, call := fun _ => none,
    pushes := 0, returned := [], executed := [], atQuit := [] }

def isInLoopThread (s : EventLoop) (t : ℕ) : Bool := t = s.threadId

/-- Thread `t` can make a call: it is in none, and the loop thread is in code of
the user. -/
def Free (s : EventLoop) (t : ℕ) : Prop :=
  s.call t = none ∧ (s.isInLoopThread t → s.point.userCode)

instance (s : EventLoop) (t : ℕ) : Decidable (s.Free t) := inferInstanceAs (Decidable (_ ∧ _))

/-- `Bridge::WakeUp`: the eventfd does not block, and a write that would take
its counter past `2^64 - 2` fails. -/
def wakeUp (s : EventLoop) : EventLoop :=
  { s with eventfd := if s.eventfd < 2 ^ 64 - 2 then s.eventfd + 1 else s.eventfd }

/-- The test at the end of `EnqueueEventLoop`. -/
def wakes (s : EventLoop) (t : ℕ) : Bool := !s.isInLoopThread t || s.callingPendingCbs

/-- `EnqueueEventLoop`, the critical section. -/
def enqueueEventLoop (s : EventLoop) (t : ℕ) : Option EventLoop := do
  guard (s.Free t)
  return { s with pendingCbsQueue := s.pendingCbsQueue ++ [s.pushes],
                  pushes := s.pushes + 1,
                  call := Function.update s.call t (some (.enqueue s.pushes)) }

/-- `Quit`, up to its store. -/
def callQuit (s : EventLoop) (t : ℕ) : Option EventLoop := do
  guard (s.Free t)
  assert (s.quit = false)
  return { s with quit := true, atQuit := s.returned,
                  call := Function.update s.call t (some .quit) }

/-- The rest of a call of thread `t`. -/
def finish (s : EventLoop) (t : ℕ) : Option EventLoop :=
  match s.call t with
  | none => none
  | some (.enqueue c) =>
      let s := { s with returned := s.returned ++ [c], call := Function.update s.call t none }
      if s.wakes t then some s.wakeUp else some s
  | some .quit =>
      let s := { s with call := Function.update s.call t none }
      if !s.isInLoopThread t then some s.wakeUp else some s

/-- The next step of the loop thread in `Loop()`. -/
def next (s : EventLoop) : Option EventLoop :=
  match s.point with
  | .outside => do
      assert (s.looping = false)
      assert (s.eventHandling = false)
      assert (s.callingPendingCbs = false)
      return { s with point := .entered, looping := true }
  | .entered => some { s with point := .testing, quit := false }
  | .testing =>
      if s.quit then some { s with point := .outside, looping := false }
      else some { s with point := .polling }
  | .polling => do
      assert (s.eventHandling = false)
      return { s with point := .handling (s.eventfd ≠ 0), eventHandling := true }
  | .handling true => -- `Bridge::HandleWakeUpFdRead`
      some { s with point := .handling false, eventfd := 0 }
  | .handling false => some { s with point := .handled, eventHandling := false }
  | .handled => some { s with point := .swapping, callingPendingCbs := true }
  | .swapping =>
      some { s with point := .between, tmpQueue := s.pendingCbsQueue, pendingCbsQueue := [] }
  | .between =>
      match s.tmpQueue with
      | c :: cs => some { s with point := .calling c, tmpQueue := cs }
      | [] => some { s with point := .releasing, callingPendingCbs := false }
  | .calling c => some { s with point := .between, executed := s.executed ++ [c] }
  | .releasing => some { s with point := .testing }

def step (s : EventLoop) : LoopAct → Option EventLoop
  | .enqueue t => s.enqueueEventLoop t
  | .quit t => s.callQuit t
  | .finish t => s.finish t
  | .loop => do
      guard (s.call s.threadId = none)
      s.next

/-! ## What a step can do -/

variable {s s' : EventLoop} {t : ℕ}

theorem wakeUp_eq (s : EventLoop) : ∃ n, n ≠ 0 ∧ s.wakeUp = { s with eventfd := n } := by
  refine ⟨_, ?_, rfl⟩
  split <;> omega

theorem enqueue_cases (h : s.step (.enqueue t) = some s') :
    s.Free t ∧ s' = { s with pendingCbsQueue := s.pendingCbsQueue ++ [s.pushes],
                             pushes := s.pushes + 1,
                             call := Function.update s.call t (some (.enqueue s.pushes)) } := by
  simp only [step, enqueueEventLoop, guard, Option.bind_eq_bind] at h
  by_cases hf : s.Free t
  · simp only [if_pos hf] at h
    exact ⟨hf, (Option.some.inj h).symm⟩
  · simp [hf] at h

theorem quit_cases (h : s.step (.quit t) = some s') :
    s.Free t ∧ s.quit = false ∧
      s' = { s with quit := true, atQuit := s.returned,
                    call := Function.update s.call t (some .quit) } := by
  simp only [step, callQuit, guard, Option.bind_eq_bind] at h
  by_cases hf : s.Free t
  · by_cases hq : s.quit = false
    · simp only [if_pos hf, assert_of hq] at h
      exact ⟨hf, hq, (Option.some.inj h).symm⟩
    · simp [hf, assert, hq] at h
  · simp [hf] at h

/-- The end of a call: `EnqueueEventLoop` wakes the loop up exactly where its
test says so. -/
theorem finish_cases (h : s.step (.finish t) = some s') :
    ∃ r n, s' = { s with returned := r, eventfd := n, call := Function.update s.call t none } ∧
      ((∃ c, s.call t = some (.enqueue c) ∧ r = s.returned ++ [c] ∧ (s.wakes t → n ≠ 0)) ∨
        (s.call t = some .quit ∧ r = s.returned)) ∧ (n ≠ 0 ∨ n = s.eventfd) := by
  simp only [step, finish] at h
  cases hc : s.call t with
  | none => simp [hc] at h
  | some call =>
      cases call with
      | enqueue c =>
          let s₁ := { s with returned := s.returned ++ [c], call := Function.update s.call t none }
          have hw : s₁.wakes t = s.wakes t := rfl
          simp only [hc] at h
          by_cases hwakes : s.wakes t
          · obtain ⟨n, hn, he⟩ := s₁.wakeUp_eq
            rw [if_pos (hw ▸ hwakes)] at h
            obtain rfl := Option.some.inj h
            exact ⟨_, n, he, .inl ⟨c, rfl, rfl, fun _ => hn⟩, .inl hn⟩
          · rw [if_neg (hw ▸ hwakes)] at h
            obtain rfl := Option.some.inj h
            exact ⟨_, _, rfl, .inl ⟨c, rfl, rfl, fun h => absurd h hwakes⟩, .inr rfl⟩
      | quit =>
          let s₁ := { s with call := Function.update s.call t none }
          simp only [hc] at h
          split at h
          · obtain ⟨n, hn, he⟩ := s₁.wakeUp_eq
            obtain rfl := Option.some.inj h
            exact ⟨_, n, he, .inr ⟨rfl, rfl⟩, .inl hn⟩
          · obtain rfl := Option.some.inj h
            exact ⟨_, _, rfl, .inr ⟨rfl, rfl⟩, .inr rfl⟩

/-- The steps of `Loop()`, with what is known of the state they are taken from. -/
inductive LoopStep (s : EventLoop) : EventLoop → Prop
  | enter (hp : s.point = .outside) : LoopStep s { s with point := .entered, looping := true }
  | reset (hp : s.point = .entered) : LoopStep s { s with point := .testing, quit := false }
  | exit (hp : s.point = .testing) (hq : s.quit = true) :
      LoopStep s { s with point := .outside, looping := false }
  | poll (hp : s.point = .testing) (hq : s.quit = false) : LoopStep s { s with point := .polling }
  | polled (hp : s.point = .polling) :
      LoopStep s { s with point := .handling (s.eventfd ≠ 0), eventHandling := true }
  | readWakeUp (hp : s.point = .handling true) :
      LoopStep s { s with point := .handling false, eventfd := 0 }
  | endHandling (hp : s.point = .handling false) :
      LoopStep s { s with point := .handled, eventHandling := false }
  | setCalling (hp : s.point = .handled) :
      LoopStep s { s with point := .swapping, callingPendingCbs := true }
  | swap (hp : s.point = .swapping) :
      LoopStep s { s with point := .between, tmpQueue := s.pendingCbsQueue, pendingCbsQueue := [] }
  | call (c : ℕ) (cs : List ℕ) (hp : s.point = .between) (hq : s.tmpQueue = c :: cs) :
      LoopStep s { s with point := .calling c, tmpQueue := cs }
  | clearCalling (hp : s.point = .between) (hq : s.tmpQueue = []) :
      LoopStep s { s with point := .releasing, callingPendingCbs := false }
  | called (c : ℕ) (hp : s.point = .calling c) :
      LoopStep s { s with point := .between, executed := s.executed ++ [c] }
  | released (hp : s.point = .releasing) : LoopStep s { s with point := .testing }

theorem loopStep_of_next (h : s.next = some s') : LoopStep s s' := by
  unfold next at h
  cases hp : s.point with
  | outside =>
      simp only [hp, Option.bind_eq_bind, Option.bind_eq_some_iff, assert_eq_some_iff] at h
      obtain ⟨-, -, -, -, -, -, h⟩ := h
      exact Option.some.inj h ▸ .enter hp
  | entered =>
      simp only [hp] at h
      exact Option.some.inj h ▸ .reset hp
  | testing =>
      simp only [hp] at h
      cases hq : s.quit with
      | true =>
          rw [if_pos hq] at h
          exact Option.some.inj h ▸ .exit hp hq
      | false =>
          rw [if_neg (by simp [hq])] at h
          exact Option.some.inj h ▸ .poll hp hq
  | polling =>
      simp only [hp, Option.bind_eq_bind, Option.bind_eq_some_iff, assert_eq_some_iff] at h
      obtain ⟨-, -, h⟩ := h
      exact Option.some.inj h ▸ .polled hp
  | handling bridge =>
      cases bridge with
      | true =>
          simp only [hp] at h
          exact Option.some.inj h ▸ .readWakeUp hp
      | false =>
          simp only [hp] at h
          exact Option.some.inj h ▸ .endHandling hp
  | handled =>
      simp only [hp] at h
      exact Option.some.inj h ▸ .setCalling hp
  | swapping =>
      simp only [hp] at h
      exact Option.some.inj h ▸ .swap hp
  | between =>
      simp only [hp] at h
      cases hq : s.tmpQueue with
      | nil =>
          have hs := LoopStep.clearCalling hp hq
          simp only [hq] at h hs
          exact Option.some.inj h ▸ hs
      | cons c cs =>
          simp only [hq] at h
          exact Option.some.inj h ▸ .call c cs hp hq
  | calling c =>
      simp only [hp] at h
      exact Option.some.inj h ▸ .called c hp
  | releasing =>
      simp only [hp] at h
      exact Option.some.inj h ▸ .released hp

theorem loop_cases (h : s.step .loop = some s') : s.call s.threadId = none ∧ LoopStep s s' := by
  simp only [step, guard, Option.bind_eq_bind] at h
  by_cases hc : s.call s.threadId = none
  · simp only [if_pos hc] at h
    exact ⟨hc, loopStep_of_next h⟩
  · simp [hc] at h

end EventLoop

end Muduo
