/-
# `Muduo.Server.Start` — ListenAndServe, TcpServer.cpp, EventLoopThreadPool.cpp, Acceptor.cpp

`ListenAndServe` may be called from any threads and any number of times.  The one call
whose compare-and-swap succeeds runs two functions in `loop_`, at once when it is in its
thread, and else by way of its queue:

    BuildAndRun    starts the IO threads, one after the other, and sets started_
    Listen         enables the channel of the acceptor

`HandleNewConnection` asserts in `GetNextLoop` that the first has been done.  A step is what one
thread does between two places where others can come in:

    setIoThreadNum n   SetIoThreadNum(n)
    call t             ListenAndServe() in thread t, up to the compare-and-swap
    next t             the next RunInEventLoop of the call in thread t
    spawn              the next IO thread of BuildAndRun, or its end
    task               the loop runs the next queued function
    accept             the loop reports a connection to the acceptor

Thread 0 is the thread of `loop_`.  It turns to a queued function or to an event only when
it is in the middle of nothing.  The server of `Server.Model` begins where this ends: its
pool is started, and its acceptor listens.
-/
import Mathlib.Data.Nat.Notation
import Muduo.Basic
import Muduo.Lib.Runs

namespace Muduo

open Runs

/-- The functions that `ListenAndServe` runs in the loop. -/
inductive StartTask
  | buildAndRun | listen
deriving DecidableEq, Repr

/-- Where a thread is in `ListenAndServe`. -/
inductive StartCaller
  | idle
  /-- `serving_` is exchanged -/
  | building
  /-- `BuildAndRun` has been run or queued -/
  | listening
deriving DecidableEq, Repr

/-- `class TcpServer`, `EventLoopThreadPool` and `Acceptor` as far as starting goes.  Of `loops_`
it matters how many there are. -/
structure StartUp where
  serving : Bool
  callers : List StartCaller
  /-- the queue of `loop_` -/
  queue : List StartTask
  /-- the loop variable of `BuildAndRun`, while it runs -/
  running : Option ℕ
  poolSize : ℕ
  loops : ℕ
  started : Bool
  nextLoopIdx : ℕ
  listening : Bool
  /-- the channel of the acceptor is interested in reading -/
  reading : Bool
  /-- no assertion has failed -/
  asserted : Bool
deriving DecidableEq, Repr

inductive StartAct
  | setIoThreadNum (n : ℕ)
  | call (t : ℕ)
  | next (t : ℕ)
  | spawn
  | task
  | accept
deriving DecidableEq, Repr

namespace StartUp

/-- A server as it is constructed, with so many threads around it. -/
def init (threads : ℕ) : StartUp :=
  { serving := false, callers := List.replicate threads .idle, queue := [], running := none,
    poolSize := 0, loops := 0, started := false, nextLoopIdx := 0, listening := false,
    reading := false, asserted := true }

/-- The thread of the loop is in the middle of nothing. -/
def Free (s : StartUp) : Prop := s.running = none ∧ s.callers[0]? = some .idle

instance (s : StartUp) : Decidable s.Free := inferInstanceAs (Decidable (_ ∧ _))

/-- `BuildAndRun`, up to its loop. -/
def buildAndRun (s : StartUp) : StartUp :=
  { s with asserted := s.asserted && !s.started, running := some 0 }

/-- `Acceptor::Listen`. -/
def listen (s : StartUp) : StartUp :=
  if s.listening then s else { s with listening := true, reading := true }

/-- One round of the loop of `BuildAndRun`, or what comes behind it. -/
def spawn (s : StartUp) : Option StartUp := do
  let i ← s.running
  if i < s.poolSize then some { s with loops := s.loops + 1, running := some (i + 1) }
  else some { s with asserted := s.asserted && s.loops = s.poolSize, started := true,
                     running := none }

/-- `RunInEventLoop` in thread `t`. -/
def runInEventLoop (s : StartUp) (t : ℕ) : StartTask → StartUp
  | .buildAndRun => if t = 0 then s.buildAndRun else { s with queue := s.queue ++ [.buildAndRun] }
  | .listen => if t = 0 then s.listen else { s with queue := s.queue ++ [.listen] }

/-- `ListenAndServe` in thread `t`, behind the compare-and-swap. -/
def next (s : StartUp) (t : ℕ) : Option StartUp :=
  match s.callers[t]? with
  | some .building =>
      some ({ s with callers := s.callers.set t .listening }.runInEventLoop t .buildAndRun)
  | some .listening => some ({ s with callers := s.callers.set t .idle }.runInEventLoop t .listen)
  | _ => none

/-- `HandleNewConnection`, as far as `GetNextLoop` has a part in it. -/
def getNextLoop (s : StartUp) : StartUp :=
  let s := { s with asserted := s.asserted && s.started }
  if s.loops ≠ 0 then
    let next := s.nextLoopIdx + 1
    { s with asserted := s.asserted && s.nextLoopIdx < s.poolSize,
             nextLoopIdx := if next ≥ s.loops then 0 else next }
  else s

def step (s : StartUp) : StartAct → Option StartUp
  | .setIoThreadNum n => some { s with poolSize := n }
  | .call t => do
      guard (s.callers[t]? = some .idle ∧ (t = 0 → s.running = none))
      if s.serving then some s
      else some { s with serving := true, callers := s.callers.set t .building }
  | .next t => do
      guard (t = 0 → s.running = none)
      s.next t
  | .spawn => s.spawn
  | .task => do
      guard s.Free
      match s.queue with
      | [] => none
      | .buildAndRun :: queue => some { s with queue }.buildAndRun
      | .listen :: queue => some { s with queue }.listen
  | .accept => do
      guard (s.Free ∧ s.reading = true)
      some s.getNextLoop

/-- `SetIoThreadNum` is called before `ListenAndServe`. -/
def InTime (s : StartUp) : StartAct → Prop
  | .setIoThreadNum _ => s.serving = false
  | _ => True

instance (s : StartUp) : (a : StartAct) → Decidable (s.InTime a)
  | .setIoThreadNum _ => inferInstanceAs (Decidable (_ = _))
  | .call _ | .next _ | .spawn | .task | .accept => inferInstanceAs (Decidable True)

/-! ## Where the two functions are -/

/-- What has become of `BuildAndRun`. -/
inductive BuildAt
  /-- it is still to be run or queued, by the call in this thread -/
  | due (t : ℕ)
  | queued
  /-- in its loop -/
  | running (i : ℕ)
  | done

/-- What has become of `Listen`. -/
inductive ListenAt
  | due (t : ℕ)
  | queued
  | done

namespace BuildAt

def queue : BuildAt → List StartTask
  | queued => [.buildAndRun]
  | due _ | running _ | done => []

def round : BuildAt → Option ℕ
  | running i => some i
  | due _ | queued | done => none

/-- `BuildAndRun` has started so many threads. -/
def Spawned (n loops : ℕ) : BuildAt → Prop
  | due _ | queued => loops = 0
  | running i => loops = i ∧ i ≤ n
  | done => loops = n

def isDone : BuildAt → Bool
  | done => true
  | due _ | queued | running _ => false

end BuildAt

namespace ListenAt

def queue : ListenAt → List StartTask
  | queued => [.listen]
  | due _ | done => []

def isDone : ListenAt → Bool
  | done => true
  | due _ | queued => false

end ListenAt

/-- What the call that has exchanged `serving_` is about. -/
def BuildAt.caller : BuildAt → StartCaller
  | due _ => .building
  | queued | running _ | done => .listening

/-- Where thread `t` is. -/
def caller (t : ℕ) (b : BuildAt) : ListenAt → StartCaller
  | .due t' => if t' = t then b.caller else .idle
  | .queued | .done => .idle

/-- Nobody has called `ListenAndServe`, or one call has gone as far as `b` and `l` say. -/
structure Going (s : StartUp) (b : BuildAt) (l : ListenAt) : Prop where
  serving : s.serving = true
  callers : ∀ (t : ℕ) (x : StartCaller), s.callers[t]? = some x → x = caller t b l
  queue : s.queue = b.queue ++ l.queue
  running : s.running = b.round
  spawned : b.Spawned s.poolSize s.loops
  started : s.started = b.isDone
  listening : s.listening = l.isDone
  reading : s.reading = l.isDone
  /-- `BuildAndRun` is in front of `Listen` -/
  order : l = .done → b = .done
  due : ∀ t, b = .due t → l = .due t
  inRange : ∀ t, l = .due t → t < s.callers.length
  /-- what the thread of the loop has called it has done -/
  atOnce : l = .due 0 → b ≠ .queued
  asserted : s.asserted = true
  next : s.nextLoopIdx = 0 ∨ s.nextLoopIdx < s.loops

/-- Nobody has called `ListenAndServe`. -/
structure Before (s : StartUp) : Prop where
  serving : s.serving = false
  callers : ∀ (t : ℕ) (x : StartCaller), s.callers[t]? = some x → x = .idle
  queue : s.queue = []
  running : s.running = none
  loops : s.loops = 0
  started : s.started = false
  listening : s.listening = false
  reading : s.reading = false
  asserted : s.asserted = true
  next : s.nextLoopIdx = 0

variable {s s' : StartUp} {a : StartAct} {b : BuildAt} {l : ListenAt} {t : ℕ}

theorem before_init (threads : ℕ) : (init threads).Before where
  serving := rfl
  callers _ _ h := List.eq_of_mem_replicate (List.mem_of_getElem? h)
  queue := rfl
  running := rfl
  loops := rfl
  started := rfl
  listening := rfl
  reading := rfl
  asserted := rfl
  next := rfl

theorem caller_eq {x : StartCaller} (h : x = caller t b l) (hx : x ≠ .idle) :
    l = .due t ∧ x = b.caller := by
  cases l with
  | due t' =>
      rw [caller] at h
      split at h
      · next he => exact ⟨he ▸ rfl, h⟩
      · exact absurd h hx
  | queued | done => exact absurd h hx

theorem Going.building (h : s.Going b l) (hc : s.callers[t]? = some .building) :
    b = .due t ∧ l = .due t := by
  obtain ⟨hl, hb⟩ := caller_eq (h.callers t _ hc) nofun
  cases b with
  | due t' =>
      have hl' := h.due t' rfl
      rw [hl] at hl'
      exact ⟨ListenAt.due.inj hl' ▸ rfl, hl⟩
  | queued | running | done => exact nomatch hb

theorem Going.listens (h : s.Going b l) (hc : s.callers[t]? = some .listening) :
    l = .due t ∧ ∀ t', b ≠ .due t' := by
  obtain ⟨hl, hb⟩ := caller_eq (h.callers t _ hc) nofun
  refine ⟨hl, fun t' he => ?_⟩
  rw [he] at hb
  exact nomatch hb

/-- Thread `t`, whose call it is, has gone on. -/
theorem callers_set (b' : BuildAt) (l' : ListenAt)
    (hc : ∀ (t' : ℕ) (x : StartCaller), s.callers[t']? = some x → t ≠ t' → x = .idle)
    (hl : ∀ t', l' = .due t' → t' = t) :
    ∀ (t' : ℕ) (x : StartCaller), (s.callers.set t (caller t b' l'))[t']? = some x →
      x = caller t' b' l' := by
  intro t' x hx
  by_cases ht : t = t'
  · subst ht
    have hlen : t < s.callers.length :=
      s.callers.length_set ▸ (List.getElem?_eq_some_iff.mp hx).1
    rw [List.getElem?_set_self hlen] at hx
    exact (Option.some.inj hx).symm
  · rw [List.getElem?_set_ne ht] at hx
    rw [hc t' x hx ht]
    cases l' with
    | due t'' =>
        obtain rfl := hl t'' rfl
        exact (if_neg ht).symm
    | queued | done => rfl

/-- The other threads are not in a call that goes on. -/
theorem Going.others (h : s.Going b l) (hl : l = .due t) :
    ∀ (t' : ℕ) (x : StartCaller), s.callers[t']? = some x → t ≠ t' → x = .idle := by
  intro t' x hx ht
  have hx := h.callers t' x hx
  rw [hl, caller, if_neg ht] at hx
  exact hx

/-- The compare-and-swap that succeeds. -/
theorem Before.call (h : s.Before) (ht : t < s.callers.length) :
    ({ s with serving := true, callers := s.callers.set t .building } : StartUp).Going (.due t)
      (.due t) where
  serving := rfl
  callers := by
    have hc : StartCaller.building = caller t (.due t) (.due t) := (if_pos rfl).symm
    rw [hc]
    exact callers_set _ _ (fun t' x hx _ => h.callers t' x hx)
      fun t' he => (ListenAt.due.inj he).symm
  queue := h.queue
  running := h.running
  spawned := h.loops
  started := h.started
  listening := h.listening
  reading := h.reading
  order := nofun
  due _ he := BuildAt.due.inj he ▸ rfl
  inRange _ he := ListenAt.due.inj he ▸ s.callers.length_set.symm ▸ ht
  atOnce _ := nofun
  asserted := h.asserted
  next := .inl h.next

/-- `RunInEventLoop(BuildAndRun)`. -/
theorem Going.build (h : s.Going b l) (hc : s.callers[t]? = some .building) :
    ∃ b', ({ s with callers := s.callers.set t .listening }.runInEventLoop t .buildAndRun).Going
      b' l := by
  obtain ⟨rfl, rfl⟩ := h.building hc
  have hothers := h.others rfl
  have hq : s.queue = [] := h.queue
  have hstarted : s.started = false := h.started
  have hcallers : ∀ b' : BuildAt, b'.caller = .listening → ∀ (t' : ℕ) (x : StartCaller),
      (s.callers.set t .listening)[t']? = some x → x = caller t' b' (.due t) := by
    intro b' hb'
    have hc : StartCaller.listening = caller t b' (.due t) := ((if_pos rfl).trans hb').symm
    rw [hc]
    exact callers_set _ _ hothers fun t' he => (ListenAt.due.inj he).symm
  have hrange : ∀ t', ListenAt.due t = .due t' → t' < (s.callers.set t .listening).length := by
    rw [List.length_set]
    exact h.inRange
  by_cases ht : t = 0
  · subst ht
    refine ⟨.running 0, h.serving, hcallers _ rfl, hq, rfl, ⟨h.spawned, Nat.zero_le _⟩, hstarted,
      h.listening, h.reading, nofun, nofun, hrange, fun _ => nofun, ?_, h.next⟩
    show (s.asserted && !s.started) = true
    rw [h.asserted, hstarted]
    rfl
  · refine ⟨.queued, ?_⟩
    rw [runInEventLoop, if_neg ht]
    exact ⟨h.serving, hcallers _ rfl, by rw [hq]; rfl, h.running, h.spawned, hstarted,
      h.listening, h.reading, nofun, nofun, hrange, fun he => absurd (ListenAt.due.inj he) ht,
      h.asserted, h.next⟩

theorem Going.listen_done (h : s.Going .done l) (hl : l ≠ .done) {queue : List StartTask}
    {callers : List StartCaller} (hq : queue = [])
    (hc : ∀ (t : ℕ) (x : StartCaller), callers[t]? = some x → x = .idle) :
    ({ s with queue, callers }.listen).Going .done .done := by
  have hlist : s.listening = false := by
    rw [h.listening]
    cases l with
    | done => exact absurd rfl hl
    | due | queued => rfl
  have hlisten : ({ s with queue, callers } : StartUp).listen =
      { s with queue, callers, listening := true, reading := true } :=
    if_neg (by rw [hlist]; decide)
  rw [hlisten]
  exact ⟨h.serving, hc, hq, h.running, h.spawned, h.started, rfl, rfl, fun _ => rfl, nofun, nofun,
    nofun, h.asserted, h.next⟩

/-- `RunInEventLoop(Listen)`. -/
theorem Going.listen (h : s.Going b l) (hc : s.callers[t]? = some .listening)
    (hrun : t = 0 → s.running = none) :
    ∃ l', ({ s with callers := s.callers.set t .idle }.runInEventLoop t .listen).Going b l' := by
  obtain ⟨rfl, hb⟩ := h.listens hc
  have hnot : ∀ t', b = .due t' → ListenAt.queued = .due t' := fun t' he => absurd he (hb t')
  by_cases ht : t = 0
  · subst ht
    obtain rfl : b = .done := by
      cases b with
      | due t' => exact absurd rfl (hb t')
      | queued => exact absurd rfl (h.atOnce rfl)
      | running i => exact nomatch h.running.symm.trans (hrun rfl)
      | done => rfl
    exact ⟨.done, h.listen_done nofun h.queue
      (callers_set .done .done (h.others rfl) nofun)⟩
  · refine ⟨.queued, ?_⟩
    rw [runInEventLoop, if_neg ht]
    refine ⟨h.serving, callers_set b .queued (h.others rfl) nofun, ?_, h.running,
      h.spawned, h.started, h.listening, h.reading, nofun, hnot, nofun, nofun, h.asserted, h.next⟩
    show s.queue ++ [.listen] = b.queue ++ [.listen]
    rw [h.queue]
    exact congrArg (· ++ [StartTask.listen]) (List.append_nil _)

/-- A round of the loop of `BuildAndRun`, or its end. -/
theorem Going.spawn (h : s.Going b l) (hst : s.spawn = some s') : ∃ b', s'.Going b' l := by
  obtain ⟨i, hi, hst⟩ := Option.bind_eq_some_iff.mp hst
  obtain rfl : b = .running i := by
    have hr := h.running.symm.trans hi
    cases b with
    | running j => exact congrArg _ (Option.some.inj hr)
    | due | queued | done => exact nomatch hr
  obtain ⟨hloops, hle⟩ := h.spawned
  have hcallers : ∀ b' : BuildAt, b'.caller = .listening → ∀ (t : ℕ) (x : StartCaller),
      s.callers[t]? = some x → x = caller t b' l := by
    intro b' hb' t x hx
    rw [h.callers t x hx]
    cases l with
    | due t' => rw [caller, caller, hb']; rfl
    | queued | done => rfl
  have hdone : l ≠ .done := fun he => nomatch h.order he
  split at hst
  · next hlt =>
      obtain rfl := Option.some.inj hst
      refine ⟨.running (i + 1), h.serving, hcallers _ rfl, h.queue, rfl,
        ⟨congrArg (· + 1) hloops, hlt⟩, h.started, h.listening, h.reading,
        fun he => absurd he hdone, nofun, h.inRange, fun _ => nofun, h.asserted, ?_⟩
      exact h.next.imp id fun hn => Nat.lt_succ_of_lt hn
  · next hge =>
      obtain rfl := Option.some.inj hst
      have hn : s.loops = s.poolSize := hloops.trans (Nat.le_antisymm hle (Nat.le_of_not_lt hge))
      exact ⟨.done, h.serving, hcallers _ rfl, h.queue, rfl, hn, rfl, h.listening, h.reading,
        fun _ => rfl, nofun, h.inRange, fun _ => nofun, by simp [h.asserted, hn], h.next⟩

/-- The next function of the queue. -/
theorem Going.task (h : s.Going b l) (hst : s.step .task = some s') : ∃ b' l', s'.Going b' l' := by
  obtain ⟨⟨hrun, hfree⟩, hst⟩ := guard_bind_eq_some_iff.mp hst
  have hqueue := h.queue
  split at hst
  · exact nomatch hst
  · next queue hq =>
      obtain rfl := Option.some.inj hst
      rw [hq] at hqueue
      obtain ⟨rfl, hrest⟩ : b = .queued ∧ queue = l.queue := by
        cases b with
        | queued => exact ⟨rfl, List.tail_eq_of_cons_eq hqueue⟩
        | due t' =>
            rw [h.due t' rfl] at hqueue
            exact nomatch hqueue
        | running | done =>
            cases l with
            | due | queued | done => exact nomatch hqueue
      refine ⟨.running 0, l, h.serving, ?_, hrest, rfl, ⟨h.spawned, Nat.zero_le _⟩, h.started,
        h.listening, h.reading, ?_, nofun, h.inRange, fun _ => nofun, ?_, h.next⟩
      · intro t x hx
        rw [h.callers t x hx]
        cases l with
        | due | queued | done => rfl
      · exact fun he => nomatch h.order he
      · have hs : s.started = false := h.started
        show (s.asserted && !s.started) = true
        rw [h.asserted, hs]
        rfl
  · next queue hq =>
      obtain rfl := Option.some.inj hst
      rw [hq] at hqueue
      obtain ⟨rfl, rfl, hrest⟩ : b = .done ∧ l = .queued ∧ queue = [] := by
        cases b with
        | queued => exact nomatch hqueue
        | due t' =>
            rw [h.due t' rfl] at hqueue
            exact nomatch hqueue
        | running i => exact nomatch h.running.symm.trans hrun
        | done =>
            cases l with
            | due | done => exact nomatch hqueue
            | queued => exact ⟨rfl, rfl, List.tail_eq_of_cons_eq hqueue⟩
      exact ⟨.done, .done, h.listen_done nofun hrest h.callers⟩

/-- `GetNextLoop` finds the pool started, and a loop at the index. -/
theorem Going.accept (h : s.Going b l) (hread : s.reading = true) :
    s.getNextLoop.Going .done .done ∧ b = .done ∧ l = .done := by
  obtain rfl : l = .done := by
    have hl := h.reading.symm.trans hread
    cases l with
    | done => rfl
    | due | queued => exact nomatch hl
  obtain rfl := h.order rfl
  have hstarted : s.started = true := h.started
  have hloops : s.loops = s.poolSize := h.spawned
  refine ⟨?_, rfl, rfl⟩
  show Going (if s.loops ≠ 0 then _ else _) .done .done
  split
  · next hne =>
      have hidx : s.nextLoopIdx < s.poolSize := by
        rcases h.next with h0 | hlt
        · rw [h0, ← hloops]
          exact Nat.pos_of_ne_zero hne
        · exact hloops ▸ hlt
      refine ⟨h.serving, h.callers, h.queue, h.running, hloops, hstarted, h.listening, h.reading,
        fun _ => rfl, nofun, nofun, fun _ => nofun, by simp [h.asserted, hstarted, hidx], ?_⟩
      show (if s.nextLoopIdx + 1 ≥ s.loops then 0 else s.nextLoopIdx + 1) = 0 ∨
        (if s.nextLoopIdx + 1 ≥ s.loops then 0 else s.nextLoopIdx + 1) < s.loops
      split
      · exact .inl rfl
      · next hlt => exact .inr (Nat.lt_of_not_le hlt)
  · exact ⟨h.serving, h.callers, h.queue, h.running, hloops, hstarted, h.listening, h.reading,
      fun _ => rfl, nofun, nofun, fun _ => nofun, by simp [h.asserted, hstarted], h.next⟩

theorem goes_step (h : s.Before ∨ ∃ b l, s.Going b l) (hok : s.InTime a)
    (hst : s.step a = some s') : s'.Before ∨ ∃ b l, s'.Going b l := by
  rcases h with h | ⟨b, l, h⟩
  · cases a with
    | setIoThreadNum n =>
        obtain rfl := Option.some.inj hst
        exact .inl ⟨h.serving, h.callers, h.queue, h.running, h.loops, h.started, h.listening,
          h.reading, h.asserted, h.next⟩
    | call t =>
        obtain ⟨⟨ht, -⟩, hst⟩ := guard_bind_eq_some_iff.mp hst
        rw [h.serving, if_neg (by decide)] at hst
        have hlt := (List.getElem?_eq_some_iff.mp ht).1
        exact Option.some.inj hst ▸ .inr ⟨.due t, .due t, h.call hlt⟩
    | next t =>
        obtain ⟨-, hst⟩ := guard_bind_eq_some_iff.mp hst
        unfold next at hst
        cases hc : s.callers[t]? with
        | none => simp [hc] at hst
        | some x =>
            obtain rfl := h.callers t x hc
            simp [hc] at hst
    | spawn =>
        obtain ⟨i, hi, -⟩ := Option.bind_eq_some_iff.mp hst
        exact nomatch h.running.symm.trans hi
    | task =>
        obtain ⟨-, hst⟩ := guard_bind_eq_some_iff.mp hst
        rw [h.queue] at hst
        exact nomatch hst
    | accept =>
        obtain ⟨⟨-, hread⟩, -⟩ := guard_bind_eq_some_iff.mp hst
        exact nomatch h.reading.symm.trans hread
  · right
    cases a with
    | setIoThreadNum n => exact nomatch h.serving.symm.trans hok
    | call t =>
        obtain ⟨-, hst⟩ := guard_bind_eq_some_iff.mp hst
        rw [h.serving, if_pos rfl] at hst
        exact Option.some.inj hst ▸ ⟨b, l, h⟩
    | next t =>
        obtain ⟨hrun, hst⟩ := guard_bind_eq_some_iff.mp hst
        unfold next at hst
        split at hst
        · next hc =>
            obtain ⟨b', h'⟩ := h.build hc
            exact Option.some.inj hst ▸ ⟨b', l, h'⟩
        · next hc =>
            obtain ⟨l', h'⟩ := h.listen hc hrun
            exact Option.some.inj hst ▸ ⟨b, l', h'⟩
        · exact nomatch hst
    | spawn =>
        obtain ⟨b', h'⟩ := h.spawn hst
        exact ⟨b', l, h'⟩
    | task => exact h.task hst
    | accept =>
        obtain ⟨⟨-, hread⟩, hst⟩ := guard_bind_eq_some_iff.mp hst
        exact Option.some.inj hst ▸ ⟨.done, .done, (h.accept hread).1⟩

/-- Whatever threads call `ListenAndServe`, and however often: no assertion of `BuildAndRun` or
`GetNextLoop` fails, no more than `poolSize_` IO threads are started, the acceptor listens only
when all of them are, and when nothing is left to do for the calls it listens. -/
theorem starts_once {threads : ℕ} {tr : List (StartUp × StartAct)}
    (hr : Run (stepOf step) (init threads) tr s) (hok : ∀ p ∈ tr, InTime p.1 p.2) :
    s.asserted = true ∧ s.loops ≤ s.poolSize ∧
      (s.reading = true → s.started = true ∧ s.loops = s.poolSize) ∧
      (s.serving = true → (∀ x ∈ s.callers, x = .idle) → s.queue = [] → s.running = none →
        s.reading = true) := by
  have h : s.Before ∨ ∃ b l, s.Going b l :=
    hr.invariant_of (I := fun s => s.Before ∨ ∃ b l, s.Going b l) (G := InTime) hok
      (.inl (before_init threads)) goes_step
  rcases h with h | ⟨b, l, h⟩
  · have hno : s.serving ≠ true := h.serving ▸ Bool.false_ne_true
    refine ⟨h.asserted, h.loops ▸ Nat.zero_le _, fun hread => ?_, fun hs => absurd hs hno⟩
    exact absurd (h.reading.symm.trans hread) Bool.false_ne_true
  · refine ⟨h.asserted, ?_, fun hread => ?_, fun _ hidle hq hrun => ?_⟩
    · have hsp := h.spawned
      cases b with
      | due | queued => exact hsp ▸ Nat.zero_le _
      | running i => exact hsp.1 ▸ hsp.2
      | done => exact Nat.le_of_eq hsp
    · obtain ⟨-, rfl, -⟩ := h.accept hread
      exact ⟨h.started, h.spawned⟩
    · rw [h.reading]
      have hqueue := h.queue.symm.trans hq
      cases l with
      | done => rfl
      | queued => exact absurd (List.append_eq_nil_iff.mp hqueue).2 (List.cons_ne_nil _ _)
      | due t =>
          -- the thread of the call is still in it
          have hx := List.getElem?_eq_getElem (h.inRange t rfl)
          have hcaller := (h.callers t _ hx).symm.trans (hidle _ (List.mem_of_getElem? hx))
          rw [caller, if_pos rfl] at hcaller
          cases b with
          | due | queued | running | done => exact nomatch hcaller

/-- Two threads call at once; the one that comes second finds `serving_` set. -/
def calledTwice : List StartAct :=
  [.setIoThreadNum 2, .call 1, .call 2, .next 1, .call 0, .task, .spawn, .next 1, .spawn, .spawn,
    .task, .accept, .accept, .accept]

theorem calledTwice_starts : ∃ tr s, runAll step (init 3) calledTwice = some (tr, s) ∧
    s.reading = true ∧ s.nextLoopIdx = 1 ∧ s.asserted = true ∧ s.loops = 2 := by
  obtain ⟨tr, s, hrun, hok, hread, hidx, hsize⟩ : ∃ tr s,
      runAll step (init 3) calledTwice = some (tr, s) ∧ (∀ p ∈ tr, InTime p.1 p.2) ∧
        s.reading = true ∧ s.nextLoopIdx = 1 ∧ s.poolSize = 2 :=
    exists_computed (by decide)
  obtain ⟨hasserted, -, hbuilt, -⟩ := starts_once (run_of_runAll hrun) hok
  exact ⟨tr, s, hrun, hread, hidx, hasserted, (hbuilt hread).2.trans hsize⟩

end StartUp

end Muduo
