/-
# `Muduo.LoopThread.Join` — is the thread stopped and joined?

The destructor calls `Quit` and joins.  Four things can come in between:

    Loop() sets quit_ = false          Run returns when loop_ is published, before
                                       Loop() is called: the Quit is lost
    a callback calls Quit()            the loop ends by itself, loop_ is cleared,
                                       and the destructor does not join
    both call Quit()                   the second assertion fails
    the loop sees quit_ set            the thread ends while the destructor is still in
                                       Quit, on its way to WakeUp

`Orderly` says of a state that nothing of this has happened.  It holds in every
state of a run if and only if every step of the run is `InTime`
(`orderly_iff`).
-/
import Muduo.LoopThread.Model

namespace Muduo

open Runs EventLoop

namespace EventLoop

variable {s s' : EventLoop}

/-- Only the first statement of `Loop()` clears `quit_`. -/
theorem quit_of_loop (h : s.step .loop = some s') :
    (s.point ≠ .entered ∧ s'.quit = s.quit) ∨
      (s.point = .entered ∧ s'.point = .testing ∧ s'.quit = false) := by
  cases (loop_cases h).2 with
  | reset hp => exact .inr ⟨hp, rfl, rfl⟩
  | enter hp | exit hp | poll hp | polled hp | readWakeUp hp | endHandling hp | setCalling hp
  | swap hp | call _ _ hp | clearCalling hp | called _ hp | released hp =>
      exact .inl ⟨fun he => absurd (hp.symm.trans he) nofun, rfl⟩

variable {t : ℕ}

theorem enqueue_same (h : s.step (.enqueue t) = some s') :
    s'.quit = s.quit ∧ s'.point = s.point := by
  obtain ⟨-, rfl⟩ := enqueue_cases h
  exact ⟨rfl, rfl⟩

theorem finish_same (h : s.step (.finish t) = some s') :
    s'.quit = s.quit ∧ s'.point = s.point := by
  obtain ⟨r, n, rfl, -⟩ := finish_cases h
  exact ⟨rfl, rfl⟩

theorem quit_same (h : s.step (.quit t) = some s') : s'.quit = true ∧ s'.point = s.point := by
  obtain ⟨-, -, rfl⟩ := quit_cases h
  exact ⟨rfl, rfl⟩

end EventLoop

namespace LoopThread

variable {s s' : LoopThread} {a : ThreadAct}

/-- No call of `Quit` has failed or used a loop that is gone; the flag that the destructor
has set is set until `Loop()` returns; the destructor has not returned without a join. -/
structure Orderly (s : LoopThread) : Prop where
  asserted : s.aborted = false
  kept : s.owner.hasQuit = true → s.thread.returned = false → s.ev.quit = true
  joined : s.owner = .destroyed → s.joined = true

instance (s : LoopThread) : Decidable s.Orderly :=
  decidable_of_iff
    (s.aborted = false ∧ (s.owner.hasQuit = true → s.thread.returned = false → s.ev.quit = true) ∧
      (s.owner = .destroyed → s.joined = true))
    ⟨fun h => ⟨h.1, h.2.1, h.2.2⟩, fun h => ⟨h.asserted, h.kept, h.joined⟩⟩

/-- The destructor finds `loop_` published, both times it reads it, and `quit_` not
set, and the loop exists while it is in `Quit`; `Loop()` sets `quit_ = false` before that,
and no callback calls `Quit` when `quit_` is set. -/
def InTime (s : LoopThread) : ThreadAct → Prop
  | .owner => (s.owner = .exiting ∨ s.owner = .quitting → s.loop = true) ∧
      (s.owner.inQuit = true → s.thread.hasLoop = true) ∧
      (s.owner = .asserting → s.ev.quit = false)
  | .thread => s.thread = .looping → s.ev.point = .entered → s.owner.hasQuit = false
  | .quit => s.ev.quit = false
  | _ => True

instance (s : LoopThread) : (a : ThreadAct) → Decidable (s.InTime a)
  | .owner => inferInstanceAs (Decidable (_ ∧ _))
  | .thread => inferInstanceAs (Decidable (_ → _))
  | .quit => inferInstanceAs (Decidable (_ = _))
  | .destroy | .spurious | .enqueue _ | .finish _ => inferInstanceAs (Decidable True)

/-- A step that leaves `quit_` and the end of the owner alone. -/
theorem Orderly.of_eq (h : s.Orderly) (ha : s'.aborted = s.aborted)
    (ho : s'.owner = s.owner ∨ s'.owner = .testing)
    (hr : s'.thread.returned = false → s.thread.returned = false)
    (he : s'.ev.quit = s.ev.quit) (hj : s'.joined = s.joined) : s'.Orderly := by
  rcases ho with ho | ho
  · refine ⟨ha.trans h.asserted, fun h₁ h₂ => ?_, fun hd => ?_⟩
    · exact he.trans (h.kept (ho ▸ h₁) (hr h₂))
    · exact hj.trans (h.joined (ho ▸ hd))
  · refine ⟨ha.trans h.asserted, fun h₁ => ?_, fun hd => ?_⟩
    · exact absurd (ho ▸ h₁) nofun
    · exact absurd (ho.symm.trans hd) nofun

theorem Orderly.notify (h : s.Orderly) : s.notify.Orderly := by
  obtain ⟨ho, ha, ht, he, hj⟩ := s.notify_same
  refine h.of_eq ha ?_ (fun hr => ht ▸ hr) (congrArg EventLoop.quit he) hj
  rcases ho with ho | ⟨-, ho⟩
  · exact .inl ho
  · exact .inr ho

/-- The join is the last thing the owner does, and the loop is entered only where
`ThreadFunc` calls `Loop()`. -/
structure Placed (s : LoopThread) : Prop where
  started : s.owner = .constructed → s.thread = .notStarted
  joined : s.joined = true → s.owner = .destroyed
  outside : s.thread ≠ .looping → s.ev.point = .outside

theorem placed_init : init.Placed := ⟨fun _ => rfl, nofun, fun _ => rfl⟩

/-- A step of the owner that does not end it. -/
theorem Placed.of_owner (h : s.Placed) {o : OwnerPoint} (ho : s.owner ≠ .destroyed)
    (hc : o ≠ .constructed) : ({ s with owner := o } : LoopThread).Placed :=
  ⟨fun he => absurd he hc, fun hj => absurd (h.joined hj) ho, h.outside⟩

/-- A step that leaves the loop where it is. -/
theorem Placed.of_ev (h : s.Placed) {ev : EventLoop} (he : ev.point = s.ev.point) :
    ({ s with ev } : LoopThread).Placed :=
  ⟨h.started, h.joined, fun hl => he.trans (h.outside hl)⟩

theorem Placed.aborted (h : s.Placed) : ({ s with aborted := true } : LoopThread).Placed :=
  ⟨h.started, h.joined, h.outside⟩

theorem Placed.callQuit {t : ℕ} (h : s.Placed) (hst : s.callQuit t = some s') : s'.Placed := by
  rcases callQuit_cases hst with ⟨-, rfl⟩ | ⟨-, ev, hev, rfl⟩
  · exact h.aborted
  · exact h.of_ev (quit_same hev).2

/-- A step of `ThreadFunc` outside the loop. -/
theorem Placed.of_thread (h : s.Placed) {p : FuncPoint} {l : Bool}
    (hs : s.thread ≠ .notStarted) (hp : s.ev.point = .outside) :
    ({ s with thread := p, loop := l } : LoopThread).Placed :=
  ⟨fun ho => absurd (h.started ho) hs, h.joined, fun _ => hp⟩

theorem Placed.notify (h : s.Placed) : s.notify.Placed := by
  unfold LoopThread.notify
  split
  · next hw => exact h.of_owner (by rw [hw]; exact nofun) nofun
  · exact h

theorem placed_owner (h : s.Placed) (hst : OwnerStep s s') : s'.Placed := by
  have hend : ∀ {o}, s.owner = o → o ≠ .destroyed → s.owner ≠ .destroyed := fun ho hne => ho ▸ hne
  cases hst with
  | run ho =>
      have ht : s.thread ≠ .looping := by rw [h.started ho]; exact nofun
      exact ⟨nofun, fun hj => absurd (h.joined hj) (hend ho nofun), fun _ => h.outside ht⟩
  | found ho | wait ho | tested ho | skipped ho | read ho =>
      exact h.of_owner (hend ho nofun) nofun
  | nullLoop | gone => exact h.aborted
  | quitFailed ho => exact (h.of_owner (o := .waking) (hend ho nofun) nofun).aborted
  | quit ev ho _ _ hev =>
      exact (h.of_owner (o := .waking) (hend ho nofun) nofun).of_ev (quit_same hev).2
  | woken ev ho _ hev =>
      exact (h.of_owner (o := .joining) (hend ho nofun) nofun).of_ev (finish_same hev).2
  | join => exact ⟨nofun, fun _ => rfl, h.outside⟩

theorem placed_thread (h : s.Placed) (hst : FuncStep s s') : s'.Placed := by
  have hs : ∀ {p}, s.thread = p → p ≠ .notStarted → s.thread ≠ .notStarted := fun ht hne => ht ▸ hne
  have hout : ∀ {p}, s.thread = p → p ≠ .looping → s.ev.point = .outside :=
    fun ht hne => h.outside (ht ▸ hne)
  cases hst with
  | initCb ht | publish ht | clear ht => exact h.of_thread (hs ht nofun) (hout ht nofun)
  | leave ht | notify ht =>
      exact (h.of_thread (l := s.loop) (hs ht nofun) (hout ht nofun)).notify
  | call ev ht =>
      refine ⟨fun ho => absurd (h.started ho) (hs ht nofun), h.joined, fun hl => ?_⟩
      exact absurd rfl hl
  | loop ev ht =>
      refine ⟨fun ho => absurd (h.started ho) (hs ht nofun), h.joined, fun hl => ?_⟩
      split at hl
      · assumption
      · exact absurd rfl hl

theorem placed_step (h : s.Placed) (hst : s.step a = some s') : s'.Placed := by
  obtain ⟨-, hst⟩ := guard_bind_eq_some_iff.mp hst
  cases a with
  | owner => exact placed_owner h (ownerStep_of_next hst)
  | thread => exact placed_thread h (funcStep_of_next hst)
  | destroy =>
      obtain ⟨⟨ho, -⟩, hst⟩ := guard_bind_eq_some_iff.mp hst
      obtain rfl := Option.some.inj hst
      exact ⟨nofun, fun hj => absurd (ho.symm.trans (h.joined hj)) nofun, h.outside⟩
  | spurious =>
      obtain ⟨ho, hst⟩ := guard_bind_eq_some_iff.mp hst
      obtain rfl := Option.some.inj hst
      exact h.of_owner (by rw [ho]; exact nofun) nofun
  | quit =>
      obtain ⟨-, hst⟩ := guard_bind_eq_some_iff.mp hst
      exact h.callQuit hst
  | enqueue t =>
      obtain ⟨ev, hev, rfl⟩ := call_cases hst
      exact h.of_ev (enqueue_same hev).2
  | finish t =>
      obtain ⟨ev, hev, rfl⟩ := call_cases hst
      exact h.of_ev (finish_same hev).2

theorem orderly_owner (hp : s.Placed) (h : s.Orderly) (hst : OwnerStep s s') :
    s.InTime .owner ↔ s'.Orderly := by
  unfold InTime
  cases hst with
  | run ho | found ho | wait ho =>
      rw [ho]
      exact iff_of_true ⟨nofun, nofun, nofun⟩ ⟨h.asserted, nofun, nofun⟩
  | tested ho hl | read ho hl =>
      rw [ho]
      exact iff_of_true ⟨fun _ => hl, nofun, nofun⟩ ⟨h.asserted, nofun, nofun⟩
  | skipped ho hl =>
      refine iff_of_false (fun hg => absurd (hl.symm.trans (hg.1 (.inl ho))) nofun) fun h' => ?_
      exact absurd (ho.symm.trans (hp.joined (h'.joined rfl))) nofun
  | nullLoop ho hl =>
      refine iff_of_false (fun hg => absurd (hl.symm.trans (hg.1 (.inr ho))) nofun) fun h' => ?_
      exact absurd h'.asserted nofun
  | gone ho hl =>
      refine iff_of_false (fun hg => absurd (hl.symm.trans (hg.2.1 ho)) nofun) fun h' => ?_
      exact absurd h'.asserted nofun
  | quitFailed ho hl hq =>
      refine iff_of_false (fun hg => absurd (hq.symm.trans (hg.2.2 ho)) nofun) fun h' => ?_
      exact absurd h'.asserted nofun
  | quit ev ho hl hq hev =>
      rw [ho]
      refine iff_of_true ⟨nofun, fun _ => hl, fun _ => hq⟩ ⟨h.asserted, fun _ _ => ?_, nofun⟩
      exact (quit_same hev).1
  | woken ev ho hl hev =>
      rw [ho]
      refine iff_of_true ⟨nofun, fun _ => hl, nofun⟩ ⟨h.asserted, fun _ hr => ?_, nofun⟩
      exact (finish_same hev).1.trans (h.kept (by rw [ho]; rfl) hr)
  | join ho =>
      rw [ho]
      exact iff_of_true ⟨nofun, nofun, nofun⟩ ⟨h.asserted, nofun, fun _ => rfl⟩

theorem orderly_thread (hp : s.Placed) (h : s.Orderly) (hst : FuncStep s s') :
    s.InTime .thread ↔ s'.Orderly := by
  unfold InTime
  have hin : ∀ {p}, s.thread = p → p.returned = false → s.thread.returned = false :=
    fun ht hr => ht ▸ hr
  cases hst with
  | initCb ht | publish ht =>
      refine iff_of_true (fun hl => absurd (ht.symm.trans hl) nofun) ?_
      exact h.of_eq rfl (.inl rfl) (fun _ => hin ht rfl) rfl rfl
  | leave ht =>
      refine iff_of_true (fun hl => absurd (ht.symm.trans hl) nofun) (Orderly.notify ?_)
      exact h.of_eq rfl (.inl rfl) nofun rfl rfl
  | notify ht =>
      refine iff_of_true (fun hl => absurd (ht.symm.trans hl) nofun) (Orderly.notify ?_)
      exact h.of_eq rfl (.inl rfl) (fun _ => hin ht rfl) rfl rfl
  | clear ht =>
      refine iff_of_true (fun hl => absurd (ht.symm.trans hl) nofun) ?_
      exact h.of_eq rfl (.inl rfl) nofun rfl rfl
  | call ev ht hev =>
      refine iff_of_true (fun hl => absurd (ht.symm.trans hl) nofun) ?_
      have hout : s.ev.point = .outside := hp.outside (by rw [ht]; exact nofun)
      rcases quit_of_loop hev with ⟨-, hq⟩ | ⟨he, -, -⟩
      · exact h.of_eq rfl (.inl rfl) (fun _ => hin ht rfl) hq rfl
      · exact absurd (hout.symm.trans he) nofun
  | loop ev ht hev =>
      rcases quit_of_loop hev with ⟨hne, hq⟩ | ⟨he, hev', hq⟩
      · refine iff_of_true (fun _ he => absurd he hne) ?_
        exact h.of_eq rfl (.inl rfl) (fun _ => hin ht rfl) hq rfl
      · -- `quit_ = false`
        have hcont : ev.point ≠ .outside := by rw [hev']; exact nofun
        rw [if_neg hcont]
        constructor
        · intro hg
          refine ⟨h.asserted, fun hown => ?_, h.joined⟩
          exact absurd ((hg ht he).symm.trans hown) nofun
        · intro h' _ _
          cases hown : s.owner.hasQuit with
          | false => rfl
          | true => exact absurd (hq.symm.trans (h'.kept hown rfl)) nofun

/-- From an orderly state a step leads to another one if and only if it is in time. -/
theorem orderly_step (hp : s.Placed) (h : s.Orderly) (hst : s.step a = some s') :
    s.InTime a ↔ s'.Orderly := by
  obtain ⟨-, hst⟩ := guard_bind_eq_some_iff.mp hst
  cases a with
  | owner => exact orderly_owner hp h (ownerStep_of_next hst)
  | thread => exact orderly_thread hp h (funcStep_of_next hst)
  | destroy | spurious =>
      obtain ⟨-, hst⟩ := guard_bind_eq_some_iff.mp hst
      obtain rfl := Option.some.inj hst
      exact iff_of_true trivial ⟨h.asserted, nofun, nofun⟩
  | quit =>
      obtain ⟨-, hst⟩ := guard_bind_eq_some_iff.mp hst
      rcases callQuit_cases hst with ⟨hq, rfl⟩ | ⟨hq, ev, hev, rfl⟩
      · refine iff_of_false (fun hg => absurd (hq.symm.trans hg) nofun) fun h' => ?_
        exact absurd h'.asserted nofun
      · exact iff_of_true hq ⟨h.asserted, fun _ _ => (quit_same hev).1, h.joined⟩
  | enqueue t =>
      obtain ⟨ev, hev, rfl⟩ := call_cases hst
      exact iff_of_true trivial (h.of_eq rfl (.inl rfl) (fun hr => hr) (enqueue_same hev).1 rfl)
  | finish t =>
      obtain ⟨ev, hev, rfl⟩ := call_cases hst
      exact iff_of_true trivial (h.of_eq rfl (.inl rfl) (fun hr => hr) (finish_same hev).1 rfl)

/-- A run is orderly throughout if and only if each of its steps is in time. -/
theorem orderly_iff {tr : List (LoopThread × ThreadAct)} {t : LoopThread}
    (h : Run (stepOf step) init tr t) :
    (∀ p ∈ tr, p.1.InTime p.2) ↔ (∀ p ∈ tr, p.1.Orderly) ∧ t.Orderly :=
  h.forall_iff_of_step (I := Placed) placed_init ⟨rfl, nofun, nofun⟩ placed_step
    orderly_step

/-- `Run`, up to where the owner has its result and the thread is about to call `Loop()`. -/
def started : List ThreadAct := [.owner, .owner, .thread, .thread, .thread, .owner]

/-- The thread is in its loop when the destructor is called. -/
def destroyedInLoop : List ThreadAct :=
  started ++ [.thread, .thread, .destroy, .owner, .owner, .owner, .owner, .thread, .thread,
    .owner]

theorem destroyedInLoop_orderly : ∃ tr s, Run (stepOf step) init tr s ∧
    (∀ p ∈ tr, p.1.Orderly) ∧ s.owner = .destroyed ∧ s.joined = true := by
  obtain ⟨tr, s, hrun, hok, hown, hj⟩ : ∃ tr s,
      runAll step init destroyedInLoop = some (tr, s) ∧ (∀ p ∈ tr, p.1.InTime p.2) ∧
        s.owner = .destroyed ∧ s.joined = true :=
    exists_computed (by decide)
  exact ⟨tr, s, run_of_runAll hrun, ((orderly_iff (run_of_runAll hrun)).mp hok).1, hown, hj⟩

/-- The destructor calls `Quit` before the thread is in `Loop()`. -/
def quitBeforeLoop : List ThreadAct :=
  started ++ [.destroy, .owner, .owner, .owner, .owner, .thread, .thread]

/-- A callback calls `Quit`, and the thread has ended when the destructor is called. -/
def quitByCallback : List ThreadAct :=
  started ++ [.thread, .thread, .thread, .thread, .quit, .finish 1, .thread, .thread, .thread,
    .thread, .thread, .thread, .thread, .destroy, .owner]

/-- A callback calls `Quit`, and the destructor calls it again. -/
def quitTwice : List ThreadAct :=
  started ++ [.thread, .thread, .thread, .thread, .quit, .destroy, .owner, .owner, .owner]

/-- The loop sees the flag of the destructor, and the thread ends before the destructor has
called `WakeUp`. -/
def endsInQuit : List ThreadAct :=
  started ++ [.thread, .thread, .destroy, .owner, .owner, .owner, .thread, .thread, .owner]

/-- The flag is lost and the owner waits in `join` for a loop that goes on; the thread is not
joined; the assertion of `Quit` fails; `WakeUp` is called on a loop that is gone. -/
theorem quits_not_orderly :
    (∃ tr s, runAll step init quitBeforeLoop = some (tr, s) ∧
      s.owner = .joining ∧ s.thread = .looping ∧ s.ev.quit = false) ∧
    (∃ tr s, runAll step init quitByCallback = some (tr, s) ∧
      s.owner = .destroyed ∧ s.joined = false) ∧
    (∃ tr s, runAll step init quitTwice = some (tr, s) ∧ s.aborted = true) ∧
    (∃ tr s, runAll step init endsInQuit = some (tr, s) ∧ s.owner = .waking ∧
      s.thread = .finished ∧ s.aborted = true) :=
  ⟨exists_computed (by decide), exists_computed (by decide), exists_computed (by decide),
    exists_computed (by decide)⟩

end LoopThread

end Muduo
