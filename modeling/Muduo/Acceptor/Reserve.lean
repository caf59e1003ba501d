/-
# `Muduo.Acceptor.Reserve` — a full descriptor table

A listener with a connection that cannot be accepted stays readable, and the loop
would call `HandleNewConnection` over and over.  The open `/dev/null` is there for
this: with its number the connection is accepted and closed.

Between the first `close(idleFd_)` and the `open` at the end the number is free, and
any thread of the process can get it.

    no other thread opens a descriptor then     every call takes a connection, and
                                                 idleFd_ is open again (every_call_takes)
    one does, and the table stays full          idleFd_ is −1, and no call takes
                                                 any more (lost_reserve_spins)
-/
import Mathlib.Algebra.Ring.Nat
import Muduo.Acceptor.Descriptors

namespace Muduo

open Runs

/-- `idleFd_` is not open on `/dev/null`. -/
def AcceptorPoint.givenUp : AcceptorPoint → Bool
  | vacated | refusing | reopening => true
  | waiting | dropping _ | exhausted | destroyed => false

namespace Acceptor

variable {s s₀ s' : Acceptor} {a : AcceptorAct} {fds : FdTable FdOwner} {hasCallback : Bool}

/-- No other thread opens a descriptor while the reserve is given up. -/
def Calm (s : Acceptor) (a : AcceptorAct) : Prop := s.point.givenUp = true → a ≠ .openOther

instance (s : Acceptor) (a : AcceptorAct) : Decidable (s.Calm a) :=
  inferInstanceAs (Decidable (_ → _))

/-- There is a reserve, and where it is given up there is room for it. -/
def Kept (s : Acceptor) : Prop :=
  match s.point with
  | .waiting | .dropping _ | .exhausted | .destroyed => s.idleFd ≠ none
  | .vacated | .reopening => ¬ s.fds.Full
  | .refusing => s.idleFd = none → ¬ s.fds.Full

/-- Another thread closes a descriptor, or nothing changes in the table. -/
theorem Kept.more_room (h : s.Kept) (hp : s'.point = s.point) (hi : s'.idleFd = s.idleFd)
    (hf : s'.fds.Full → s.fds.Full) : s'.Kept := by
  unfold Kept at h ⊢
  rw [hp, hi]
  split at h
  · exact h
  · exact h
  · exact h
  · exact h
  · exact mt hf h
  · exact mt hf h
  · exact fun hidle => mt hf (h hidle)

/-- Where the reserve is held, the table does not matter. -/
theorem Kept.held (h : s.Kept) (hg : s.point.givenUp = false) : s.idleFd ≠ none := by
  unfold Kept at h
  split at h
  · exact h
  · exact h
  · exact h
  · exact h
  · next hp => exact Bool.noConfusion (hp ▸ hg : AcceptorPoint.vacated.givenUp = false)
  · next hp => exact Bool.noConfusion (hp ▸ hg : AcceptorPoint.reopening.givenUp = false)
  · next hp => exact Bool.noConfusion (hp ▸ hg : AcceptorPoint.refusing.givenUp = false)

theorem Kept.room (h : s.Kept) (hp : s.point = .vacated) : ¬ s.fds.Full := by
  simpa only [Kept, hp] using h

theorem not_full_closeIdle {o : FdOwner} (h : Owns s.fds s.due) (ho : o.foreign = false)
    (hi : s.due o = s.idleFd) (hroom : s.idleFd = none → ¬ s.fds.Full) : ¬ s.closeIdle.Full := by
  cases hidle : s.idleFd with
  | some fd =>
      rw [closeIdle, hidle]
      refine FdTable.not_full_release fun hnone => ?_
      exact Option.some_ne_none o (((h o ho fd).mpr (hi.trans hidle)).symm.trans hnone)
  | none =>
      rw [closeIdle, hidle]
      exact hroom hidle

theorem kept_step (ho : Owns s.fds s.due) (h : s.Kept) (hc : s.Calm a) :
    AcceptorStep s a s' → s'.Kept := by
  intro hst
  cases hst with
  | arrive | leave | nothing => exact h.more_room rfl rfl id
  | openOther fd fds hfd =>
      have hg : s.point.givenUp = false := Bool.eq_false_iff.mpr fun hg => hc hg rfl
      have hi := h.held hg
      cases hp : s.point with
      | waiting | dropping | exhausted | destroyed =>
          simp only [Kept]
          exact hi
      | vacated | refusing | reopening => exact Bool.noConfusion ((congrArg _ hp).symm.trans hg)
  | closeOther fd o hof hfd =>
      refine h.more_room rfl rfl fun hfull => ?_
      exact absurd hfull (FdTable.not_full_release (hfd ▸ Option.some_ne_none o))
  | handed fd c cs fds hp hb hfd =>
      simp only [Kept, hp] at h ⊢
      exact h
  | dropped fd c cs fds hp hb hfd | exhausted hp hf | close fd hp | destroy hp =>
      simp only [Kept, hp] at h
      exact h
  | taken fd c cs fds hp hb hfd => exact fun hi => absurd hi (Option.some_ne_none fd)
  | missed r hp hr hf => exact fun _ => h.room hp
  | vacate hp =>
      simp only [Kept, hp] at h
      exact not_full_closeIdle (o := .reserve) ho rfl (by simp only [due, hp])
        fun hnone => absurd hnone h
  | refuse hp =>
      simp only [Kept, hp] at h
      exact not_full_closeIdle (o := .accepted) ho rfl (by simp only [due, hp]) h
  | reopened fd fds hp hfd => exact Option.some_ne_none fd
  | lost hp hf =>
      simp only [Kept, hp] at h
      exact absurd hf h

/-! ## Every call takes a connection -/

/-- The accept finds a connection, or no descriptor for it: the poller has reported the
listener, and nothing else goes wrong. -/
def Answered : AcceptorAct → Prop
  | .accept r => r = .connection ∨ r = .EMFILE
  | .arrive | .leave _ | .openOther | .closeOther _ | .next | .destroy => True

instance : DecidablePred Answered
  | .accept r => inferInstanceAs (Decidable (r = .connection ∨ r = .EMFILE))
  | .arrive | .leave _ | .openOther | .closeOther _ | .next | .destroy => isTrue trivial

/-- The step is a call of `HandleNewConnection`. -/
def calls (s : Acceptor) (a : AcceptorAct) : Bool :=
  match a with
  | .accept _ => s.point = .waiting
  | .arrive | .leave _ | .openOther | .closeOther _ | .next | .destroy => false

/-- The call that has still to take its connection. -/
def pending (s : Acceptor) : ℕ :=
  match s.point with
  | .exhausted | .vacated => 1
  | .waiting | .dropping _ | .refusing | .reopening | .destroyed => 0

/-- The connections that `HandleNewConnection` has taken off the backlog. -/
def taken (s : Acceptor) : ℕ := s.handed.length + s.refused.length

theorem taken_step (h : s.Kept) (ha : Answered a) : AcceptorStep s a s' →
    s'.taken + s'.pending = s.taken + s.pending + (if s.calls a then 1 else 0) := by
  intro hst
  cases hst with
  | arrive | leave | openOther | closeOther => rfl
  | nothing r hp hc he => exact absurd ha (not_or.mpr ⟨hc, he⟩)
  | missed r hp hc hf =>
      exact absurd (hf (ha.resolve_left hc)) (h.room hp)
  | handed fd c cs fds hp hb hfd =>
      simp [Acceptor.taken, pending, calls, hp]
      omega
  | dropped fd c cs fds hp hb hfd | taken fd c cs fds hp hb hfd =>
      simp [Acceptor.taken, pending, calls, hp]
      omega
  | exhausted hp hf | close fd hp | vacate hp | refuse hp | reopened fd fds hp hfd | lost hp hf
  | destroy hp => simp [Acceptor.taken, pending, calls, hp]

theorem kept_construct (hc : construct fds hasCallback = some s) (hi : s.idleFd ≠ none) :
    s.Kept ∧ s.taken = 0 ∧ s.pending = 0 := by
  obtain ⟨p, -, rfl⟩ := Option.map_eq_some_iff.mp hc
  exact ⟨hi, rfl, rfl⟩

/-- As long as no other thread opens a descriptor while the reserve is given up, every call of
`HandleNewConnection` takes a connection off the backlog, also when the table is full, and when
it returns the reserve is there. -/
theorem every_call_takes {tr : List (Acceptor × AcceptorAct)}
    (hc : construct fds hasCallback = some s₀)
    (hf : ∀ fd o, fds.owner fd = some o → o.foreign = true) (hi : s₀.idleFd ≠ none)
    (hr : Run (stepOf step) s₀ tr s) (hok : ∀ p ∈ tr, p.1.Calm p.2 ∧ Answered p.2) :
    s.taken + s.pending = tr.countP (fun p => p.1.calls p.2) ∧
      (s.point = .waiting → ∃ fd, s.idleFd = some fd ∧ s.fds.owner fd = some .reserve) := by
  obtain ⟨hkept, htaken, hpending⟩ := kept_construct hc hi
  have h : (Owns s.fds s.due ∧ s.Kept) ∧
      s.taken + s.pending = tr.countP (fun p => p.1.calls p.2) := by
    refine hr.invariant_trace (I := fun tr s => (Owns s.fds s.due ∧ s.Kept) ∧
      s.taken + s.pending = tr.countP (fun p => p.1.calls p.2))
      (G := fun s a => s.Calm a ∧ Answered a) hok ?_ ?_
    · exact ⟨⟨owns_construct hc hf, hkept⟩, by rw [htaken, hpending]; rfl⟩
    · rintro tr t a u ⟨⟨ho, hk⟩, hcount⟩ ⟨hcalm, hans⟩ hst
      have hst := step_cases hst
      refine ⟨⟨owns_step ho hst, kept_step ho hk hcalm hst⟩, ?_⟩
      rw [List.countP_append, List.countP_singleton, ← hcount]
      exact taken_step hk hans hst
  obtain ⟨⟨ho, hk⟩, hcount⟩ := h
  refine ⟨hcount, fun hp => ?_⟩
  obtain ⟨fd, hfd⟩ := Option.ne_none_iff_exists'.mp (hk.held (by rw [hp]; rfl))
  refine ⟨fd, hfd, (ho .reserve rfl fd).mpr ?_⟩
  simp only [due, hp, hfd]

/-- Two clients connect to a process whose table is full. -/
def fullTwice : List AcceptorAct :=
  [.openOther, .openOther, .arrive, .arrive] ++
    (List.replicate 2 [.accept .EMFILE, .next, .accept .connection, .next, .next]).flatten

theorem fullTwice_taken : ∃ s₀ tr s, construct fourFds true = some s₀ ∧
    runAll step s₀ fullTwice = some (tr, s) ∧ s.fds.Full ∧ s.refused = [0, 1] ∧
      s.taken + s.pending = 2 ∧ ∃ fd, s.idleFd = some fd ∧ s.fds.owner fd = some .reserve := by
  obtain ⟨s₀, hc, hi, tr, s, hrun, hok, hp, hfull, href, hcount⟩ : ∃ s₀,
      construct fourFds true = some s₀ ∧ s₀.idleFd ≠ none ∧ ∃ tr s,
        runAll step s₀ fullTwice = some (tr, s) ∧ (∀ p ∈ tr, p.1.Calm p.2 ∧ Answered p.2) ∧
          s.point = .waiting ∧ s.fds.Full ∧ s.refused = [0, 1] ∧
            tr.countP (fun p => p.1.calls p.2) = 2 := by
    refine ⟨_, rfl, nofun, _, _, rfl, ?_⟩
    decide
  have h := every_call_takes hc (fun _ _ h => nomatch h) hi (run_of_runAll hrun) hok
  exact ⟨s₀, tr, s, hc, hrun, hfull, href, h.1.trans hcount, h.2 hp⟩

/-! ## When the reserve is lost -/

/-- The table is full and `idleFd_` is −1, or the acceptor is destroyed. -/
def Stuck (s : Acceptor) : Prop :=
  match s.point with
  | .destroyed => True
  | .dropping _ => False
  | .waiting | .exhausted | .vacated | .refusing | .reopening => s.fds.Full ∧ s.idleFd = none

/-- Another part of the process closes a descriptor. -/
def frees : AcceptorAct → Bool
  | .closeOther _ => true
  | .arrive | .leave _ | .openOther | .accept _ | .next | .destroy => false

theorem not_full_of_alloc {t t' : FdTable FdOwner} {o : FdOwner} {fd : ℕ} :
    t.alloc o = some (fd, t') → ¬ t.Full := by
  intro h hf
  exact nomatch h.symm.trans (FdTable.alloc_eq_none.mpr hf)

theorem stuck_step (h : s.Stuck) (ha : frees a = false) :
    AcceptorStep s a s' → s'.Stuck ∧ s'.taken = s.taken := by
  intro hst
  cases hst with
  | arrive | leave | nothing => exact ⟨h, rfl⟩
  | closeOther fd => exact Bool.noConfusion ha
  | openOther fd fds hfd =>
      refine ⟨?_, rfl⟩
      have hroom := not_full_of_alloc hfd
      cases hp : s.point with
      | destroyed => simp only [Stuck]
      | dropping => simp only [Stuck, hp] at h
      | waiting | exhausted | vacated | refusing | reopening =>
          simp only [Stuck, hp] at h
          exact absurd h.1 hroom
  | handed fd c cs fds hp hb hfd | dropped fd c cs fds hp hb hfd
  | taken fd c cs fds hp hb hfd | reopened fd fds hp hfd =>
      simp only [Stuck, hp] at h
      exact absurd h.1 (not_full_of_alloc hfd)
  | exhausted hp =>
      simp only [Stuck, hp] at h
      exact ⟨h, rfl⟩
  | missed _ hp | lost hp =>
      simp only [Stuck, hp] at h
      exact ⟨⟨h.1, rfl⟩, rfl⟩
  | close fd hp => simp only [Stuck, hp] at h
  | vacate hp | refuse hp =>
      simp only [Stuck, hp] at h
      have hclose : s.closeIdle = s.fds := by rw [closeIdle, h.2]
      exact ⟨⟨hclose ▸ h.1, h.2⟩, rfl⟩
  | destroy => exact ⟨trivial, rfl⟩

/-- Once the reserve is lost and the table is full, `HandleNewConnection` is called in vain until
another part of the process closes a descriptor: no connection is accepted or refused. -/
theorem lost_reserve_spins {tr : List (Acceptor × AcceptorAct)} {t : Acceptor}
    (hp : s.point = .waiting) (hi : s.idleFd = none) (hf : s.fds.Full)
    (hr : Run (stepOf step) s tr t) (hno : ∀ p ∈ tr, frees p.2 = false) :
    t.taken = s.taken ∧ (t.point = .waiting → t.idleFd = none ∧ t.fds.Full) := by
  have h : t.Stuck ∧ t.taken = s.taken := by
    refine hr.invariant_of (I := fun t => t.Stuck ∧ t.taken = s.taken)
      (G := fun _ a => frees a = false) hno ?_ ?_
    · exact ⟨by simpa only [Stuck, hp] using ⟨hf, hi⟩, rfl⟩
    · rintro t a u ⟨hs, htaken⟩ ha hst
      obtain ⟨hu, heq⟩ := stuck_step hs ha (step_cases hst)
      exact ⟨hu, heq.trans htaken⟩
  refine ⟨h.2, fun hp => ?_⟩
  have hstuck := h.1
  simp only [Stuck, hp] at hstuck
  exact hstuck.symm

/-- `HandleNewConnection` after the run `overtaken`. -/
def calledAgain : List AcceptorAct :=
  .arrive :: (List.replicate 2 [.accept .EMFILE, .next, .accept .EMFILE, .next, .next]).flatten

theorem overtaken_spins : ∃ s₀ tr s tr' t, construct fourFds true = some s₀ ∧
    runAll step s₀ overtaken = some (tr, s) ∧ runAll step s calledAgain = some (tr', t) ∧
      t.backlog = [0, 1] ∧ t.taken = s.taken ∧ t.idleFd = none ∧ t.fds.Full := by
  obtain ⟨s₀, hc, tr, s, hrun, hp, hi, hf, tr', t, hrun', hno, hb, hp'⟩ : ∃ s₀,
      construct fourFds true = some s₀ ∧ ∃ tr s, runAll step s₀ overtaken = some (tr, s) ∧
        s.point = .waiting ∧ s.idleFd = none ∧ s.fds.Full ∧ ∃ tr' t,
          runAll step s calledAgain = some (tr', t) ∧
            (∀ p ∈ tr', frees p.2 = false) ∧ t.backlog = [0, 1] ∧ t.point = .waiting :=
    ⟨_, rfl, _, _, rfl, rfl, rfl, by decide, _, _, rfl, by decide, rfl, rfl⟩
  have h := lost_reserve_spins hp hi hf (run_of_runAll hrun') hno
  exact ⟨s₀, tr, s, tr', t, hc, hrun, hrun', hb, h.1, h.2 hp'⟩

end Acceptor

end Muduo
