/-
# `Muduo.Acceptor.Descriptors` — what the acceptor has to close

In `HandleNewConnection` the number in `idleFd_` changes its meaning: it is the
open `/dev/null`, then a number that has been closed, then an accepted connection,
then closed again.  Other threads open and close descriptors meanwhile and get the
numbers that are free, so a `close` too many would hit one of theirs.

                 listener_   /dev/null   a connection
    waiting      listener    idleFd_
    dropping fd  listener    idleFd_     fd
    exhausted    listener    idleFd_
    vacated      listener
    refusing     listener                idleFd_
    reopening    listener
    destroyed                idleFd_

In every run the descriptors of the acceptor are exactly those of this table, and
it closes no other (`closes_its_own`).
-/
import Mathlib.Data.List.Range
import Muduo.Acceptor.Model

namespace Muduo

open Runs

/-- The step is one of the loop thread in the acceptor. -/
def AcceptorAct.own : AcceptorAct → Bool
  | accept _ | next | destroy => true
  | arrive | leave _ | openOther | closeOther _ => false

/-- The descriptors of the acceptor are those that are due. -/
def Owns (fds : FdTable FdOwner) (due : FdOwner → Option ℕ) : Prop :=
  ∀ o, o.foreign = false → ∀ fd, fds.owner fd = some o ↔ due o = some fd

namespace Owns

variable {fds fds' : FdTable FdOwner} {due due' : FdOwner → Option ℕ} {fd : ℕ} {o : FdOwner}

theorem same (h : Owns fds due) : (∀ o, due' o = due o) → Owns fds due' := by
  intro hd o ho fd
  rw [hd o]
  exact h o ho fd

/-- A descriptor for the rest of the process. -/
theorem allocForeign (h : Owns fds due) (ho : o.foreign = true)
    (hfd : fds.alloc o = some (fd, fds')) : Owns fds' due := by
  intro o' ho' f
  rw [FdTable.owner_alloc hfd, ← h o' ho' f]
  refine or_iff_left ?_
  rintro ⟨-, rfl⟩
  exact nomatch ho.symm.trans ho'

theorem releaseForeign (h : Owns fds due) (ho : o.foreign = true) (hfd : fds.owner fd = some o) :
    Owns (fds.release fd) due := by
  intro o' ho' f
  rw [FdTable.owner_release, ← h o' ho' f]
  refine and_iff_left_of_imp ?_
  rintro hf rfl
  obtain rfl := Option.some.inj (hfd.symm.trans hf)
  exact nomatch ho.symm.trans ho'

/-- A descriptor for the acceptor. -/
theorem alloc (h : Owns fds due) (hfd : fds.alloc o = some (fd, fds')) (hnone : due o = none)
    (hsome : due' o = some fd) (hd : ∀ o', o' ≠ o → due' o' = due o') : Owns fds' due' := by
  intro o' ho' f
  rw [FdTable.owner_alloc hfd, h o' ho' f]
  by_cases heq : o' = o
  · subst heq
    rw [hnone, hsome, Option.some.injEq]
    exact ⟨fun hor => hor.elim nofun fun hf => hf.1.symm, fun hf => .inr ⟨hf.symm, rfl⟩⟩
  · rw [hd o' heq]
    exact or_iff_left fun hf => heq hf.2

theorem release (h : Owns fds due) (ho : o.foreign = false) (hfd : due o = some fd)
    (hnone : due' o = none) (hd : ∀ o', o' ≠ o → due' o' = due o') :
    Owns (fds.release fd) due' := by
  intro o' ho' f
  rw [FdTable.owner_release, h o' ho' f]
  by_cases heq : o' = o
  · subst heq
    rw [hfd, hnone, Option.some.injEq]
    exact iff_of_false (fun hand => hand.2 hand.1.symm) nofun
  · rw [hd o' heq]
    refine and_iff_left_of_imp ?_
    rintro hf rfl
    have howner := (h o' ho' f).mpr hf
    rw [(h o ho f).mpr hfd] at howner
    exact heq (Option.some.inj howner).symm

end Owns

namespace Acceptor

variable {s s₀ s' : Acceptor} {a : AcceptorAct} {fds : FdTable FdOwner} {hasCallback : Bool}

/-- The descriptors that the acceptor has to close. -/
def due (s : Acceptor) : FdOwner → Option ℕ
  | .listener => if s.point = .destroyed then none else some s.listener
  | .reserve =>
      match s.point with
      | .vacated | .refusing | .reopening => none
      | .waiting | .dropping _ | .exhausted | .destroyed => s.idleFd
  | .accepted =>
      match s.point with
      | .dropping connfd => some connfd
      | .refusing => s.idleFd
      | .waiting | .exhausted | .vacated | .reopening | .destroyed => none
  | .connection | .other => none

theorem owns_construct (hc : construct fds hasCallback = some s)
    (hf : ∀ fd o, fds.owner fd = some o → o.foreign = true) : Owns s.fds s.due := by
  obtain ⟨⟨l, fds₁⟩, hl, rfl⟩ := Option.map_eq_some_iff.mp hc
  have hnone : Owns fds fun _ => none := by
    intro o ho fd
    exact iff_of_false (fun h => nomatch (hf fd o h).symm.trans ho) nofun
  have hlist : Owns fds₁ fun o => if o = .listener then some l else none := by
    refine hnone.alloc hl rfl (if_pos rfl) fun o' ho' => if_neg ho'
  cases hi : fds₁.alloc .reserve with
  | none =>
      simp only [openIdle, hi]
      refine hlist.same fun o => ?_
      cases o <;> rfl
  | some p =>
      simp only [openIdle, hi]
      refine hlist.alloc hi rfl rfl fun o ho => ?_
      cases o with
      | reserve => exact absurd rfl ho
      | listener | accepted | connection | other => rfl

/-- `close(idleFd_)`, where it is what the acceptor has to close. -/
theorem owns_closeIdle {o : FdOwner} {due' : FdOwner → Option ℕ} (h : Owns s.fds s.due)
    (ho : o.foreign = false) (hi : s.due o = s.idleFd) (hnone : due' o = none)
    (hd : ∀ o', o' ≠ o → due' o' = s.due o') : Owns s.closeIdle due' := by
  cases hidle : s.idleFd with
  | some fd =>
      rw [closeIdle, hidle]
      exact h.release ho (hi.trans hidle) hnone hd
  | none =>
      rw [closeIdle, hidle]
      refine h.same fun o' => ?_
      by_cases heq : o' = o
      · rw [heq, hnone, hi, hidle]
      · exact hd o' heq

theorem owns_step (h : Owns s.fds s.due) : AcceptorStep s a s' → Owns s'.fds s'.due := by
  intro hst
  cases hst with
  | arrive | leave | nothing => exact h
  | openOther fd fds hfd => exact h.allocForeign rfl hfd
  | closeOther fd o ho hfd => exact h.releaseForeign ho hfd
  | handed fd c cs fds hp hb hfd => exact h.allocForeign rfl hfd
  | dropped fd c cs fds hp hb hfd =>
      refine h.alloc hfd ?_ rfl fun o ho => ?_
      · simp only [due, hp]
      · cases o with
        | accepted => exact absurd rfl ho
        | listener | reserve | connection | other => simp [due, hp]
  | exhausted hp _ | missed r hp _ _ | lost hp _ =>
      refine h.same fun o => ?_
      cases o <;> simp [due, hp]
  | taken fd c cs fds hp hb hfd =>
      refine h.alloc hfd ?_ rfl fun o ho => ?_
      · simp only [due, hp]
      · cases o with
        | accepted => exact absurd rfl ho
        | listener | reserve | connection | other => simp [due, hp]
  | close fd hp =>
      refine h.release (o := .accepted) rfl ?_ rfl fun o ho => ?_
      · simp only [due, hp]
      · cases o with
        | accepted => exact absurd rfl ho
        | listener | reserve | connection | other => simp [due, hp]
  | vacate hp =>
      refine owns_closeIdle (o := .reserve) h rfl ?_ rfl fun o ho => ?_
      · simp only [due, hp]
      · cases o with
        | reserve => exact absurd rfl ho
        | listener | accepted | connection | other => simp [due, hp]
  | refuse hp =>
      refine owns_closeIdle (o := .accepted) h rfl ?_ rfl fun o ho => ?_
      · simp only [due, hp]
      · cases o with
        | accepted => exact absurd rfl ho
        | listener | reserve | connection | other => simp [due, hp]
  | reopened fd fds hp hfd =>
      refine h.alloc hfd ?_ rfl fun o ho => ?_
      · simp only [due, hp]
      · cases o with
        | reserve => exact absurd rfl ho
        | listener | accepted | connection | other => simp [due, hp]
  | destroy hp =>
      refine h.release (o := .listener) rfl ?_ rfl fun o ho => ?_
      · simp only [due, hp]
        rfl
      · cases o with
        | listener => exact absurd rfl ho
        | reserve | accepted | connection | other => simp [due, hp]

/-- A descriptor that the rest of the process has to close stays as it is. -/
theorem foreign_kept (h : Owns s.fds s.due) (ha : a.own = true) {fd : ℕ} {o : FdOwner}
    (ho : o.foreign = true) (hfd : s.fds.owner fd = some o) :
    AcceptorStep s a s' → s'.fds.owner fd = some o := by
  intro hst
  have hne : ∀ o' f, o'.foreign = false → s.due o' = some f → fd ≠ f := by
    rintro o' f ho' hf rfl
    have howner := (h o' ho' fd).mpr hf
    obtain rfl := Option.some.inj (hfd.symm.trans howner)
    exact nomatch ho.symm.trans ho'
  have hidle : ∀ o', o'.foreign = false → s.due o' = s.idleFd →
      s.closeIdle.owner fd = some o := by
    intro o' ho' hi
    cases hf : s.idleFd with
    | some f =>
        rw [closeIdle, hf]
        exact FdTable.owner_release.mpr ⟨hfd, hne o' f ho' (hi.trans hf)⟩
    | none =>
        rw [closeIdle, hf]
        exact hfd
  cases hst with
  | arrive | leave | openOther | closeOther => exact nomatch ha
  | exhausted | nothing | missed | lost => exact hfd
  | handed f c cs fds hp hb hf | dropped f c cs fds hp hb hf | taken f c cs fds hp hb hf
  | reopened f fds hp hf => exact (FdTable.owner_alloc hf).mpr (.inl hfd)
  | close f hp =>
      exact FdTable.owner_release.mpr ⟨hfd, hne .accepted f rfl (by simp only [due, hp])⟩
  | vacate hp => exact hidle .reserve rfl (by simp only [due, hp])
  | refuse hp => exact hidle .accepted rfl (by simp only [due, hp])
  | destroy hp =>
      refine FdTable.owner_release.mpr ⟨hfd, hne .listener _ rfl ?_⟩
      simp only [due, hp]
      rfl

/-- Every connection that has come is in the backlog or has left it one way. -/
def Accounted (s : Acceptor) : Prop :=
  (s.handed ++ s.refused ++ s.backlog ++ s.gone).Perm (List.range s.arrived)

theorem accounted_step (h : s.Accounted) : AcceptorStep s a s' → s'.Accounted := by
  intro hst
  have h' : (s.handed ++ s.refused ++ s.backlog ++ s.gone).Perm (List.range s.arrived) := h
  cases hst with
  | openOther | closeOther | exhausted | nothing | missed | close | vacate | refuse | reopened
  | lost => exact h
  | arrive hp =>
      show (_ ++ (s.backlog ++ [s.arrived]) ++ s.gone).Perm _
      rw [List.range_succ]
      refine .trans ?_ (h'.append_right _)
      simp only [List.append_assoc]
      exact .append_left _ (.append_left _ (.append_left _ List.perm_append_comm))
  | leave c hc =>
      refine .trans ?_ h'
      show (_ ++ s.backlog.erase c ++ (c :: s.gone)).Perm _
      simp only [List.append_assoc]
      refine .append_left _ (.append_left _ ?_)
      exact List.perm_middle.trans ((List.perm_cons_erase hc).symm.append_right _)
  | handed fd c cs fds hp hb hfd =>
      refine .trans ?_ h'
      rw [hb]
      simp only [List.append_assoc, List.cons_append, List.nil_append]
      exact .append_left _ List.perm_middle.symm
  | dropped fd c cs fds hp hb hfd | taken fd c cs fds hp hb hfd =>
      rw [hb] at h'
      simpa only [Accounted, List.append_assoc, List.cons_append, List.nil_append] using h'
  | destroy hp =>
      simpa only [Accounted, List.append_assoc, List.nil_append] using h'

/-- In every run, whatever other threads open and close, the descriptors of the acceptor are the
ones of the table above: each `close` hits one of them or −1, and none is left over but `idleFd_`
after `~Acceptor`.  Every connection is handed over once or closed, or still in the backlog or
gone from it. -/
theorem closes_its_own {tr : List (Acceptor × AcceptorAct)}
    (hc : construct fds hasCallback = some s₀)
    (hf : ∀ fd o, fds.owner fd = some o → o.foreign = true)
    (hr : Run (stepOf step) s₀ tr s) :
    Owns s.fds s.due ∧ s.Accounted ∧
      ∀ a s' fd o, s.step a = some s' → a.own = true → o.foreign = true →
        s.fds.owner fd = some o → s'.fds.owner fd = some o := by
  have h₀ : s₀.Accounted := by
    obtain ⟨p, -, rfl⟩ := Option.map_eq_some_iff.mp hc
    exact .nil
  have h : Owns s.fds s.due ∧ s.Accounted := by
    refine hr.invariant (I := fun s => Owns s.fds s.due ∧ s.Accounted)
      ⟨owns_construct hc hf, h₀⟩ ?_
    intro t a u h hst
    exact ⟨owns_step h.1 (step_cases hst), accounted_step h.2 (step_cases hst)⟩
  exact ⟨h.1, h.2, fun a s' fd o hst ha ho hfd => foreign_kept h.1 ha ho hfd (step_cases hst)⟩

/-- Four descriptors: the listener, `/dev/null`, and two of other threads. -/
def fourFds : FdTable FdOwner := .empty 4

/-- The table is full when a client connects; another thread gets the number that the acceptor
has just given up, and the acceptor closes −1. -/
def overtaken : List AcceptorAct :=
  [.openOther, .openOther, .arrive, .accept .EMFILE, .next, .openOther, .accept .EMFILE, .next,
    .next]

theorem overtaken_closes_its_own : ∃ s₀ tr s, construct fourFds true = some s₀ ∧
    runAll step s₀ overtaken = some (tr, s) ∧ s.point = .waiting ∧ s.idleFd = none ∧
      s.fds.owner 1 = some .other ∧ Owns s.fds s.due := by
  obtain ⟨s₀, hc, tr, s, hrun, hp, hi, ho⟩ : ∃ s₀, construct fourFds true = some s₀ ∧ ∃ tr s,
      runAll step s₀ overtaken = some (tr, s) ∧ s.point = .waiting ∧ s.idleFd = none ∧
        s.fds.owner 1 = some .other := by
    refine ⟨_, rfl, _, _, rfl, ?_⟩
    decide
  exact ⟨s₀, tr, s, hc, hrun, hp, hi, ho,
    (closes_its_own hc (fun _ _ h => nomatch h) (run_of_runAll hrun)).1⟩

end Acceptor

end Muduo
