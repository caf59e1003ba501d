/-
# `Muduo.Server.Destroy` — the destructor against connections that close

There are two ways to `StepIntoDestroyed`, and each goes by way of two loops:

    the connection   HandleClose ─▶ RemoveConnection ─▶ RemoveConnectionInLoop ─▶ StepIntoDestroyed
    the destructor   ~TcpServer ───────────────────────────────────────────────▶ StepIntoDestroyed

Nothing cancels the first one when the second one begins, and its messages hold a
pointer to the server.  The server is `Settled` when no removal is under way as
the destructor begins, and no connection closes from then on.

    Serves   ──destroy, with no removal under way──▶   Ending
-/
import Muduo.Server.LifeCycle

namespace Muduo

open Runs

/-! ## The end of one connection -/

/-- A connection of a server that is not alive any more: nothing removes it, and
`StepIntoDestroyed` is before it or behind it, once. -/
structure Ends (log : List ConnEvent) (d : Due → ℕ) : Prop where
  removal : d .removal = 0
  once : d .destroyed + d .torn + log.count .down ≤ 1
  removed : d .remove + log.count .removed ≤ log.count .down

namespace Ends

variable {log : List ConnEvent} {d d' : Due → ℕ}

/-- What is neither a close or read callback nor belongs to a stage may come and go. -/
theorem same (h : Ends log d) (hd : ∀ x, ¬ x.Minor → x ≠ .event → d' x = d x) : Ends log d' where
  removal := (hd .removal id nofun).trans h.removal
  once := by
    rw [hd .destroyed id nofun, hd .torn id nofun]
    exact h.once
  removed := by
    rw [hd .remove id nofun]
    exact h.removed

/-- The destructor hands the connection to `StepIntoDestroyed`. -/
theorem torn (h : Ends log d)
    (hd : ∀ x, d' x + [Due.torn].count x = d x + [Due.destroyed].count x) : Ends log d' := by
  have hremoval : d' .removal + 0 = d .removal + 0 := hd .removal
  have hdestroyed : d' .destroyed + 0 = d .destroyed + 1 := hd .destroyed
  have htorn : d' .torn + 1 = d .torn + 0 := hd .torn
  have hremove : d' .remove + 0 = d .remove + 0 := hd .remove
  have hr := h.removal
  have ho := h.once
  have hm := h.removed
  exact ⟨by omega, by omega, by omega⟩

/-- An operation in which `HandleClose` is not called. -/
theorem ran {op : LifeOp} {effs : List ConnEffect} (h : Ends log d)
    (hclose : .removal ∉ op.leaves effs)
    (hd : ∀ x, d' x + op.uses.count x = d x + (op.leaves effs).count x) :
    Ends (log ++ (op.event ++ effs.flatMap ConnEffect.event)) d' := by
  have hremoval := hd .removal
  have hdestroyed := hd .destroyed
  have htorn := hd .torn
  have hremove := hd .remove
  rw [List.count_eq_zero.mpr hclose, h.removal] at hremoval
  rw [op.count_leaves effs (.inl rfl)] at hdestroyed
  rw [op.count_leaves effs (.inr rfl)] at htorn
  rw [op.count_leaves_remove] at hremove
  have hdown : (log ++ (op.event ++ effs.flatMap ConnEffect.event)).count .down =
      log.count .down + op.uses.count .destroyed := by
    rw [List.count_append, op.count_down]
  have hremoved : (log ++ (op.event ++ effs.flatMap ConnEffect.event)).count .removed =
      log.count .removed + op.uses.count .remove := by
    rw [List.count_append, op.count_removed]
  have ho := h.once
  have hm := h.removed
  exact ⟨by omega, by omega, by omega⟩

/-- One whose assertion fails. -/
theorem failed {op : LifeOp} (h : Ends log d) (hd : ∀ x, d' x + op.uses.count x = d x) :
    Ends log d' := by
  have hremoval := hd .removal
  have hdestroyed := hd .destroyed
  have htorn := hd .torn
  have hremove := hd .remove
  have hr := h.removal
  have ho := h.once
  have hm := h.removed
  exact ⟨by omega, by omega, by omega⟩

end Ends

/-- A connection of a server that is alive, when the destructor begins: `n` is how often the
destructor will come to it. -/
theorem Lives.ends {tcp : TcpConnection} {log : List ConnEvent} {d d' : Due → ℕ} {n : ℕ}
    (h : Lives tcp log d) (hr : d .removal = 0) (hn : n ≤ 1)
    (hnone : n ≠ 0 → d .destroyed = 0 ∧ log.count .down = 0)
    (hd : ∀ x, d' x = d x + if x = .torn then n else 0) : Ends log d' := by
  have hremoval : d' .removal = d .removal + 0 := hd .removal
  have hdestroyed : d' .destroyed = d .destroyed + 0 := hd .destroyed
  have htorn : d' .torn = d .torn + n := hd .torn
  have hremove : d' .remove = d .remove + 0 := hd .remove
  have hclosing := h.closing
  have hevents := h.events
  have hremoving := h.removing
  have huntorn := h.untorn
  refine ⟨by omega, ?_, by omega⟩
  rcases Nat.eq_zero_or_pos n with hz | hpos
  · omega
  · obtain ⟨hdes, hdown⟩ := hnone hpos.ne'
    omega

namespace TcpServer

variable {s s' : TcpServer} {a : ServerAct} {c : ℕ} {k : ServerConn}

/-- The destructor is called while no removal is under way, and no connection closes once
it has begun. -/
def Settled (s : TcpServer) : ServerAct → Prop
  | .destroy _ => ∀ p ∈ s.threads.flatMap ServerThread.dues, p.2 ≠ .removal
  | a => s.phase ≠ .alive → s.closing a = false

instance (s : TcpServer) : (a : ServerAct) → Decidable (s.Settled a)
  | .destroy _ => inferInstanceAs (Decidable (∀ p ∈ s.threads.flatMap ServerThread.dues, _))
  | .accept _ _ | .poll _ _ | .dispatch _ | .swap _ | .task _ | .advance _ _ | .send _ _ _
  | .shutdown _ _ | .retrieve _ _ _ | .setHighWater _ _ _ => inferInstanceAs (Decidable (_ → _))

theorem Settled.closing (h : s.Settled a) (hp : s.phase ≠ .alive) : s.closing a = false := by
  cases a with
  | destroy order => rfl
  | accept | poll | dispatch | swap | task | advance | send | shutdown | retrieve | setHighWater =>
      exact h hp

/-- What every state of a server has whose destructor has begun. -/
structure Ending (s : TcpServer) : Prop where
  phase : s.phase ≠ .alive
  ends : ∀ (c : ℕ) (k : ServerConn), s.accepted[c]? = some k → Ends k.log (dueTo s.threads c)
  fresh : s.stale = 0

/-- The connections in the table are distinct. -/
theorem Serves.nodup_conns (h : s.Serves) : (s.conns.map Prod.snd).Nodup := by
  refine List.Nodup.map_on (fun p hp q hq he => ?_) (List.Nodup.of_map Prod.fst h.keys)
  obtain ⟨k, hk, hname, -⟩ := h.entry p hp
  obtain ⟨u, hu, hname', -⟩ := h.entry q hq
  rw [he, hu] at hk
  obtain rfl := Option.some.inj hk
  exact Prod.ext (hname.symm.trans hname') he

/-- The destructor begins. -/
theorem Serves.ending (h : s.Serves) {order : List ℕ} {ts : List ServerThread}
    (hperm : order.Perm (s.conns.map Prod.snd)) (hok : s.Settled (.destroy order))
    (hd : ∀ c x, dueTo ts c x =
      dueTo s.threads c x + (order.map fun c => (c, Due.torn)).count (c, x)) :
    Ending { s with threads := ts, phase := .destructing } where
  phase := nofun
  fresh := h.fresh
  ends := by
    intro c k hk
    have hnodup : order.Nodup := hperm.nodup_iff.mpr h.nodup_conns
    refine (h.lives c k hk).ends (n := order.count c) ?_ (List.nodup_iff_count_le_one.mp hnodup c)
      (fun hne => ?_) fun x => ?_
    · exact List.count_eq_zero.mpr fun hmem => hok _ hmem rfl
    · have hmem := List.count_pos_iff.mp (Nat.pos_of_ne_zero hne)
      obtain ⟨p, hp, rfl⟩ := List.mem_map.mp (hperm.mem_iff.mp hmem)
      obtain ⟨u, hu, -, hdes, hdown⟩ := h.entry p hp
      obtain rfl := Option.some.inj (hk.symm.trans hu)
      exact ⟨hdes, hdown⟩
    · refine (hd c x).trans (congrArg _ ?_)
      split
      · next hx =>
          subst hx
          exact List.count_map_of_injective order (fun c => (c, Due.torn))
            (fun _ _ he => (Prod.mk.inj he).1) c
      · next hx =>
          refine List.count_eq_zero.mpr fun hmem => ?_
          obtain ⟨c', -, he⟩ := List.mem_map.mp hmem
          exact hx (Prod.mk.inj he).2.symm

/-- Every step keeps the end on its way. -/
theorem Ending.effect (h : s.Ending) (e : Effect s a s') (hok : s.Settled a) : s'.Ending := by
  have hclosing := hok.closing h.phase
  cases e with
  | moved hd => exact ⟨h.phase, fun c k hk => (h.ends c k hk).same fun x _ _ => hd c x, h.fresh⟩
  | @ran ts c k r op hk hfit hrun hdue hd hclose =>
      have hno : .removal ∉ op.leaves r.2 := fun hmem =>
        Bool.false_ne_true (hclosing.symm.trans (hclose hmem))
      have hcb : r.2.count .onCloseCb = 0 := List.count_eq_zero.mpr fun hmem =>
        hno (List.mem_append_left _ (List.mem_flatMap.mpr ⟨_, hmem, List.mem_singleton_self _⟩))
      refine ⟨h.phase, fun c' u hu => ?_, ?_⟩
      · rcases getElem?_set_cases hk hu with ⟨rfl, rfl⟩ | ⟨hc, hu⟩
        · exact (h.ends c' k hk).ran hno hd.self
        · exact hd.other hc ▸ h.ends c' u hu
      · simp only [h.fresh, hcb, ite_self]
  | @failed ts c k op hk hfit hrun hd =>
      refine ⟨h.phase, ?_, h.fresh⟩
      exact hd.keeps (P := fun k d => Ends k.log d) h.ends fun u hu =>
        (h.ends c u hu).failed hd.self
  | @loaded ts c k hk hs hd =>
      refine ⟨h.phase, ?_, h.fresh⟩
      refine hd.keeps (P := fun k d => Ends k.log d) h.ends fun u hu => ?_
      refine (h.ends c u hu).same fun x hx _ => ?_
      refine Lives.same_of_minor [] [.send] nofun (fun y hy => ?_) hd.self x hx
      exact List.mem_singleton.mp hy ▸ trivial
  | @erased ts c k hk hd =>
      have hpos := hd.pos (List.mem_singleton_self _) (by decide)
      exact absurd (h.ends c k hk).removal hpos.ne'
  | accepted connfd ipPort k idx ha hp => exact absurd hp h.phase
  | polled l active hnodup hrep hnone hd =>
      refine ⟨h.phase, fun c k hk => (h.ends c k hk).same fun x _ hx => ?_, h.fresh⟩
      rw [hd c x, count_reportDues_ne active c hx, Nat.add_zero]
  | destroyed order ha hp => exact absurd hp h.phase
  | @torn ts c hd =>
      refine ⟨h.phase, ?_, h.fresh⟩
      exact hd.keeps (P := fun k d => Ends k.log d) h.ends fun u hu => (h.ends c u hu).torn hd.self
  | gone hp hd => exact ⟨nofun, fun c k hk => (h.ends c k hk).same fun x _ _ => hd c x, h.fresh⟩

/-- Before the destructor begins the server serves, from then on it comes to its end. -/
theorem ending_of_run {name : List Char} {wc : Bool} {poolSize users : ℕ}
    {tr : List (TcpServer × ServerAct)}
    (hr : Run (stepOf step) (init name wc poolSize users) tr s) (hok : ∀ p ∈ tr, Settled p.1 p.2) :
    s.Home ∧ (s.Serves ∨ s.Ending) := by
  refine hr.invariant_of (I := fun s => s.Home ∧ (s.Serves ∨ s.Ending)) hok
    ⟨home_init name wc poolSize users, .inl (serves_init name wc poolSize users)⟩ ?_
  intro t a u ⟨hh, hor⟩ hg hst
  have hst := steps_of_step hst
  refine ⟨hh.step hst, ?_⟩
  have e := Effect.of_steps hh hst
  rcases hor with hs | he
  · cases a with
    | destroy order =>
        cases hst with
        | destroy order ht hp hperm =>
            refine .inr (hs.ending hperm hg fun c x => ?_)
            have hpush := due_push ht [.destructor order] c x
            rwa [List.flatMap_singleton] at hpush
    | accept | poll | dispatch | swap | task | advance | send | shutdown | retrieve
    | setHighWater => exact .inl (hs.effect hh e fun _ => nofun)
  · exact .inr (he.effect e hg)

/-- When no removal is under way as the destructor begins and no connection closes from then
on, every connection is torn down once at most, and nothing calls a server that is gone. -/
theorem torn_down_once {name : List Char} {wc : Bool} {poolSize users : ℕ}
    {tr : List (TcpServer × ServerAct)}
    (hr : Run (stepOf step) (init name wc poolSize users) tr s) (hok : ∀ p ∈ tr, Settled p.1 p.2) :
    (∀ (c : ℕ) (k : ServerConn), s.accepted[c]? = some k →
      k.log.count .down ≤ 1 ∧ k.log.count .removed ≤ 1) ∧ s.stale = 0 := by
  obtain ⟨-, hs | he⟩ := ending_of_run hr hok
  · refine ⟨fun c k hk => ?_, hs.fresh⟩
    have hl := hs.lifeCycle hk
    exact ⟨hl.down, hl.removed⟩
  · refine ⟨fun c k hk => ?_, he.fresh⟩
    have hends := he.ends c k hk
    have ho := hends.once
    have hm := hends.removed
    omega

/-- After one connection has been taken down another one is accepted, and the server is
destroyed while it is connected. -/
def destroyed : List ServerAct :=
  hangUp ++
    [.poll 0 [], .accept 8 ['i'], .advance 0 nothing,
      .poll 1 [], .swap 1, .task 1, .advance 1 nothing, .advance 1 nothing,
      .destroy [1], .advance 0 nothing, .advance 0 nothing, .advance 0 nothing,
      .poll 1 [], .swap 1, .task 1, .advance 1 nothing, .advance 1 nothing, .advance 1 nothing]

theorem destroyed_once : ∃ tr s, runAll step (init ['s'] true 1 1) destroyed = some (tr, s) ∧
    s.phase = .gone ∧
      s.accepted.map ServerConn.log = [[.up, .close, .down, .removed], [.up, .down, .removed]] ∧
        (∀ (c : ℕ) (k : ServerConn), s.accepted[c]? = some k →
          k.log.count .down ≤ 1 ∧ k.log.count .removed ≤ 1) ∧ s.stale = 0 := by
  obtain ⟨tr, s, hrun, hok, hp, hlog⟩ : ∃ tr s,
      runAll step (init ['s'] true 1 1) destroyed = some (tr, s) ∧ (∀ p ∈ tr, Settled p.1 p.2) ∧
        s.phase = .gone ∧
          s.accepted.map ServerConn.log =
            [[.up, .close, .down, .removed], [.up, .down, .removed]] :=
    exists_computed (by decide +kernel)
  exact ⟨tr, s, hrun, hp, hlog, torn_down_once (run_of_runAll hrun) hok⟩

/-- A connection closes in loop 1; its `RemoveConnectionInLoop` stands in the batch of the
main loop when a callback there destroys the server. -/
def closeInFlight : List ServerAct :=
  [.poll 0 [], .accept 7 ['h'], .advance 0 nothing,
    .poll 1 [], .swap 1, .task 1, .advance 1 nothing, .advance 1 nothing,
    .poll 1 [(0, POLLHUP)], .dispatch 1, .advance 1 nothing, .advance 1 nothing,
    .swap 0, .destroy [0], .advance 0 nothing, .advance 0 nothing, .advance 0 nothing,
    .task 0, .advance 0 nothing]

/-- It is called when the server is gone, and finds no entry to erase. -/
theorem closeInFlight_stale : ∃ tr s,
    runAll step (init ['s'] true 1 1) closeInFlight = some (tr, s) ∧
      s.phase = .gone ∧ s.stale = 1 ∧ s.erased = [0] ∧ ¬ ∀ p ∈ tr, Settled p.1 p.2 :=
  exists_computed (by decide +kernel)

end TcpServer

end Muduo
