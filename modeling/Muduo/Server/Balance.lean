/-
# `Muduo.Server.Balance` — the connections go to the loops in turn

`GetNextLoop` hands out the loops of `ioThreadPool_` one after the other and begins
again behind the last; without any it hands out `loop_`.  So connection `c` is in
loop `c % poolSize` of the pool whatever else happens between the calls, and the
loops have been given the same number of connections, up to one.
-/
import Muduo.Lib.RoundRobin
import Muduo.Server.LifeCycle

namespace Muduo

open RoundRobin Runs

namespace TcpServer

variable {s s' : TcpServer} {a : ServerAct}

/-- Loop `j` of the pool. -/
def poolLoop (j : ℕ) : ℕ := 1 + j

theorem poolLoop_injective : Function.Injective poolLoop := fun _ _ h => Nat.add_left_cancel h

/-- Every connection is in the loop whose turn it was, and `nextLoopIdx_` says whose it is. -/
structure TakesTurns (s : TcpServer) : Prop where
  base : s.poolSize = 0 → ∀ k ∈ s.accepted, k.loop = 0
  pool : 0 < s.poolSize → InTurn ServerConn.loop poolLoop s.poolSize s.accepted
  next : 0 < s.poolSize → s.nextLoopIdx = s.accepted.length % s.poolSize

theorem takesTurns_init (name : List Char) (wc : Bool) (poolSize users : ℕ) :
    (init name wc poolSize users).TakesTurns where
  base := fun _ => nofun
  pool := fun _ => inTurn_nil _ _ _
  next := fun _ => (Nat.zero_mod _).symm

/-- `HandleNewConnection` puts the new connection into the loop whose turn it is. -/
theorem TakesTurns.accept (h : s.TakesTurns) (connfd : ℤ) (ipPort : List Char) :
    (s.handleNewConnection connfd ipPort).TakesTurns := by
  obtain ⟨tcp, hnew, -, -⟩ := TcpConnection.sound_new connfd s.writeCompleteCb false 0
  rcases Nat.eq_zero_or_pos s.poolSize with h0 | hpos
  · simp only [handleNewConnection, getNextLoop, if_pos h0, hnew, Option.bind_eq_bind,
      Option.bind_some, check, Option.getD_some]
    refine ⟨fun _ k hk => ?_, fun hp => absurd h0 (Nat.pos_iff_ne_zero.mp hp),
      fun hp => absurd h0 (Nat.pos_iff_ne_zero.mp hp)⟩
    rcases List.mem_append.mp hk with hk | hk
    · exact h.base h0 k hk
    · exact List.mem_singleton.mp hk ▸ rfl
  · have hnext := h.next hpos
    have hlt : s.nextLoopIdx < s.poolSize := hnext ▸ Nat.mod_lt _ hpos
    simp only [handleNewConnection, getNextLoop, if_neg hpos.ne', assert_of hlt, hnew,
      Option.bind_eq_bind, Option.bind_some, check, Option.getD_some]
    refine ⟨fun h0 => absurd h0 hpos.ne', fun _ => (h.pool hpos).snoc ?_, fun _ => ?_⟩
    · exact congrArg poolLoop hnext
    · show (if s.nextLoopIdx + 1 ≥ s.poolSize then 0 else s.nextLoopIdx + 1) =
        (s.accepted ++ [_]).length % s.poolSize
      rw [List.length_append, List.length_singleton, hnext]
      exact next_turn hpos _

theorem poolSize_step (hh : s.Home) (hst : Steps s a s') : s'.poolSize = s.poolSize := by
  cases Effect.of_steps hh hst with
  | moved | ran | failed | loaded | erased | accepted | polled | destroyed | torn | gone => rfl

/-- Nothing else that happens touches the turns. -/
theorem TakesTurns.effect (h : s.TakesTurns) (e : Effect s a s')
    (ha : ∀ connfd ipPort, a ≠ .accept connfd ipPort) : s'.TakesTurns := by
  cases e with
  | moved | failed | loaded | erased | polled | destroyed | torn | gone =>
      exact ⟨h.base, h.pool, h.next⟩
  | @ran ts c k r op hk =>
      refine ⟨fun h0 u hu => ?_, fun hp => (h.pool hp).set hk rfl, fun hp => ?_⟩
      · rcases List.mem_or_eq_of_mem_set hu with hu | rfl
        · exact h.base h0 u hu
        · exact h.base h0 k (List.mem_of_getElem? hk)
      · exact (h.next hp).trans (congrArg (· % s.poolSize) List.length_set.symm)
  | accepted connfd ipPort k idx he => exact absurd he (ha connfd ipPort)

theorem TakesTurns.step (h : s.TakesTurns) (hh : s.Home) (hst : Steps s a s') :
    s'.TakesTurns := by
  have e := Effect.of_steps hh hst
  cases hst with
  | accept connfd ipPort => exact h.accept connfd ipPort
  | poll | dispatch | swap | task | advance | send | refused | shutdown | retrieve | setHighWater
  | destroy => exact h.effect e nofun

/-- In every run connection `c` is in the loop whose turn it was, and of two loops of the pool
neither has been given more than one connection more than the other, whatever happened to the
connections between the calls of `GetNextLoop`. -/
theorem takes_turns {name : List Char} {wc : Bool} {poolSize users : ℕ}
    {tr : List (TcpServer × ServerAct)}
    (hr : Run (stepOf step) (init name wc poolSize users) tr s) :
    (∀ (c : ℕ) (k : ServerConn), s.accepted[c]? = some k →
      k.loop = if poolSize = 0 then 0 else poolLoop (c % poolSize)) ∧
    ∀ j < poolSize, ∀ j' < poolSize, s.accepted.countP (·.loop = poolLoop j) ≤
      s.accepted.countP (·.loop = poolLoop j') + 1 := by
  obtain ⟨-, h, rfl⟩ : s.Home ∧ s.TakesTurns ∧ s.poolSize = poolSize := by
    refine hr.invariant (I := fun s => s.Home ∧ s.TakesTurns ∧ s.poolSize = poolSize)
      ⟨home_init name wc poolSize users, takesTurns_init name wc poolSize users, rfl⟩ ?_
    rintro t a u ⟨hh, ht, hsize⟩ hst
    have hst := steps_of_step hst
    exact ⟨hh.step hst, ht.step hh hst, (poolSize_step hh hst).trans hsize⟩
  refine ⟨fun c k hk => ?_, fun j hj j' hj' => ?_⟩
  · split
    · next h0 => exact h.base h0 k (List.mem_of_getElem? hk)
    · next hne => exact h.pool (Nat.pos_of_ne_zero hne) c k hk
  · exact (h.pool (Nat.zero_lt_of_lt hj)).balanced poolLoop_injective hj hj'

/-- Three connections for two loops. -/
def threeAccepts : List ServerAct :=
  [.poll 0 [], .accept 7 ['a'], .advance 0 nothing, .accept 8 ['b'], .advance 0 nothing,
    .accept 9 ['c'], .advance 0 nothing]

theorem threeAccepts_turns : ∃ tr s,
    runAll step (init ['s'] false 2 0) threeAccepts = some (tr, s) ∧
      s.accepted.map ServerConn.loop = [1, 2, 1] ∧
        s.accepted.countP (·.loop = poolLoop 0) ≤ s.accepted.countP (·.loop = poolLoop 1) + 1 := by
  obtain ⟨tr, s, hrun, hloops⟩ : ∃ tr s,
      runAll step (init ['s'] false 2 0) threeAccepts = some (tr, s) ∧
        s.accepted.map ServerConn.loop = [1, 2, 1] :=
    exists_computed (by decide +kernel)
  have hturns := takes_turns (run_of_runAll hrun)
  exact ⟨tr, s, hrun, hloops, hturns.2 0 (by decide) 1 (by decide)⟩

end TcpServer

end Muduo
