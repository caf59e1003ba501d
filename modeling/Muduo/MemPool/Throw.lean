/-
# `Muduo.MemPool.Throw` — what `allocate` leaves when it throws

`Clean s n pool`: a request of `n` bytes has thrown, and has left `pool`.

    exhausted    no list of its size or a larger one had a node, nor the reserve room
    contents     what the clients have written is as before
    free         as many free bytes as before, and all pieces apart
    empty        there is no reserve
    goes         every run goes on from there, as long as no request `Doubles`

When `master_alloc` throws, all of it holds.  When `allocated_area` gets no node,
`chunk_alloc` throws before it has searched the lists, and with the left-over still in
the reserve; so it holds only when there is no left-over and no larger chunk
(`throws_clean_iff`).
-/
import Muduo.MemPool.Whole

namespace Muduo

open Tiling Runs

namespace MemPool

variable {s : MemPool}

/-- `nodes` are the nodes of the free lists. -/
def Lists (s : MemPool) (nodes : ℕ → List ℕ) : Prop :=
  ∀ k < kFreeListsNum, Chain s.mem (s.freeLists k) (nodes k)

/-- The bytes in the reserve and in the free lists. -/
def freeBytes (s : MemPool) (nodes : ℕ → List ℕ) : ℕ :=
  total (s.reserve :: freePieces nodeSize kFreeListsNum nodes)

/-- The bytes that are free and those that are not are all that the system gave. -/
theorem Sound.freeBytes_add {nodes : ℕ → List ℕ} {L : List Piece} (h : Sound s nodes L) :
    s.freeBytes nodes + total L = total s.areas := by
  have htotal := h.carved.tiles.total_eq
  rw [total_append, total_cons] at htotal
  rw [freeBytes, total_cons]
  omega

end MemPool

namespace PoolSession

variable {s t : PoolSession} {nodes : ℕ → List ℕ} {lost : List Piece} {n : ℕ} {a : Answer}
  {pool : MemPool} {e : BadAlloc} {op : PoolOp}

/-- A request of `n` bytes that has thrown and left `pool` is clean and honest. -/
structure Clean (s : PoolSession) (n : ℕ) (pool : MemPool) : Prop where
  exhausted : s.pool.Exhausted n
  contents : ∀ b ∈ s.blocks, ∀ x, Within b x → pool.mem x = s.pool.mem x
  free : ∃ nodes nodes', s.pool.Lists nodes ∧ pool.Lists nodes' ∧
    pool.freeBytes nodes' = s.pool.freeBytes nodes ∧ (pieces ⟨pool, s.live⟩ nodes').Pairwise Apart
  empty : pool.beginFree = pool.endFree
  goes : ∀ tr u, Run (stepOf exec) ⟨pool, s.live⟩ tr u →
    (∀ p ∈ tr, Valid p.1 p.2 ∧ ¬ Doubles p.1 p.2) → ∀ op, u.Valid op → ∃ v, u.exec op = some v

/-- If the operation throws, it is clean; the blocks in use are what they were. -/
def ThrowsClean (s : PoolSession) : PoolOp → Prop
  | .allocate n a => ∀ pool e, s.pool.allocate n a = some (pool, .error e) →
      s.exec (.allocate n a) = some ⟨pool, s.live⟩ ∧ s.Clean n pool
  | .deallocate _ _ | .write _ _ _ => True

/-- A refused request in a pool that has a left-over, or a chunk that is large enough. -/
def Unclean (s : PoolSession) : PoolOp → Prop
  | .allocate n a => s.Refused n a ∧
      (s.pool.beginFree < s.pool.endFree ∨ ¬ s.pool.NoChunk (roundUp n))
  | .deallocate _ _ | .write _ _ _ => False

instance (s : PoolSession) : DecidablePred s.Unclean
  | .allocate _ _ => inferInstanceAs (Decidable (_ ∧ _))
  | .deallocate _ _ | .write _ _ _ => .isFalse id

theorem Sound.apart (h : s.Sound nodes lost) : (s.pieces nodes).Pairwise Apart := by
  have hall := h.pool.carved.tiles.pairwise h.pool.carved.distinct
  have hpre : s.pieces nodes ++ lost =
      freePieces nodeSize kFreeListsNum nodes ++ s.pool.reserve :: (s.blocks ++ lost) := by
    rw [pieces, List.append_assoc, List.cons_append]
  rw [← hpre] at hall
  exact (List.pairwise_append.mp hall).1

/-- The reserve is apart from the blocks in use. -/
theorem Sound.not_in_reserve (h : s.Sound nodes lost) {b : Piece} (hb : b ∈ s.blocks) {x : ℕ}
    (hx : Within b x) : ¬ Within s.pool.reserve x := by
  intro hres
  have hrest := (List.pairwise_append.mp h.apart).2.1
  exact (List.pairwise_cons.mp hrest).1 b hb x ⟨hres, hx⟩

/-- As many free bytes: what was obtained in between is what was dropped. -/
theorem Sound.freeBytes_eq {nodes' : ℕ → List ℕ} {lost' : List Piece} (h : s.Sound nodes lost)
    (h' : Sound ⟨pool, s.live⟩ nodes' lost')
    (hareas : total pool.areas + total lost = total s.pool.areas + total lost') :
    pool.freeBytes nodes' = s.pool.freeBytes nodes := by
  have hbefore := h.pool.freeBytes_add
  have hafter := h'.pool.freeBytes_add
  rw [total_append] at hbefore hafter
  have hblocks : total (blocks ⟨pool, s.live⟩) = total s.blocks := rfl
  show pool.freeBytes nodes' = _
  have hpool : pool.freeBytes nodes' + (total (blocks ⟨pool, s.live⟩) + total lost') =
    total pool.areas := hafter
  omega

/-- Every run goes on from a sound state. -/
theorem Sound.clean_goes (h : s.Sound nodes lost) :
    ∀ tr u, Run (stepOf PoolSession.exec) s tr u →
      (∀ p ∈ tr, Valid p.1 p.2 ∧ ¬ Doubles p.1 p.2) →
      ∀ op, u.Valid op → ∃ v, u.exec op = some v := by
  intro tr u hr hv op hop
  obtain ⟨nodes', lost', hu⟩ := h.of_run hr hv
  exact hu.goes hop

/-- A request that is not refused throws only when `master_alloc` does. -/
theorem Sound.clean_of_thrown (h : s.Sound nodes lost) (hv : s.Valid (.allocate n a))
    (hr : ¬ s.Refused n a) (ht : s.pool.allocate n a = some (pool, .error e)) : s.Clean n pool := by
  obtain ⟨s', nodes', hexec, h'⟩ := h.allocate hv hr
  obtain rfl := Option.some.inj (hexec.symm.trans (exec_of_throw ht))
  cases MemPool.allocate_outcome hv.1 hv.2.1 ht with
  | refused _ hasks hnode => exact absurd ⟨hv.2.1, hasks, hnode⟩ hr
  | thrown _ _ _ hfull _ hareas _ _ hempty hmem =>
      exact
        { exhausted := hfull
          contents := fun b hb x hx => hmem x (h.not_in_reserve hb hx)
          free := ⟨nodes, nodes', h.pool.carved.chain, h'.pool.carved.chain,
            h.freeBytes_eq h' (by rw [hareas]), h'.apart⟩
          empty := hempty.1.trans hempty.2.symm
          goes := h'.clean_goes }

/-- A refused request without a left-over is clean if there is no larger chunk. -/
theorem Sound.clean_of_refused (h : s.Sound nodes lost) (hv : s.Valid (.allocate n a))
    (hr : s.Refused n a) (hd : ¬ s.pool.beginFree < s.pool.endFree)
    (hno : s.pool.NoChunk (roundUp n)) (ht : s.pool.allocate n a = some (pool, .error e)) :
    s.Clean n pool := by
  obtain ⟨pool', ht', h', hmem, hb, he⟩ := h.refused hv hr hd
  obtain ⟨rfl, -⟩ := Prod.mk.inj (Option.some.inj (ht'.symm.trans ht))
  have hareas : total pool'.areas = total (s.dropped (.allocate n a)) + total s.pool.areas := by
    cases MemPool.allocate_outcome hv.1 hv.2.1 ht' with
    | thrown _ hnode => exact Bool.noConfusion (hnode.symm.trans hr.2.2)
    | refused _ _ _ hareas =>
        rw [hareas, MemPool.areas_malloc]
        by_cases hchunk : a.chunk = 0
        · rw [if_pos hchunk, dropped, if_neg fun hc => hc.2 hchunk]
          exact (Nat.zero_add _).symm
        · rw [if_neg hchunk, dropped, if_pos ⟨hr, hchunk⟩, total_cons, total_cons]
          rfl
  exact
    { exhausted := ⟨hr.2.1.2, hno⟩
      contents := fun _ _ x _ => congrFun hmem x
      free := ⟨nodes, nodes, h.pool.carved.chain, h'.pool.carved.chain,
        h.freeBytes_eq h' (by rw [hareas, total_append]; omega), h'.apart⟩
      empty := by
        have hord := h.pool.ordered
        rw [hb, he]
        omega
      goes := h'.clean_goes }

/-- An operation throws cleanly, if it throws, exactly when it is not `Unclean`. -/
theorem Sound.throwsClean_iff (h : s.Sound nodes lost) (hv : s.Valid op) :
    s.ThrowsClean op ↔ ¬ s.Unclean op := by
  cases op with
  | deallocate | write => exact iff_of_true trivial id
  | allocate n a =>
      constructor
      · rintro hclean ⟨hr, hbad⟩
        obtain ⟨pool, hkeep, ht⟩ := MemPool.allocate_refused h.pool hv.1 hv.2.1 hr.2.1 hr.2.2
        obtain ⟨-, hc⟩ := hclean _ _ ht
        rcases hbad with hpos | hchunk
        · -- the left-over is still the reserve
          obtain ⟨c, hcl, hround, -⟩ := exists_class hv.1 hv.2.1
          obtain ⟨hres, -⟩ :=
            MemPool.keepLeft_doubles h.pool hcl (hround ▸ hr.2.1.2) hpos hkeep
          have hempty : pool.beginFree = pool.endFree := by
            have he := hc.empty
            rw [MemPool.malloc_eq] at he
            exact he
          have hb : pool.beginFree = s.pool.beginFree := congrArg Prod.fst hres
          have hsize : pool.endFree - pool.beginFree = s.pool.endFree - s.pool.beginFree :=
            congrArg Prod.snd hres
          omega
        · exact hchunk hc.exhausted.2
      · intro hno pool e ht
        refine ⟨exec_of_throw ht, ?_⟩
        by_cases hr : s.Refused n a
        · refine h.clean_of_refused hv hr (fun hlt => hno ⟨hr, .inl hlt⟩) ?_ ht
          exact not_not.mp fun hchunk => hno ⟨hr, .inr hchunk⟩
        · exact h.clean_of_thrown hv hr ht

/-- In every run the requests that throw are clean, exactly when none is refused a node for
`allocated_area` in a pool that has a left-over or a chunk large enough. -/
theorem throws_clean_iff {mem : ℕ → ℕ} {tr : List (PoolSession × PoolOp)}
    (hr : Run (stepOf exec) (init mem) tr s) (hv : ∀ p ∈ tr, Valid p.1 p.2) :
    (∀ p ∈ tr, ThrowsClean p.1 p.2) ↔ ∀ p ∈ tr, ¬ Unclean p.1 p.2 := by
  refine (hr.forall_congr_of (I := fun s => ∃ nodes lost, s.Sound nodes lost)
    (G := fun s op => ¬ Unclean s op) (H := ThrowsClean) hv ⟨_, _, sound_init mem⟩ ?_ ?_).symm
  · rintro t op u ⟨nodes, lost, h⟩ ⟨hv, hno⟩ hst
    have hd : ¬ t.Doubles op := by
      cases op with
      | allocate n a => exact fun hd => hno ⟨hd.1, .inl hd.2⟩
      | deallocate | write => exact id
    obtain ⟨u', nodes', e, h'⟩ := h.exec hv hd
    obtain rfl := Option.some.inj (e.symm.trans hst)
    exact ⟨nodes', _, h'⟩
  · rintro t op u ⟨nodes, lost, h⟩ hv -
    exact (h.throwsClean_iff hv).symm

/-- A request that the system refuses altogether; one that keeps the left-over and throws; one
that drops the area it was given. -/
def throwingRun : List PoolOp :=
  [.allocate 8 ⟨0, false, 0, []⟩, .allocate 8 ⟨1024, true, 0, []⟩,
    .allocate 168 ⟨0, true, 0, [0]⟩, .allocate 512 ⟨4096, false, 0, []⟩]

theorem throwingRun_clean : ∃ tr s, runAll exec (init fun _ => 0) throwingRun = some (tr, s) ∧
    s.live = [(1024, 8)] ∧ s.pool.areas.map Prod.fst = [4096, 1024] ∧
      ∀ p ∈ tr, ThrowsClean p.1 p.2 := by
  obtain ⟨tr, s, hrun, hv, hno, hlive, hareas⟩ : ∃ tr s,
      runAll exec (init fun _ => 0) throwingRun = some (tr, s) ∧ (∀ p ∈ tr, Valid p.1 p.2) ∧
        (∀ p ∈ tr, ¬ Unclean p.1 p.2) ∧ s.live = [(1024, 8)] ∧
        s.pool.areas.map Prod.fst = [4096, 1024] :=
    exists_computed (by decide +kernel)
  exact ⟨tr, s, hrun, hlive, hareas, (throws_clean_iff (run_of_runAll hrun) hv).mpr hno⟩

/-- A pool with 160 bytes left, and one with a free chunk of 160 bytes and nothing left. -/
def leftOver : List PoolOp := [.allocate 8 ⟨1024, true, 0, []⟩]

def freeChunk : List PoolOp :=
  leftOver ++ [.allocate 160 ⟨0, true, 0, []⟩, .deallocate 1184 160]

/-- A refused request throws in the first with the reserve as it was, and in the second although
a larger chunk is free. -/
theorem refused_not_clean :
    (∃ tr s, runAll exec (init fun _ => 0) leftOver = some (tr, s) ∧ (∀ p ∈ tr, Valid p.1 p.2) ∧
      s.Valid (.allocate 512 ⟨0, false, 0, []⟩) ∧
      ¬ s.ThrowsClean (.allocate 512 ⟨0, false, 0, []⟩)) ∧
    ∃ tr s, runAll exec (init fun _ => 0) freeChunk = some (tr, s) ∧ (∀ p ∈ tr, Valid p.1 p.2) ∧
      s.Valid (.allocate 16 ⟨0, false, 0, []⟩) ∧
      ¬ s.ThrowsClean (.allocate 16 ⟨0, false, 0, []⟩) := by
  constructor
  · obtain ⟨tr, s, hrun, hv, hop, hleft⟩ : ∃ tr s,
        runAll exec (init fun _ => 0) leftOver = some (tr, s) ∧ (∀ p ∈ tr, Valid p.1 p.2) ∧
          s.Valid (.allocate 512 ⟨0, false, 0, []⟩) ∧
          (s.pool.allocate 512 ⟨0, false, 0, []⟩).map
            (fun r => (r.1.beginFree, r.1.endFree, r.2)) =
              some (1184, 1344, .error .badAlloc) :=
      exists_computed (by decide +kernel)
    obtain ⟨⟨pool, r⟩, ht, hleft⟩ := Option.map_eq_some_iff.mp hleft
    obtain ⟨hb, hrest⟩ := Prod.mk.inj hleft
    obtain ⟨he, rfl⟩ := Prod.mk.inj hrest
    refine ⟨tr, s, hrun, hv, hop, fun hclean => ?_⟩
    exact absurd (hb.symm.trans ((hclean _ _ ht).2.empty.trans he)) (by decide)
  · obtain ⟨tr, s, hrun, hv, hop, hthrow, hchunk⟩ : ∃ tr s,
        runAll exec (init fun _ => 0) freeChunk = some (tr, s) ∧ (∀ p ∈ tr, Valid p.1 p.2) ∧
          s.Valid (.allocate 16 ⟨0, false, 0, []⟩) ∧
          (s.pool.allocate 16 ⟨0, false, 0, []⟩).map Prod.snd = some (.error .badAlloc) ∧
          ¬ s.pool.Exhausted 16 :=
      exists_computed (by decide +kernel)
    obtain ⟨⟨pool, r⟩, ht, rfl⟩ := Option.map_eq_some_iff.mp hthrow
    exact ⟨tr, s, hrun, hv, hop, fun hclean => hchunk (hclean _ _ ht).2.exhausted⟩

end PoolSession

end Muduo
