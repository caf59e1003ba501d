/-
# `Muduo.MemPool.Whole` — over whole runs no byte is lost or handed out twice

A run of the pool is any sequence of requests and returns, with writes of the
clients into their blocks in between.  `Whole` says of a state that the blocks in use,
the free nodes and the reserve tile the areas the system gave, and that no assertion
fails in the next operation.

What breaks it is a request in `chunk_alloc` for which `allocated_area` gets no node
(`Refused`).  `push_back` throws, and

    the left-over        is in a list, and still is the reserve: two blocks can overlap
    the new area         is in no place

Where there is neither of them the exception leaves everything as it was.  A run is
whole throughout exactly when each refused request is of this kind (`pieces_tile_iff`).

    Sound s nodes lost     `lost` are the areas that were dropped so
-/
import Muduo.MemPool.Reserve

namespace Muduo

open Tiling Runs

namespace MemPool

variable {s s' : MemPool} {nodes : ℕ → List ℕ} {L : List Piece} {c n p : ℕ} {a : Answer}

/-- `allocate` adds a block of the size asked for, rounded up, or throws. -/
theorem allocate_spec (h : Sound s nodes L) (h₁ : 1 ≤ n) (h₂ : n ≤ kMaxBytes)
    (hnode : s.Asks n → a.node = true)
    (hfresh : ∀ p ∈ a.chunk :: a.master :: a.retries,
      PoolSession.Fresh s (s.bytesToGet (roundUp n * 20)) p) :
    ∃ s' r nodes', s.allocate n a = some (s', r) ∧
      (∀ p, r = .ok p → Sound s' nodes' ((p, roundUp n) :: L)) ∧
      (∀ e, r = .error e → Sound s' nodes' L) := by
  obtain ⟨c, hc, hround, hidx⟩ := exists_class h₁ h₂
  rw [Asks, hidx] at hnode
  rw [hround] at hnode hfresh ⊢
  have hmax : ¬ n > kMaxBytes := by omega
  by_cases hhead : s.freeLists c = 0
  · have hnil : nodes c = [] := (hhead ▸ h.carved.chain c hc).eq_nil
    obtain ⟨s', r, nodes', e, hrest⟩ :=
      refill_spec h hc hnil (fun hleft => hnode ⟨hhead, hleft⟩) hfresh
    refine ⟨s', r, nodes', ?_, hrest⟩
    simpa [allocate, hmax, hidx, getList_eq hc, hhead, hround] using e
  · obtain ⟨s', ps, e, -, h', hb, he, -⟩ := h.carved.popFront hc hhead
    refine ⟨s', .ok (s.freeLists c), Function.update nodes c ps, ?_, fun p hr => ?_,
      fun _ hr => by cases hr⟩
    · simp [allocate, hmax, hidx, getList_eq hc, hhead, e]
    · cases hr
      exact h.frame (h'.reorder (List.Perm.swap _ _ _)) hb he

/-- `deallocate` takes a block back. -/
theorem deallocate_spec (h : Sound s nodes ((p, roundUp n) :: L)) (h₁ : 1 ≤ n)
    (h₂ : n ≤ kMaxBytes) :
    ∃ s' nodes', s.deallocate p n = some s' ∧ Sound s' nodes' L ∧
      s'.heapSize = s.heapSize ∧ s'.areas = s.areas := by
  obtain ⟨c, hc, hround, hidx⟩ := exists_class h₁ h₂
  have hcarved := h.carved.reorder (List.Perm.swap (p, roundUp n) s.reserve L)
  rw [hround] at hcarved
  obtain ⟨s', e, h', hb, he, hheap, hareas⟩ := Carving.pushFront hcarved hc
  refine ⟨s', _, ?_, h.frame h' hb he, hheap, hareas⟩
  rw [deallocate, if_neg (by omega), hidx, e]

/-! ## A request without a node for its area -/

/-- `allocate` throws when the left-over is in its list. -/
theorem allocate_refused (h : Sound s nodes L) (h₁ : 1 ≤ n) (h₂ : n ≤ kMaxBytes)
    (hasks : s.Asks n) (hnode : a.node = false) :
    ∃ s', s.keepLeft (s.endFree - s.beginFree) = some s' ∧
      s.allocate n a = some (s'.malloc (s.bytesToGet (roundUp n * 20)) a.chunk,
        .error .badAlloc) := by
  obtain ⟨c, hc, hround, hidx⟩ := exists_class h₁ h₂
  rw [Asks, hidx] at hasks
  rw [hround] at hasks ⊢
  obtain ⟨s', e, e'⟩ := chunkAlloc_refused h hc 20 (by omega) hnode hasks.2
  refine ⟨s', e, ?_⟩
  have hmax : ¬ n > kMaxBytes := by omega
  simp [allocate, hmax, hidx, getList_eq hc, hasks.1, hround, refill, e']

/-- Then what is left of the reserve is a node of a list. -/
theorem keepLeft_doubles (h : Sound s nodes L) (hc : c < kFreeListsNum)
    (hleft : s.endFree - s.beginFree < nodeSize c) (hpos : s.beginFree < s.endFree)
    (he : s.keepLeft (s.endFree - s.beginFree) = some s') :
    s'.reserve = s.reserve ∧
      ∃ k < kFreeListsNum, nodeSize k = s.endFree - s.beginFree ∧ s'.freeLists k = s.beginFree := by
  have hmax : nodeSize c ≤ kMaxBytes := by
    simp only [nodeSize, kAlign, kFreeListsNum, kMaxBytes] at *
    omega
  have h0 : 0 < s.endFree - s.beginFree := by omega
  obtain ⟨k, hk, hsize⟩ := exists_nodeSize h0 (by omega) h.left_dvd
  rw [keepLeft, if_pos h0, assert_of (Nat.mod_eq_zero_of_dvd h.left_dvd)] at he
  rw [hsize, Option.bind_eq_bind, Option.bind_some, getFreelistIndex_nodeSize hk] at he
  obtain rfl := pushFront_inv he
  exact ⟨rfl, k, hk, hsize.symm, Function.update_self ..⟩

/-- The lists and the reserve are not disturbed by an area that is dropped. -/
theorem Sound.drop (h : Sound s nodes L) (hn : kAlign ∣ n) (hp : p ≠ 0)
    (hfresh : PoolSession.Fresh s n p) : Sound (s.malloc n p) nodes ((p, n) :: L) := by
  obtain ⟨ha, hnew⟩ := hfresh hp
  have hgain := h.carved.gain (Nat.pos_of_ne_zero hp) (Nat.dvd_of_mod_eq_zero ha) hn hnew
  rw [malloc, if_neg hp]
  exact ⟨hgain.reorder (List.Perm.swap _ _ _), h.ordered⟩

/-! ## heap_size -/

/-- `heap_size` counts the areas. -/
def Counted (s : MemPool) : Prop := s.heapSize = (s.areas.map Prod.snd).sum

theorem Counted.congr (h : s.Counted) (hheap : s'.heapSize = s.heapSize)
    (hareas : s'.areas = s.areas) : s'.Counted := by
  rw [Counted, hheap, hareas]
  exact h

/-- It counts each of them, except one for which there is no node. -/
theorem Outcome.counted {asks full : Prop} {α : Type} {r : Except BadAlloc α}
    (ho : Outcome s s' n a asks full r) (hn : 0 < n) (h : s.Counted) :
    s'.Counted ↔ ¬ (asks ∧ a.node = false ∧ a.chunk ≠ 0) := by
  rw [Counted] at h
  have hgrown : ∀ q, s'.areas = (q, n) :: s.areas → s'.heapSize = s.heapSize + n → s'.Counted := by
    intro q hareas hheap
    rw [Counted, hareas, hheap, h, List.map_cons, List.sum_cons, Nat.add_comm]
  cases ho with
  | pooled _ hnode _ hareas _ hheap =>
      refine iff_of_true (Counted.congr h hheap hareas) fun hr => ?_
      exact Bool.noConfusion ((hnode hr.1).symm.trans hr.2.1)
  | chunk _ hnode _ hareas _ hheap | master _ _ hnode _ _ _ _ hareas _ hheap =>
      exact iff_of_true (hgrown _ hareas hheap) fun hr =>
        Bool.noConfusion (hnode.symm.trans hr.2.1)
  | thrown _ hnode _ _ _ hareas _ hheap =>
      exact iff_of_true (Counted.congr h hheap hareas) fun hr =>
        Bool.noConfusion (hnode.symm.trans hr.2.1)
  | refused _ hasks hnode hareas _ hheap =>
      rw [areas_malloc] at hareas
      by_cases hchunk : a.chunk = 0
      · rw [if_pos hchunk] at hareas
        exact iff_of_true (Counted.congr h hheap hareas) fun hr => hr.2.2 hchunk
      · rw [if_neg hchunk] at hareas
        refine iff_of_false (fun h' => ?_) fun hr => hr ⟨hasks, hnode, hchunk⟩
        rw [Counted, hareas, hheap, h, List.map_cons, List.sum_cons] at h'
        omega

end MemPool

namespace PoolSession

variable {s s' : PoolSession} {nodes : ℕ → List ℕ} {lost : List Piece} {op : PoolOp}

/-- The blocks in use, the nodes of the free lists and the reserve. -/
def pieces (s : PoolSession) (nodes : ℕ → List ℕ) : List Piece :=
  freePieces nodeSize kFreeListsNum nodes ++ s.pool.reserve :: s.blocks

/-- The request goes to the system, and `allocated_area` gets no node. -/
def Refused (s : PoolSession) (n : ℕ) (a : Answer) : Prop :=
  n ≤ kMaxBytes ∧ s.pool.Asks n ∧ a.node = false

instance (s : PoolSession) (n : ℕ) (a : Answer) : Decidable (s.Refused n a) :=
  inferInstanceAs (Decidable (_ ∧ _))

/-- A refused request that leaves the left-over in two places. -/
def Doubles (s : PoolSession) : PoolOp → Prop
  | .allocate n a => s.Refused n a ∧ s.pool.beginFree < s.pool.endFree
  | .deallocate _ _ | .write _ _ _ => False

/-- A refused request that leaves something undone: there is a left-over, or a new area. -/
def HalfDone (s : PoolSession) : PoolOp → Prop
  | .allocate n a => s.Refused n a ∧ (s.pool.beginFree < s.pool.endFree ∨ a.chunk ≠ 0)
  | .deallocate _ _ | .write _ _ _ => False

instance (s : PoolSession) : DecidablePred s.Doubles
  | .allocate _ _ => inferInstanceAs (Decidable (_ ∧ _))
  | .deallocate _ _ | .write _ _ _ => .isFalse id

instance (s : PoolSession) : DecidablePred s.HalfDone
  | .allocate _ _ => inferInstanceAs (Decidable (_ ∧ _))
  | .deallocate _ _ | .write _ _ _ => .isFalse id

/-- The area that a refused request drops. -/
def dropped (s : PoolSession) : PoolOp → List Piece
  | .allocate n a =>
      if s.Refused n a ∧ a.chunk ≠ 0 then [(a.chunk, s.pool.bytesToGet (roundUp n * 20))] else []
  | .deallocate _ _ | .write _ _ _ => []

/-- The invariant of a run: the pool is sound, and the blocks in use have sizes
it serves. -/
structure Sound (s : PoolSession) (nodes : ℕ → List ℕ) (lost : List Piece) : Prop where
  pool : s.pool.Sound nodes (s.blocks ++ lost)
  sizes : ∀ b ∈ s.live, 1 ≤ b.2 ∧ b.2 ≤ kMaxBytes

theorem sound_init (mem : ℕ → ℕ) : Sound (init mem) (fun _ => []) [] where
  pool := MemPool.sound_init mem
  sizes _ hb := absurd hb List.not_mem_nil

/-! ## One step -/

theorem exec_allocate_inv {n : ℕ} {a : Answer} (h : s.exec (.allocate n a) = some s') :
    ∃ pool r, s.pool.allocate n a = some (pool, r) ∧
      ((∃ p, r = .ok p ∧ s' = ⟨pool, (p, n) :: s.live⟩) ∨
        (∃ e, r = .error e) ∧ s' = ⟨pool, s.live⟩) := by
  obtain ⟨⟨pool, r⟩, hpool, h⟩ := Option.bind_eq_some_iff.mp h
  cases r with
  | ok p => exact ⟨pool, _, hpool, .inl ⟨p, rfl, (Option.some.inj h).symm⟩⟩
  | error e => exact ⟨pool, _, hpool, .inr ⟨⟨e, rfl⟩, (Option.some.inj h).symm⟩⟩

/-- When the pool throws, the blocks in use are what they were. -/
theorem exec_of_throw {n : ℕ} {a : Answer} {pool : MemPool} {x : BadAlloc}
    (e : s.pool.allocate n a = some (pool, .error x)) :
    s.exec (.allocate n a) = some ⟨pool, s.live⟩ := by
  simp only [exec, e, Option.bind_eq_bind, Option.bind_some]
  rfl

/-- A block is a piece of its own beside the others. -/
theorem blocks_perm {p n : ℕ} (h : (p, n) ∈ s.live) : s.blocks.Perm
    ((p, roundUp n) :: (s.live.erase (p, n)).map fun b => (b.1, roundUp b.2)) :=
  (List.perm_cons_erase h).map _

/-- A refused request without a left-over. -/
theorem Sound.refused {n : ℕ} {a : Answer} (h : s.Sound nodes lost)
    (hv : s.Valid (.allocate n a)) (hr : s.Refused n a)
    (hd : ¬ s.pool.beginFree < s.pool.endFree) :
    ∃ pool, s.pool.allocate n a = some (pool, .error .badAlloc) ∧
      Sound ⟨pool, s.live⟩ nodes (s.dropped (.allocate n a) ++ lost) ∧
      pool.mem = s.pool.mem ∧ pool.beginFree = s.pool.beginFree ∧
      pool.endFree = s.pool.endFree := by
  obtain ⟨h₁, h₂, hfresh⟩ := hv
  obtain ⟨-, hasks, hnode⟩ := hr
  obtain ⟨pool, hkeep, e⟩ := MemPool.allocate_refused h.pool h₁ h₂ hasks hnode
  have hsame : s.pool.keepLeft (s.pool.endFree - s.pool.beginFree) = some s.pool :=
    if_neg (by omega)
  obtain rfl := Option.some.inj (hsame.symm.trans hkeep)
  refine ⟨_, e, ?_, by rw [MemPool.malloc_eq]; exact ⟨rfl, rfl, rfl⟩⟩
  by_cases hchunk : a.chunk = 0
  · rw [dropped, if_neg fun hc => hc.2 hchunk, MemPool.malloc, if_pos hchunk]
    exact h
  · obtain ⟨c, -, hround, -⟩ := exists_class h₁ h₂
    rw [dropped, if_pos ⟨⟨h₂, hasks, hnode⟩, hchunk⟩]
    refine ⟨?_, h.sizes⟩
    have hdvd : kAlign ∣ s.pool.bytesToGet (roundUp n * 20) := by
      rw [hround]
      exact s.pool.kAlign_dvd_bytesToGet c 20
    have hdrop := h.pool.drop hdvd hchunk (hfresh _ List.mem_cons_self)
    exact ⟨hdrop.carved.reorder (List.perm_middle.symm.cons _), hdrop.ordered⟩

/-- A request that is not refused. -/
theorem Sound.allocate {n : ℕ} {a : Answer} (h : s.Sound nodes lost)
    (hv : s.Valid (.allocate n a)) (hr : ¬ s.Refused n a) :
    ∃ s' nodes', s.exec (.allocate n a) = some s' ∧ s'.Sound nodes' lost := by
  obtain ⟨h₁, h₂, hfresh⟩ := hv
  have hnode : s.pool.Asks n → a.node = true := fun hasks => by
    cases hn : a.node with
    | true => rfl
    | false => exact absurd ⟨h₂, hasks, hn⟩ hr
  obtain ⟨pool, r, nodes', e, hok, herr⟩ := MemPool.allocate_spec h.pool h₁ h₂ hnode hfresh
  cases r with
  | ok p =>
      refine ⟨⟨pool, (p, n) :: s.live⟩, nodes', by simp [PoolSession.exec, e], hok p rfl, ?_⟩
      exact List.forall_mem_cons.mpr ⟨⟨h₁, h₂⟩, h.sizes⟩
  | error x =>
      exact ⟨{ s with pool }, nodes', exec_of_throw e, herr x rfl, h.sizes⟩

theorem Sound.deallocate {p n : ℕ} (h : s.Sound nodes lost) (hv : s.Valid (.deallocate p n)) :
    ∃ s' nodes', s.exec (.deallocate p n) = some s' ∧ s'.Sound nodes' lost ∧
      s'.pool.heapSize = s.pool.heapSize ∧ s'.pool.areas = s.pool.areas := by
  obtain ⟨h₁, h₂⟩ := h.sizes _ hv
  have hpool : s.pool.Sound nodes ((p, roundUp n) ::
      ((s.live.erase (p, n)).map (fun b => (b.1, roundUp b.2)) ++ lost)) :=
    ⟨h.pool.carved.reorder (((blocks_perm hv).append_right lost).cons _), h.pool.ordered⟩
  obtain ⟨pool, nodes', e, h', hrest⟩ := MemPool.deallocate_spec hpool h₁ h₂
  exact ⟨⟨pool, s.live.erase (p, n)⟩, nodes', by simp [PoolSession.exec, e],
    ⟨h', fun b hb => h.sizes b (List.mem_of_mem_erase hb)⟩, hrest⟩

/-- A client writes into its block: the lists are as they were. -/
theorem Sound.write {b : Piece} {x v : ℕ} (h : s.Sound nodes lost)
    (hv : s.Valid (.write b x v)) :
    Sound { s with pool.mem := Function.update s.pool.mem x v } nodes lost := by
  obtain ⟨hb, hx⟩ := hv
  have hblock : (b.1, roundUp b.2) ∈ s.pool.reserve :: (s.blocks ++ lost) :=
    List.mem_cons_of_mem _ (List.mem_append_left _ (List.mem_map_of_mem hb))
  have hx' : Within (b.1, roundUp b.2) x := by
    simp only [Within, roundUp, kAlign] at *
    omega
  exact ⟨⟨h.pool.carved.store nodeSize_pos hblock hx' v, h.pool.ordered⟩, h.sizes⟩

/-- One step keeps the pool sound, and no assertion fails in it. -/
theorem Sound.exec (h : s.Sound nodes lost) (hv : s.Valid op) (hd : ¬ s.Doubles op) :
    ∃ s' nodes', s.exec op = some s' ∧ s'.Sound nodes' (s.dropped op ++ lost) := by
  cases op with
  | allocate n a =>
      by_cases hr : s.Refused n a
      · obtain ⟨pool, e, h', -⟩ := h.refused hv hr fun hlt => hd ⟨hr, hlt⟩
        exact ⟨⟨pool, s.live⟩, nodes, exec_of_throw e, h'⟩
      · rw [dropped, if_neg fun hc => hr hc.1]
        exact h.allocate hv hr
  | deallocate p n =>
      obtain ⟨s', nodes', e, h', -⟩ := h.deallocate hv
      exact ⟨s', nodes', e, h'⟩
  | write b x v => exact ⟨_, nodes, rfl, h.write hv⟩

/-- No assertion fails in a refused request either. -/
theorem Sound.goes (h : s.Sound nodes lost) (hv : s.Valid op) : ∃ s', s.exec op = some s' := by
  by_cases hd : s.Doubles op
  · cases op with
    | allocate n a =>
        obtain ⟨pool, -, e⟩ := MemPool.allocate_refused h.pool hv.1 hv.2.1 hd.1.2.1 hd.1.2.2
        exact ⟨_, exec_of_throw e⟩
    | deallocate | write => exact absurd hd id
  · obtain ⟨s', -, e, -⟩ := h.exec hv hd
    exact ⟨s', e⟩

theorem Sound.of_run {t : PoolSession} {tr : List (PoolSession × PoolOp)} (h : s.Sound nodes lost)
    (hr : Run (stepOf PoolSession.exec) s tr t)
    (hv : ∀ p ∈ tr, Valid p.1 p.2 ∧ ¬ Doubles p.1 p.2) : ∃ nodes lost, t.Sound nodes lost := by
  refine hr.invariant_of (I := fun s => ∃ nodes lost, s.Sound nodes lost)
    (G := fun s op => Valid s op ∧ ¬ Doubles s op) hv ⟨nodes, lost, h⟩ ?_
  rintro t op u ⟨nodes, lost, h⟩ ⟨hv, hd⟩ hst
  obtain ⟨u', nodes', e, h'⟩ := h.exec hv hd
  obtain rfl := Option.some.inj (e.symm.trans hst)
  exact ⟨nodes', _, h'⟩

/-! ## Whole runs -/

/-- The blocks in use, the nodes of the free lists and the reserve lie apart from one another
and tile the areas obtained from the system, whose total is `heap_size`. -/
def Tiled (s : PoolSession) : Prop :=
  ∃ nodes, (∀ k < kFreeListsNum, Chain s.pool.mem (s.pool.freeLists k) (nodes k)) ∧
    (s.pieces nodes).Pairwise Apart ∧
    (∀ b ∈ s.pieces nodes, kAlign ∣ b.1 ∧ kAlign ∣ b.2) ∧
    Tiles (s.pieces nodes) s.pool.areas ∧ s.pool.Counted

/-- A tiled pool in which no operation fails an assertion, the one in `chunk_alloc` about the
left-over included. -/
structure Whole (s : PoolSession) : Prop where
  tiled : s.Tiled
  goes : ∀ op, s.Valid op → ∃ s', s.exec op = some s'

theorem Sound.whole (h : s.Sound nodes []) (hc : s.pool.Counted) : s.Whole := by
  have hpool := h.pool
  rw [List.append_nil] at hpool
  exact ⟨⟨nodes, hpool.carved.chain, hpool.carved.tiles.pairwise hpool.carved.distinct,
    hpool.carved.aligned, hpool.carved.tiles, hc⟩, fun op hop => h.goes hop⟩

/-- A left-over that is in a list is not apart from the reserve. -/
theorem Sound.not_tiled (h : s.Sound nodes lost) (hv : s.Valid op) (hd : s.Doubles op)
    (hst : s.exec op = some s') : ¬ s'.Tiled := by
  cases op with
  | allocate n a =>
      obtain ⟨⟨-, hasks, hnode⟩, hpos⟩ := hd
      obtain ⟨c, hc, hround, hidx⟩ := exists_class hv.1 hv.2.1
      obtain ⟨pool, hkeep, e⟩ := MemPool.allocate_refused h.pool hv.1 hv.2.1 hasks hnode
      obtain ⟨hres, k, hk, hsize, hhead⟩ :=
        MemPool.keepLeft_doubles h.pool hc (hround ▸ hasks.2) hpos hkeep
      have hs' : s' = ⟨pool.malloc (s.pool.bytesToGet (roundUp n * 20)) a.chunk, s.live⟩ :=
        Option.some.inj (hst.symm.trans (exec_of_throw e))
      have hsame : s'.pool.reserve = s.pool.reserve ∧ s'.pool.freeLists k = s.pool.beginFree := by
        rw [hs', ← hres, ← hhead, MemPool.malloc_eq]
        exact ⟨rfl, rfl⟩
      rintro ⟨nodes', hchain, hapart, -⟩
      have hne : s.pool.beginFree ≠ 0 := by
        have hzero : s.pool.reserve.2 ≠ 0 := by
          show s.pool.endFree - s.pool.beginFree ≠ 0
          omega
        exact h.pool.carved.start_ne_zero (Nat.pos_of_ne_zero hzero)
      obtain ⟨ps, hps, -⟩ := (hsame.2 ▸ hchain k hk).eq_cons hne
      have hnode' : (s.pool.beginFree, nodeSize k) ∈ freePieces nodeSize kFreeListsNum nodes' :=
        mem_freePieces.mpr ⟨k, hk, _, hps ▸ List.mem_cons_self, rfl⟩
      have hboth := (List.pairwise_append.mp hapart).2.2 _ hnode' _ List.mem_cons_self
      rw [hsame.1] at hboth
      refine hboth s.pool.beginFree ⟨⟨Nat.le_refl _, ?_⟩, Nat.le_refl _, ?_⟩
      · exact Nat.lt_add_of_pos_right (nodeSize_pos k)
      · show s.pool.beginFree < s.pool.beginFree + (s.pool.endFree - s.pool.beginFree)
        omega
  | deallocate | write => exact absurd hd id

/-- A whole state is left exactly by the steps that leave something undone. -/
theorem Sound.step (h : s.Sound nodes []) (hc : s.pool.Counted) (hv : s.Valid op)
    (hst : s.exec op = some s') :
    ¬ s.HalfDone op ∧ (∃ nodes', s'.Sound nodes' []) ∧ s'.pool.Counted ∨
      s.HalfDone op ∧ ¬ s'.Tiled := by
  cases op with
  | allocate n a =>
      by_cases hd : s.Doubles (.allocate n a)
      · exact .inr ⟨⟨hd.1, .inl hd.2⟩, h.not_tiled hv hd hst⟩
      obtain ⟨u, nodes', e, h'⟩ := h.exec hv hd
      obtain rfl := Option.some.inj (e.symm.trans hst)
      obtain ⟨pool, r, hpool, hs'⟩ := exec_allocate_inv hst
      have hp : u.pool = pool := by
        rcases hs' with ⟨p, -, rfl⟩ | ⟨-, rfl⟩ <;> rfl
      have hpos : 0 < s.pool.bytesToGet (roundUp n * 20) := by
        have h₁ := hv.1
        simp only [MemPool.bytesToGet, roundUp, kAlign]
        omega
      have hcount := (MemPool.allocate_outcome hv.1 hv.2.1 hpool).counted hpos hc
      rw [← hp] at hcount
      by_cases hdrop : s.Refused n a ∧ a.chunk ≠ 0
      · refine .inr ⟨⟨hdrop.1, .inr hdrop.2⟩, ?_⟩
        rintro ⟨_, -, -, -, -, hc'⟩
        exact hcount.mp hc' ⟨hdrop.1.2.1, hdrop.1.2.2, hdrop.2⟩
      · refine .inl ⟨?_, ⟨nodes', ?_⟩, hcount.mpr fun hr => hdrop ⟨⟨hv.2.1, hr.1, hr.2.1⟩, hr.2.2⟩⟩
        · rintro ⟨hr, hlt | hchunk⟩
          · exact hd ⟨hr, hlt⟩
          · exact hdrop ⟨hr, hchunk⟩
        · rw [dropped, if_neg hdrop] at h'
          exact h'
  | deallocate p n =>
      obtain ⟨u, nodes', e, h', hheap, hareas⟩ := h.deallocate hv
      obtain rfl := Option.some.inj (e.symm.trans hst)
      exact .inl ⟨id, ⟨nodes', h'⟩, hc.congr hheap hareas⟩
  | write b x v =>
      obtain rfl := Option.some.inj hst
      exact .inl ⟨id, ⟨nodes, h.write hv⟩, hc⟩

/-- In every state of a run the pool is whole, exactly when no request of the run is refused a
node for `allocated_area` while there is a left-over or a new area. -/
theorem pieces_tile_iff {mem : ℕ → ℕ} {tr : List (PoolSession × PoolOp)}
    (hr : Run (stepOf exec) (init mem) tr s) (hv : ∀ p ∈ tr, Valid p.1 p.2) :
    ((∀ p ∈ tr, p.1.Whole) ∧ s.Whole) ↔ ∀ p ∈ tr, ¬ HalfDone p.1 p.2 := by
  refine ((hr.restrict hv).forall_iff_of_kept (P := Whole) (G := fun s op => ¬ HalfDone s op)
    (Q := fun s => (∃ nodes, s.Sound nodes []) ∧ s.pool.Counted)
    ((sound_init mem).whole rfl) ⟨⟨_, sound_init mem⟩, rfl⟩ ?_ ?_).symm
  · rintro t op u ⟨⟨nodes, h⟩, hc⟩ ⟨hv, hst⟩ hw
    exact (h.step hc hv hst).elim And.right fun hn => absurd hw.tiled hn.2
  · rintro t op u ⟨⟨nodes, h⟩, hc⟩ ⟨hv, hst⟩
    rcases h.step hc hv hst with ⟨hno, ⟨nodes', h'⟩, hc'⟩ | ⟨hhalf, hn⟩
    · exact iff_of_true hno (h'.whole hc')
    · exact iff_of_false (fun hno => hno hhalf) fun hw => hn hw.tiled

/-- A refused request that finds a new pool; a new area; a request the reserve meets in part; one
that keeps the left-over and throws; one served from a chunk of a larger size; one that the
out-of-memory handler makes room for. -/
def scarceRun : List PoolOp :=
  [.allocate 8 ⟨0, false, 0, []⟩, .allocate 8 ⟨1024, true, 0, []⟩, .write (1024, 8) 1024 7,
    .allocate 45 ⟨0, true, 0, []⟩, .allocate 64 ⟨0, true, 0, []⟩, .deallocate 1184 45,
    .allocate 40 ⟨0, true, 0, []⟩, .allocate 100 ⟨0, true, 0, [0, 4096]⟩]

theorem scarceRun_tiles :
    ∃ tr s, runAll exec (init fun _ => 0) scarceRun = some (tr, s) ∧
      s.live = [(4096, 100), (1184, 40), (1024, 8)] ∧
      s.pool.areas = [(4096, 4184), (1024, 320)] ∧ s.Whole := by
  obtain ⟨tr, s, hrun, hv, hno, hlive, hareas⟩ : ∃ tr s,
      runAll exec (init fun _ => 0) scarceRun = some (tr, s) ∧ (∀ p ∈ tr, Valid p.1 p.2) ∧
        (∀ p ∈ tr, ¬ HalfDone p.1 p.2) ∧ s.live = [(4096, 100), (1184, 40), (1024, 8)] ∧
        s.pool.areas = [(4096, 4184), (1024, 320)] :=
    exists_computed (by decide +kernel)
  exact ⟨tr, s, hrun, hlive, hareas, ((pieces_tile_iff (run_of_runAll hrun) hv).mpr hno).2⟩

/-- A refused request with 160 bytes left, and two requests after it. -/
def refusedRun : List PoolOp :=
  [.allocate 8 ⟨1024, true, 0, []⟩, .allocate 512 ⟨0, false, 0, []⟩,
    .allocate 160 ⟨0, true, 0, []⟩, .allocate 16 ⟨0, true, 0, []⟩]

/-- Two blocks in use start at one address. -/
theorem refusedRun_overlaps :
    ∃ tr s, runAll exec (init fun _ => 0) refusedRun = some (tr, s) ∧
      (∀ p ∈ tr, Valid p.1 p.2) ∧ s.live = [(1184, 16), (1184, 160), (1024, 8)] ∧ ¬ s.Whole := by
  obtain ⟨tr, s, hrun, hv, hlive⟩ : ∃ tr s,
      runAll exec (init fun _ => 0) refusedRun = some (tr, s) ∧ (∀ p ∈ tr, Valid p.1 p.2) ∧
        s.live = [(1184, 16), (1184, 160), (1024, 8)] :=
    exists_computed (by decide +kernel)
  refine ⟨tr, s, hrun, hv, hlive, fun hw => ?_⟩
  obtain ⟨nodes, -, hapart, -⟩ := hw.tiled
  have hblocks := (List.pairwise_cons.mp (List.pairwise_append.mp hapart).2.1).2
  rw [blocks, hlive] at hblocks
  exact absurd hblocks (by decide)

end PoolSession

end Muduo
