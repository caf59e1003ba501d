/-
# `Muduo.MemPool.Steady` — how often the pool asks the system

Nothing goes back to the system before `~mem_pool`: a pool that asked again and again
would grow without end.  It asks for a class only when the list of that class is empty
and the reserve has no room for one chunk, and then for room for 40; of these `refill`
takes 20.  So each area that a class has asked for stands for 20 chunks of it, in use
or on its list, and when it asks again all of them are in use.

    inUse k                    the blocks of class k in use
    20 * asked k               at most inUse k and the nodes of list k together

While `::malloc` does not fail, nor the allocation of the node for `allocated_area`, the
areas are no more than one for every 20 blocks that a class had in use at its peak
(`areas_le`).  When `::malloc` fails, a chunk of a larger class becomes the reserve: that
class may have to ask for it again.
-/
import Mathlib.Algebra.BigOperators.Group.Finset.Piecewise
import Mathlib.Algebra.Order.BigOperators.Group.Finset
import Muduo.MemPool.Whole

namespace Muduo

open Tiling Runs

namespace MemPool

variable {s : MemPool} {nodes nodes' : ℕ → List ℕ} {L : List Piece} {c n p : ℕ} {a : Answer}

/-! ## The lists, by their lengths -/

/-- The left-over makes one list of a smaller class longer. -/
theorem keepLeft_length (h : Sound s nodes L) (hc : c < kFreeListsNum)
    (hleft : s.endFree - s.beginFree < nodeSize c) :
    ∃ s' nodes', s.keepLeft (s.endFree - s.beginFree) = some s' ∧ s'.Carving nodes' L ∧
      nodes' c = nodes c ∧ (∀ k, (nodes k).length ≤ (nodes' k).length) ∧
      s'.heapSize = s.heapSize ∧ s'.areas = s.areas := by
  unfold keepLeft
  by_cases h0 : 0 < s.endFree - s.beginFree
  · have hmax : nodeSize c ≤ kMaxBytes := by
      simp only [nodeSize, kAlign, kFreeListsNum, kMaxBytes] at *
      omega
    obtain ⟨k, hk, hsize⟩ := exists_nodeSize h0 (by omega) h.left_dvd
    have hcarved := h.carved
    rw [reserve, hsize] at hcarved
    obtain ⟨s', e, h', -, -, htot, hareas⟩ := hcarved.pushFront hk
    have hne : c ≠ k := by
      rintro rfl
      omega
    refine ⟨s', _, ?_, h', Function.update_of_ne hne _ _, fun j => ?_, htot, hareas⟩
    · rw [if_pos h0, assert_of (Nat.mod_eq_zero_of_dvd h.left_dvd), hsize,
        getFreelistIndex_nodeSize hk, ← e]
      rfl
    · by_cases hj : j = k
      · subst hj
        rw [Function.update_self]
        exact Nat.le_succ _
      · rw [Function.update_of_ne hj]
  · refine ⟨s, nodes, if_neg h0, ?_, rfl, fun _ => Nat.le_refl _, rfl, rfl⟩
    have hcarved := h.carved
    rw [reserve, Nat.eq_zero_of_not_pos h0] at hcarved
    exact hcarved.drop_empty

/-- With room for a chunk `chunk_alloc` asks the system for nothing; with room for all of
them it takes all. -/
theorem chunkAlloc_room (h : Sound s nodes L) (hroom : nodeSize c ≤ s.endFree - s.beginFree)
    (answers : List Answer) :
    ∃ s' m, chunkAlloc (nodeSize c) answers s 20 = some (s', .ok (s.beginFree, m)) ∧ 0 < m ∧
      (nodeSize c * 20 ≤ s.endFree - s.beginFree → m = 20) ∧ s'.areas = s.areas ∧
      Sound s' nodes ((s.beginFree, nodeSize c * m) :: L) := by
  have hdvd : ∀ m, kAlign ∣ nodeSize c * m := fun m =>
    Nat.dvd_mul_right_of_dvd (kAlign_dvd_nodeSize c) m
  by_cases hall : nodeSize c * 20 ≤ s.endFree - s.beginFree
  · refine ⟨_, 20, ?_, by omega, fun _ => rfl, ?_, h.takeFront hall (hdvd 20)⟩
    · unfold chunkAlloc
      simp [h.leftSize, hall]
    · rfl
  · refine ⟨_, (s.endFree - s.beginFree) / nodeSize c, ?_, Nat.div_pos hroom (nodeSize_pos c),
      fun h => absurd h hall, ?_, h.takeFront (Nat.mul_div_le _ _) (hdvd _)⟩
    · unfold chunkAlloc
      simp [h.leftSize, hall, hroom]
    · rfl

/-- `chunk_alloc` when the system gives what is asked for: it takes from the reserve, or asks
for an area and takes 20 chunks of it. -/
theorem chunkAlloc_supplied (h : Sound s nodes L) (hc : c < kFreeListsNum)
    (hchunk : a.chunk ≠ 0) (hnode : a.node = true)
    (hfresh : PoolSession.Fresh s (s.bytesToGet (nodeSize c * 20)) a.chunk) :
    ∃ s' p m nodes', chunkAlloc (nodeSize c) [a] s 20 = some (s', .ok (p, m)) ∧ 0 < m ∧
      Sound s' nodes' ((p, nodeSize c * m) :: L) ∧ nodes' c = nodes c ∧
      (∀ k, (nodes k).length ≤ (nodes' k).length) ∧
      (s'.areas.length = s.areas.length ∨ s'.areas.length = s.areas.length + 1 ∧ m = 20) := by
  by_cases hroom : nodeSize c ≤ s.endFree - s.beginFree
  · obtain ⟨s', m, e, hm, -, hareas, h'⟩ := chunkAlloc_room h hroom [a]
    exact ⟨s', _, m, nodes, e, hm, h', rfl, fun _ => Nat.le_refl _, .inl (congrArg _ hareas)⟩
  · obtain ⟨s₁, nodes₁, e₁, h₁, hnodes, hlen, hheap, hareas⟩ :=
      keepLeft_length h hc (Nat.lt_of_not_ge hroom)
    have hn₁ : s₁.bytesToGet (nodeSize c * 20) = s.bytesToGet (nodeSize c * 20) := by
      simp only [bytesToGet, hheap]
    let s₂ : MemPool :=
      { s₁ with allocatedArea := s₁.allocatedArea ++ [a.chunk], beginFree := a.chunk }
    have h₂ : s₂.Carving nodes₁ L := h₁
    have hfresh₂ : PoolSession.Fresh s₂ (s.bytesToGet (nodeSize c * 20)) a.chunk := by
      simpa only [PoolSession.Fresh, s₂, hareas] using hfresh
    have hgrow := Carving.grow h₂ hchunk (s.kAlign_dvd_bytesToGet c 20) hfresh₂
    have hroom₃ : nodeSize c * 20 ≤ a.chunk + s.bytesToGet (nodeSize c * 20) - a.chunk := by
      simp only [bytesToGet]
      omega
    obtain ⟨s₄, m, e₄, hm, htwenty, hareas₄, h₄⟩ :=
      chunkAlloc_room hgrow ((Nat.le_mul_of_pos_right _ (by omega)).trans hroom₃) []
    have hlt : ¬ nodeSize c * 20 ≤ s.endFree - s.beginFree := by omega
    have hget : s₁.getReserve (nodeSize c) (s.bytesToGet (nodeSize c * 20)) a =
        some ((s₂.malloc (s.bytesToGet (nodeSize c * 20)) a.chunk).grow
          (s.bytesToGet (nodeSize c * 20)) a.chunk, .ok ()) := by
      simp [getReserve, malloc, hnode, hchunk, s₂]
    refine ⟨s₄, _, m, nodes₁, ?_, hm, h₄, hnodes, hlen, .inr ⟨?_, htwenty hroom₃⟩⟩
    · rw [chunkAlloc]
      simp [h.leftSize, hlt, hroom, e₁, hn₁, hget, e₄]
    · rw [hareas₄, ← hareas]
      simp [MemPool.grow, malloc, hchunk, s₂]

theorem length_strided (n : ℕ) : ∀ m p : ℕ, (strided n m p).length = m
  | 0, _ => rfl
  | m + 1, p => congrArg (· + 1) (length_strided n m (p + n))

/-- Of the chunks the first stays out, and the others become list `c`, which was empty. -/
theorem linkRest_length {chunk r : ℕ}
    (h : Sound s nodes ((chunk, nodeSize c * (1 + r + 1)) :: L)) (hc : c < kFreeListsNum)
    (hnil : nodes c = []) :
    ∃ s₁ s' nodes', s.setList (getFreelistIndex (nodeSize c)) (chunk + nodeSize c) = some s₁ ∧
      linkLoop (nodeSize c) (1 + r + 1) (1 + r + 1) 1 (chunk + nodeSize c) s₁ = some s' ∧
      Sound s' nodes' ((chunk, nodeSize c) :: L) ∧ (nodes' c).length = r + 1 ∧
      (∀ k, k ≠ c → nodes' k = nodes k) ∧ s'.areas = s.areas := by
  have hcut : s.Carving nodes ((strided (nodeSize c) (r + 1) (chunk + nodeSize c)).map
      (·, nodeSize c) ++ (chunk, nodeSize c) :: s.reserve :: L) := by
    have hperm := List.Perm.swap (chunk, nodeSize c * (1 + r + 1)) s.reserve L
    have hall := (h.carved.reorder hperm).cut (kAlign_dvd_nodeSize c)
    rw [Nat.add_comm 1 r] at hall
    exact hall.reorder List.perm_middle.symm
  have hdvd : kAlign ∣ chunk := (hcut.aligned_of_mem (b := (chunk, nodeSize c))
    (List.mem_append_right _ List.mem_cons_self)).1
  have hpos := nodeSize_pos c
  obtain ⟨mem', e, hframe, hchain⟩ := linkLoop_spec hpos (kAlign_dvd_nodeSize c) r
    (1 + r + 1) 1 (chunk + nodeSize c)
    { s with freeLists := Function.update s.freeLists c (chunk + nodeSize c) }
    (by omega) (by omega) (Nat.dvd_add hdvd (kAlign_dvd_nodeSize c))
  have hlink := Carved.relink _ hcut nodeSize_pos hc hframe (by simpa [hnil] using hchain)
  refine ⟨_, _, _, ?_, e, ⟨hlink.reorder (List.Perm.swap _ _ _), h.ordered⟩, ?_,
    fun k hk => Function.update_of_ne hk _ _, rfl⟩
  · rw [getFreelistIndex_nodeSize hc, setList_eq hc]
  · rw [Function.update_self, hnil, List.append_nil, length_strided]

/-- `refill` of an empty list. -/
theorem refill_supplied (h : Sound s nodes L) (hc : c < kFreeListsNum) (hnil : nodes c = [])
    (hchunk : a.chunk ≠ 0) (hnode : a.node = true)
    (hfresh : PoolSession.Fresh s (s.bytesToGet (nodeSize c * 20)) a.chunk) :
    ∃ s' p nodes', s.refill (nodeSize c) a = some (s', .ok p) ∧
      Sound s' nodes' ((p, nodeSize c) :: L) ∧
      (∀ k, k ≠ c → (nodes k).length ≤ (nodes' k).length) ∧
      (s'.areas.length = s.areas.length ∨
        s'.areas.length = s.areas.length + 1 ∧ (nodes' c).length = 19) := by
  obtain ⟨s₁, p, m, nodes₁, e₁, hm, h₁, hnodes, hlen, hareas⟩ :=
    chunkAlloc_supplied h hc hchunk hnode hfresh
  by_cases hone : m = 1
  · subst hone
    refine ⟨s₁, p, nodes₁, by simp [refill, e₁], by simpa using h₁, fun k _ => hlen k, ?_⟩
    exact .inl (hareas.resolve_right fun hnew => absurd hnew.2 (by decide))
  · obtain ⟨r, rfl⟩ : ∃ r, m = 1 + r + 1 := ⟨m - 2, by omega⟩
    obtain ⟨s₂, s₃, nodes₃, e₂, e₃, h₃, hrest, hsame, hareas₃⟩ :=
      linkRest_length h₁ hc (hnodes.trans hnil)
    refine ⟨s₃, p, nodes₃, by simp [refill, e₁, e₂, e₃], h₃, fun k hk => ?_, ?_⟩
    · rw [hsame k hk]
      exact hlen k
    · rw [hareas₃]
      refine hareas.imp_right fun hnew => ⟨hnew.1, ?_⟩
      have htwenty := hnew.2
      omega

/-- `allocate` when the system gives what is asked for: a block of the class, and either no new
area or one of which the list has 19 chunks. -/
theorem allocate_supplied (h : Sound s nodes L) (h₁ : 1 ≤ n) (h₂ : n ≤ kMaxBytes)
    (hchunk : a.chunk ≠ 0) (hnode : a.node = true)
    (hfresh : PoolSession.Fresh s (s.bytesToGet (roundUp n * 20)) a.chunk) :
    ∃ s' p nodes', s.allocate n a = some (s', .ok p) ∧ Sound s' nodes' ((p, roundUp n) :: L) ∧
      (∀ k, k ≠ getFreelistIndex n → (nodes k).length ≤ (nodes' k).length) ∧
      (s'.areas.length = s.areas.length ∧
          (nodes (getFreelistIndex n)).length ≤ (nodes' (getFreelistIndex n)).length + 1 ∨
        s'.areas.length = s.areas.length + 1 ∧ nodes (getFreelistIndex n) = [] ∧
          (nodes' (getFreelistIndex n)).length = 19) := by
  obtain ⟨c, hc, hround, hidx⟩ := exists_class h₁ h₂
  rw [hround] at hfresh ⊢
  rw [hidx]
  have hmax : ¬ n > kMaxBytes := by omega
  by_cases hhead : s.freeLists c = 0
  · have hnil : nodes c = [] := (hhead ▸ h.carved.chain c hc).eq_nil
    obtain ⟨s', p, nodes', e, h', hrest, hareas⟩ := refill_supplied h hc hnil hchunk hnode hfresh
    refine ⟨s', p, nodes', ?_, h', hrest, hareas.imp (fun hsame => ⟨hsame, ?_⟩)
      fun hnew => ⟨hnew.1, hnil, hnew.2⟩⟩
    · simpa [allocate, hmax, hidx, getList_eq hc, hhead, hround] using e
    · rw [hnil]
      exact Nat.zero_le _
  · obtain ⟨s', ps, e, hps, h', hb, he, -, hareas⟩ := h.carved.popFront hc hhead
    refine ⟨s', s.freeLists c, Function.update nodes c ps, ?_,
      h.frame (h'.reorder (List.Perm.swap _ _ _)) hb he, fun k hk => ?_, .inl ⟨?_, ?_⟩⟩
    · simp [allocate, hmax, hidx, getList_eq hc, hhead, e]
    · rw [Function.update_of_ne hk]
    · rw [hareas]
    · rw [hps, Function.update_self]
      exact Nat.le_refl _

/-- `deallocate` makes the list of the class longer. -/
theorem deallocate_length (h : Sound s nodes ((p, roundUp n) :: L)) (h₁ : 1 ≤ n)
    (h₂ : n ≤ kMaxBytes) :
    ∃ s' nodes', s.deallocate p n = some s' ∧ Sound s' nodes' L ∧
      (∀ k, k ≠ getFreelistIndex n → nodes' k = nodes k) ∧
      (nodes' (getFreelistIndex n)).length = (nodes (getFreelistIndex n)).length + 1 ∧
      s'.areas = s.areas := by
  obtain ⟨c, hc, hround, hidx⟩ := exists_class h₁ h₂
  have hcarved := h.carved.reorder (List.Perm.swap (p, roundUp n) s.reserve L)
  rw [hround] at hcarved
  obtain ⟨s', e, h', hb, he, -, hareas⟩ := Carving.pushFront hcarved hc
  rw [hidx]
  refine ⟨s', _, ?_, h.frame h' hb he, fun k hk => Function.update_of_ne hk _ _, ?_, hareas⟩
  · rw [deallocate, if_neg (by omega), hidx, e]
  · rw [Function.update_self]
    rfl

end MemPool

namespace PoolSession

variable {s t u : PoolSession} {nodes : ℕ → List ℕ} {asked peak : ℕ → ℕ} {op : PoolOp}

/-- The blocks of class `k` in use. -/
def inUse (s : PoolSession) (k : ℕ) : ℕ := s.live.countP fun b => getFreelistIndex b.2 = k

/-- In `chunk_alloc` neither `::malloc` fails nor the allocation of the node. -/
def Supplied : PoolOp → Prop
  | .allocate _ a => a.chunk ≠ 0 ∧ a.node = true
  | .deallocate _ _ | .write _ _ _ => True

instance : DecidablePred Supplied
  | .allocate _ a => inferInstanceAs (Decidable (a.chunk ≠ 0 ∧ a.node = true))
  | .deallocate _ _ | .write _ _ _ => .isTrue trivial

/-- `asked k` areas were asked for by class `k`, and none of the chunks is lost to it. -/
structure Steady (peak : ℕ → ℕ) (s : PoolSession) (nodes : ℕ → List ℕ) (asked : ℕ → ℕ) :
    Prop where
  sound : s.Sound nodes []
  areas : s.pool.areas.length = ∑ k ∈ Finset.range kFreeListsNum, asked k
  chunks : ∀ k, 20 * asked k ≤ s.inUse k + (nodes k).length
  peaks : ∀ k < kFreeListsNum, 20 * asked k ≤ peak k + 19

theorem steady_init (mem : ℕ → ℕ) : Steady peak (init mem) (fun _ => []) fun _ => 0 where
  sound := sound_init mem
  areas := by
    rw [Finset.sum_const_zero]
    rfl
  chunks _ := Nat.le_refl 0
  peaks _ _ := Nat.zero_le _

/-- One class asks for one more area. -/
theorem sum_succ {c : ℕ} (hc : c < kFreeListsNum) (asked : ℕ → ℕ) :
    ∑ k ∈ Finset.range kFreeListsNum, (asked k + if c = k then 1 else 0) =
      ∑ k ∈ Finset.range kFreeListsNum, asked k + 1 := by
  rw [Finset.sum_add_distrib, Finset.sum_ite_eq, if_pos (Finset.mem_range.mpr hc)]

theorem inUse_cons (pool : MemPool) (p n k : ℕ) :
    inUse ⟨pool, (p, n) :: s.live⟩ k =
      s.inUse k + if getFreelistIndex n = k then 1 else 0 := by
  simp only [inUse, List.countP_cons, decide_eq_true_eq]

theorem inUse_erase {p n : ℕ} (h : (p, n) ∈ s.live) (k : ℕ) :
    s.live.countP (fun b => getFreelistIndex b.2 = k) =
      (s.live.erase (p, n)).countP (fun b => getFreelistIndex b.2 = k) +
        if getFreelistIndex n = k then 1 else 0 := by
  rw [(List.perm_cons_erase h).countP_eq]
  simp only [List.countP_cons, decide_eq_true_eq]

/-- A request: when the class asks, all its chunks are in use. -/
theorem Steady.allocate {n : ℕ} {a : Answer} (h : Steady peak s nodes asked)
    (hv : s.Valid (.allocate n a)) (hsup : Supplied (.allocate n a))
    (hst : s.exec (.allocate n a) = some t) (hpeak : ∀ k < kFreeListsNum, t.inUse k ≤ peak k) :
    ∃ nodes' asked', Steady peak t nodes' asked' := by
  obtain ⟨h₁, h₂, hfresh⟩ := hv
  obtain ⟨pool, p, nodes', e, hpool, hother, hown⟩ := MemPool.allocate_supplied h.sound.pool h₁ h₂
    hsup.1 hsup.2 (hfresh a.chunk List.mem_cons_self)
  have he : s.exec (.allocate n a) = some ⟨pool, (p, n) :: s.live⟩ := by
    simp only [exec, e, Option.bind_eq_bind, Option.bind_some]
    rfl
  obtain rfl := Option.some.inj (he.symm.trans hst)
  have hsound : Sound ⟨pool, (p, n) :: s.live⟩ nodes' [] :=
    ⟨hpool, List.forall_mem_cons.mpr ⟨⟨h₁, h₂⟩, h.sound.sizes⟩⟩
  obtain ⟨c, hc, -, hidx⟩ := exists_class h₁ h₂
  rw [hidx] at hother hown
  have huse := inUse_cons (s := s) pool p n
  rw [hidx] at huse
  rcases hown with ⟨hsame, hlen⟩ | ⟨hnew, hnil, hlen⟩
  · refine ⟨nodes', asked, hsound, hsame.trans h.areas, fun k => ?_, h.peaks⟩
    have hk := h.chunks k
    rw [huse]
    split
    · next hkc =>
        subst hkc
        omega
    · next hkc =>
        have hle := hother k (Ne.symm hkc)
        omega
  · refine ⟨nodes', fun k => asked k + if c = k then 1 else 0, hsound, ?_, fun k => ?_,
      fun k hlt => ?_⟩
    · rw [sum_succ hc, ← h.areas]
      exact hnew
    · have hk := h.chunks k
      rw [huse]
      split
      · next hkc =>
          subst hkc
          rw [hnil, List.length_nil] at hk
          omega
      · next hkc =>
          have hle := hother k (Ne.symm hkc)
          omega
    · have hk := h.chunks k
      have hp := hpeak k hlt
      rw [huse] at hp
      split at hp
      · next hkc =>
          subst hkc
          rw [if_pos rfl]
          rw [hnil, List.length_nil] at hk
          omega
      · next hkc =>
          rw [if_neg hkc]
          exact h.peaks k hlt

theorem Steady.deallocate {p n : ℕ} (h : Steady peak s nodes asked)
    (hv : s.Valid (.deallocate p n)) (hst : s.exec (.deallocate p n) = some t) :
    ∃ nodes', Steady peak t nodes' asked := by
  obtain ⟨h₁, h₂⟩ := h.sound.sizes _ hv
  have hpool : s.pool.Sound nodes ((p, roundUp n) ::
      ((s.live.erase (p, n)).map (fun b => (b.1, roundUp b.2)) ++ [])) :=
    ⟨h.sound.pool.carved.reorder (((blocks_perm hv).append_right []).cons _),
      h.sound.pool.ordered⟩
  obtain ⟨pool, nodes', e, h', hother, hown, hareas⟩ := MemPool.deallocate_length hpool h₁ h₂
  have he : s.exec (.deallocate p n) = some ⟨pool, s.live.erase (p, n)⟩ := by
    simp only [exec, e, Option.bind_eq_bind, Option.bind_some]
    rfl
  obtain rfl := Option.some.inj (he.symm.trans hst)
  refine ⟨nodes', ⟨h', fun b hb => h.sound.sizes b (List.mem_of_mem_erase hb)⟩,
    (congrArg _ hareas).trans h.areas, fun k => ?_, h.peaks⟩
  have hk := h.chunks k
  rw [inUse, inUse_erase hv] at hk
  show _ ≤ (s.live.erase (p, n)).countP _ + _
  split at hk
  · next hkc =>
      rw [hkc] at hown
      omega
  · next hkc =>
      rw [hother k (Ne.symm hkc)]
      omega

theorem Steady.exec (h : Steady peak s nodes asked) (hv : s.Valid op) (hsup : Supplied op)
    (hst : s.exec op = some t) (hpeak : ∀ k < kFreeListsNum, t.inUse k ≤ peak k) :
    ∃ nodes' asked', Steady peak t nodes' asked' := by
  cases op with
  | allocate n a => exact h.allocate hv hsup hst hpeak
  | deallocate p n =>
      obtain ⟨nodes', h'⟩ := h.deallocate hv hst
      exact ⟨nodes', asked, h'⟩
  | write b x v =>
      obtain rfl := Option.some.inj hst
      exact ⟨nodes, asked, h.sound.write hv, h.areas, h.chunks, h.peaks⟩

/-- In every run in which the system gives what it is asked for, the pool obtains at most one
area for every 20 blocks, or part of 20, that a class had in use at its peak. -/
theorem areas_le {mem : ℕ → ℕ} {tr : List (PoolSession × PoolOp)}
    (hr : Run (stepOf exec) (init mem) tr s) (hv : ∀ p ∈ tr, Valid p.1 p.2 ∧ Supplied p.2)
    (hpeak : ∀ p ∈ tr, ∀ k < kFreeListsNum, p.1.inUse k ≤ peak k)
    (hlast : ∀ k < kFreeListsNum, s.inUse k ≤ peak k) :
    s.pool.areas.length ≤ ∑ k ∈ Finset.range kFreeListsNum, (peak k + 19) / 20 := by
  obtain ⟨nodes, asked, h⟩ : ∃ nodes asked, Steady peak s nodes asked := by
    induction hr with
    | nil => exact ⟨_, _, steady_init mem⟩
    | snoc hr hst ih =>
        obtain ⟨hv, hop⟩ := forall_snoc (P := fun s op => Valid s op ∧ Supplied op).mp hv
        obtain ⟨hpeak, hlast'⟩ := forall_snoc
          (P := fun (s : PoolSession) _ => ∀ k < kFreeListsNum, s.inUse k ≤ peak k).mp hpeak
        obtain ⟨nodes, asked, h⟩ := ih hv hpeak hlast'
        exact h.exec hop.1 hop.2 hst hlast
  rw [h.areas]
  refine Finset.sum_le_sum fun k hk => ?_
  have hk := h.peaks k (Finset.mem_range.mp hk)
  omega

/-- Two classes ask for an area each; a block that comes back is handed out again. -/
def twoClasses : List PoolOp :=
  [.allocate 8 ⟨1024, true, 0, []⟩, .allocate 400 ⟨8192, true, 0, []⟩,
    .write (1024, 8) 1024 7, .deallocate 8192 400, .allocate 393 ⟨65536, true, 0, []⟩,
    .allocate 3 ⟨65536, true, 0, []⟩]

theorem twoClasses_areas : ∃ tr s, runAll exec (init fun _ => 0) twoClasses = some (tr, s) ∧
    s.live = [(1032, 3), (8192, 393), (1024, 8)] ∧ s.pool.areas.length = 2 ∧
      s.pool.areas.length ≤ ∑ k ∈ Finset.range kFreeListsNum,
        ((if k = 0 then 2 else if k = 49 then 1 else 0) + 19) / 20 := by
  obtain ⟨tr, s, hrun, hv, hpeak, hlast, hlive, hareas⟩ : ∃ tr s,
      runAll exec (init fun _ => 0) twoClasses = some (tr, s) ∧
        (∀ p ∈ tr, Valid p.1 p.2 ∧ Supplied p.2) ∧
        (∀ p ∈ tr, ∀ k < kFreeListsNum,
          p.1.inUse k ≤ if k = 0 then 2 else if k = 49 then 1 else 0) ∧
        (∀ k < kFreeListsNum, s.inUse k ≤ if k = 0 then 2 else if k = 49 then 1 else 0) ∧
        s.live = [(1032, 3), (8192, 393), (1024, 8)] ∧ s.pool.areas.length = 2 :=
    exists_computed (by decide +kernel)
  exact ⟨tr, s, hrun, hlive, hareas, areas_le (run_of_runAll hrun) hv hpeak hlast⟩

end PoolSession

end Muduo
