/-
# `Muduo.MemPool.Carve` — the pool cuts its areas without loss

Every operation of the pool cuts pieces and moves them between the free lists,
the reserve and the caller.  `Sound s nodes L` says that the three together
tile the areas the system gave, `L` being what is in use; each function gets
one lemma about what it does to `nodes` and `L`.

    keepLeft      the reserve            →  a list of chunks smaller than asked for
    getReserve    a new area, or a chunk →  the reserve
    chunkAlloc    the reserve            →  L, as one piece of `size * nObjs` bytes
    refill        that piece             →  L, its first chunk;  its list, the others

`refill` overwrites the head of its list, which is right because the list is
empty: that is the hypothesis `nodes c = []`, and what the lemmas keep is that
neither the left-over nor the search for a larger chunk touches class `c`.

They are about the calls in which `allocated_area` gets its node.  When it does not,
`chunk_alloc` throws after the first of these steps (`allocate_refused`): the left-over
is in a list, and still is the reserve.
-/
import Muduo.Lib.FreeList
import Muduo.Lib.Runs
import Muduo.MemPool.Model

namespace Muduo

open Tiling Runs

/-- The bytes of a chunk in list `k`. -/
def nodeSize (k : ℕ) : ℕ := kAlign * (k + 1)

theorem nodeSize_pos (k : ℕ) : 0 < nodeSize k := by
  simp only [nodeSize, kAlign]
  omega

theorem kAlign_dvd_nodeSize (k : ℕ) : kAlign ∣ nodeSize k := Nat.dvd_mul_right _ _

theorem kAlign_dvd_roundUp (n : ℕ) : kAlign ∣ roundUp n := Nat.dvd_mul_left _ _

/-- The list of a multiple of `kAlign`. -/
theorem getFreelistIndex_nodeSize {k : ℕ} (hk : k < kFreeListsNum) :
    getFreelistIndex (nodeSize k) = k := by
  simp only [getFreelistIndex, nodeSize, kAlign, kFreeListsNum, kMaxBytes] at *
  omega

theorem exists_nodeSize {n : ℕ} (h₁ : 0 < n) (h₂ : n ≤ kMaxBytes) (h₃ : kAlign ∣ n) :
    ∃ k < kFreeListsNum, n = nodeSize k := by
  obtain ⟨j, rfl⟩ := h₃
  simp only [kAlign, kFreeListsNum, kMaxBytes, nodeSize] at *
  exact ⟨j - 1, by omega, by omega⟩

/-- The class of a request: the size it is rounded up to and the list it is
taken from agree. -/
theorem exists_class {n : ℕ} (h₁ : 1 ≤ n) (h₂ : n ≤ kMaxBytes) :
    ∃ k < kFreeListsNum, roundUp n = nodeSize k ∧ getFreelistIndex n = k := by
  simp only [roundUp, getFreelistIndex, nodeSize, kAlign, kFreeListsNum, kMaxBytes] at *
  exact ⟨(n - 1) / 8, by omega, by omega, by omega⟩

namespace MemPool

variable {s : MemPool} {nodes : ℕ → List ℕ} {L : List Piece} {k c n p : ℕ}

/-! ## The invariant -/

/-- The lists, without the reserve, tile the areas together with `L`. -/
abbrev Carving (s : MemPool) (nodes : ℕ → List ℕ) (L : List Piece) : Prop :=
  Carved nodeSize kFreeListsNum kAlign s.mem s.freeLists nodes L s.areas

/-- `[begin_free, end_free)`. -/
def reserve (s : MemPool) : Piece := (s.beginFree, s.endFree - s.beginFree)

structure Sound (s : MemPool) (nodes : ℕ → List ℕ) (L : List Piece) : Prop where
  carved : s.Carving nodes (s.reserve :: L)
  ordered : s.beginFree ≤ s.endFree

theorem sound_init (mem : ℕ → ℕ) : Sound (init mem) (fun _ => []) [] where
  carved := Carved.empty.add_empty (Nat.dvd_zero _)
  ordered := Nat.le_refl 0

theorem Sound.left_dvd (h : Sound s nodes L) : kAlign ∣ s.endFree - s.beginFree :=
  (h.carved.aligned_of_mem List.mem_cons_self).2

/-- An operation on the lists alone keeps the reserve. -/
theorem Sound.frame (h : Sound s nodes L) {s' : MemPool} {nodes' : ℕ → List ℕ} {L' : List Piece}
    (h' : s'.Carving nodes' (s.reserve :: L')) (hb : s'.beginFree = s.beginFree)
    (he : s'.endFree = s.endFree) : Sound s' nodes' L' := by
  refine ⟨by simpa only [reserve, hb, he] using h', ?_⟩
  rw [hb, he]
  exact h.ordered

theorem Sound.leftSize (h : Sound s nodes L) : s.leftSize = some (s.endFree - s.beginFree) := by
  simp [MemPool.leftSize, assert_of h.ordered]

/-! ## The free lists -/

theorem getList_eq (hk : k < kFreeListsNum) : s.getList k = some (s.freeLists k) := by
  simp [getList, hk]

theorem setList_eq (hk : k < kFreeListsNum) :
    s.setList k p = some { s with freeLists := Function.update s.freeLists k p } := by
  simp [setList, hk]

theorem storeNext_eq (hp : p ≠ 0) (ha : kAlign ∣ p) (q : ℕ) :
    s.storeNext p q = some { s with mem := Function.update s.mem p q } := by
  simp [storeNext, hp, Nat.mod_eq_zero_of_dvd ha]

theorem pushFront_eq (hk : k < kFreeListsNum) (hp : p ≠ 0) (ha : kAlign ∣ p) :
    s.pushFront k p = some
      { s with mem := Function.update s.mem p (s.freeLists k),
               freeLists := Function.update s.freeLists k p } := by
  simp [pushFront, getList_eq hk, storeNext_eq hp ha, setList_eq hk]

theorem popFront_eq (hk : k < kFreeListsNum) (hp : p ≠ 0) (ha : kAlign ∣ p) :
    s.popFront k p = some { s with freeLists := Function.update s.freeLists k (s.mem p) } := by
  simp [popFront, loadNext, hp, Nat.mod_eq_zero_of_dvd ha, setList_eq hk]

/-- A piece of the size of list `k` is pushed onto it. -/
theorem Carving.pushFront (h : s.Carving nodes ((p, nodeSize k) :: L)) (hk : k < kFreeListsNum) :
    ∃ s', s.pushFront k p = some s' ∧ s'.Carving (Function.update nodes k (p :: nodes k)) L ∧
      s'.beginFree = s.beginFree ∧ s'.endFree = s.endFree ∧ s'.heapSize = s.heapSize ∧
      s'.areas = s.areas :=
  ⟨_, pushFront_eq hk (h.start_ne_zero (nodeSize_pos k))
    (h.aligned_of_mem List.mem_cons_self).1, h.put nodeSize_pos hk, rfl, rfl, rfl, rfl⟩

/-- The first node of list `k` is taken off it. -/
theorem Carving.popFront (h : s.Carving nodes L) (hk : k < kFreeListsNum)
    (hp : s.freeLists k ≠ 0) :
    ∃ s' ps, s.popFront k (s.freeLists k) = some s' ∧ nodes k = s.freeLists k :: ps ∧
      s'.Carving (Function.update nodes k ps) ((s.freeLists k, nodeSize k) :: L) ∧
      s'.beginFree = s.beginFree ∧ s'.endFree = s.endFree ∧ s'.heapSize = s.heapSize ∧
      s'.areas = s.areas := by
  obtain ⟨ps, hps, h'⟩ := h.take hk hp
  have ha := (h'.aligned_of_mem List.mem_cons_self).1
  exact ⟨_, ps, popFront_eq hk hp ha, hps, h', rfl, rfl, rfl, rfl⟩

/-! ## The reserve -/

/-- Bytes taken from the front of the reserve. -/
theorem Sound.takeFront (h : Sound s nodes L) (hn : n ≤ s.endFree - s.beginFree)
    (ha : kAlign ∣ n) :
    Sound { s with beginFree := s.beginFree + n } nodes ((s.beginFree, n) :: L) := by
  have hord := h.ordered
  refine ⟨?_, by simp only; omega⟩
  have hsize : s.endFree - s.beginFree = n + (s.endFree - (s.beginFree + n)) := by omega
  have hcut : s.Carving nodes ((s.beginFree, n + (s.endFree - (s.beginFree + n))) :: L) := by
    rw [← hsize]
    exact h.carved
  exact (hcut.split ha).reorder (List.Perm.swap _ _ _)

/-- What is left of the reserve, less than one chunk of class `c`, becomes a
node of a smaller class. -/
theorem keepLeft_spec (h : Sound s nodes L) (hc : c < kFreeListsNum)
    (hleft : s.endFree - s.beginFree < nodeSize c) :
    ∃ s' nodes', s.keepLeft (s.endFree - s.beginFree) = some s' ∧ s'.Carving nodes' L ∧
      nodes' c = nodes c ∧ s'.heapSize = s.heapSize ∧ s'.areas = s.areas := by
  unfold keepLeft
  by_cases h0 : 0 < s.endFree - s.beginFree
  · have hmax : nodeSize c ≤ kMaxBytes := by
      simp only [nodeSize, kAlign, kFreeListsNum, kMaxBytes] at *
      omega
    obtain ⟨k, hk, hsize⟩ := exists_nodeSize h0 (by omega) h.left_dvd
    have hcarved := h.carved
    rw [reserve, hsize] at hcarved
    obtain ⟨s', e, h', -, -, htot, hareas⟩ := hcarved.pushFront hk
    have hne : c ≠ k := by
      rintro rfl
      omega
    refine ⟨s', _, ?_, h', by simp [hne], htot, hareas⟩
    rw [if_pos h0, assert_of (Nat.mod_eq_zero_of_dvd h.left_dvd), hsize,
      getFreelistIndex_nodeSize hk, ← e]
    rfl
  · refine ⟨s, nodes, if_neg h0, ?_, rfl, rfl, rfl⟩
    have hcarved := h.carved
    rw [reserve, Nat.eq_zero_of_not_pos h0] at hcarved
    exact hcarved.drop_empty

/-- The search ends, and what it finds is the head of a list that is not empty
and whose chunks are large enough. -/
theorem searchLoop_spec : ∀ (fuel i : ℕ), kAlign ∣ i → 0 < i →
    kMaxBytes + kAlign < i + kAlign * fuel → 0 < fuel → ∃ r, s.searchLoop fuel i = some r ∧
      ∀ j p, r = some (j, p) → i ≤ j ∧ p ≠ 0 ∧ ∃ k < kFreeListsNum, j = nodeSize k ∧
        p = s.freeLists k
  | 0, _, _, _, _, h => absurd h (Nat.lt_irrefl 0)
  | fuel + 1, i, hd, h0, hfuel, _ => by
      unfold searchLoop
      by_cases hi : i ≤ kMaxBytes
      · obtain ⟨k, hk, rfl⟩ := exists_nodeSize h0 hi hd
        rw [if_pos hi, getFreelistIndex_nodeSize hk, getList_eq hk]
        by_cases hp : s.freeLists k = 0
        · have hfuel' : 0 < fuel := by
            simp only [kAlign] at hfuel
            omega
          obtain ⟨r, e, hr⟩ := searchLoop_spec fuel (nodeSize k + kAlign)
            (Nat.dvd_add hd (Nat.dvd_refl _)) (by omega)
            (by simp only [kAlign] at *; omega) hfuel'
          refine ⟨r, by simpa [hp] using e, fun j p hj => ?_⟩
          obtain ⟨hle, hrest⟩ := hr j p hj
          exact ⟨by omega, hrest⟩
        · refine ⟨_, by simp [hp]; rfl, fun j p hj => ?_⟩
          obtain ⟨rfl, rfl⟩ := Prod.mk.inj (Option.some.inj hj)
          exact ⟨Nat.le_refl _, hp, k, hk, rfl, rfl⟩
      · exact ⟨none, if_neg hi, fun _ _ h => nomatch h⟩

/-- An area from the system becomes the reserve. -/
theorem Carving.grow (h : s.Carving nodes L) (hp : p ≠ 0) (hn : kAlign ∣ n)
    (hfresh : PoolSession.Fresh s n p) : Sound ((s.malloc n p).grow n p) nodes L := by
  obtain ⟨ha, hnew⟩ := hfresh hp
  have hgain := h.gain (Nat.pos_of_ne_zero hp) (Nat.dvd_of_mod_eq_zero ha) hn hnew
  simp only [malloc, if_neg hp]
  refine ⟨?_, Nat.le_add_right p n⟩
  have hres : p + n - p = n := by omega
  simpa only [MemPool.grow, reserve, hres] using hgain

/-- The first chunk of list `k` becomes the reserve. -/
theorem Carving.scavenge (h : s.Carving nodes L) (hk : k < kFreeListsNum)
    (hp : s.freeLists k ≠ 0) :
    ∃ s' ps, s.popFront k (s.freeLists k) = some s' ∧ nodes k = s.freeLists k :: ps ∧
      Sound { s' with beginFree := s.freeLists k, endFree := s.freeLists k + nodeSize k }
        (Function.update nodes k ps) L := by
  obtain ⟨s', ps, e, hps, h', -⟩ := h.popFront hk hp
  refine ⟨s', ps, e, hps, ?_, Nat.le_add_right _ _⟩
  have hres : s.freeLists k + nodeSize k - s.freeLists k = nodeSize k := by omega
  simpa only [reserve, hres] using h'

/-- `master_alloc` throws and leaves everything as it was, or returns an area. -/
theorem masterAllocate_spec (s : MemPool) (n : ℕ) (a : Answer) :
    s.masterAllocate n a = (s, .error .badAlloc) ∨
      ∃ p ∈ a.master :: a.retries, p ≠ 0 ∧ s.masterAllocate n a = (s.malloc n p, .ok p) := by
  have hoom : ∀ ps : List ℕ, s.oomMalloc n ps = (s, .error .badAlloc) ∨
      ∃ p ∈ ps, p ≠ 0 ∧ s.oomMalloc n ps = (s.malloc n p, .ok p) := by
    intro ps
    induction ps with
    | nil => exact .inl rfl
    | cons p ps ih =>
        by_cases hp : p = 0
        · rcases ih with ih | ⟨q, hq, hq0, ih⟩
          · exact .inl (by simpa [oomMalloc, hp] using ih)
          · exact .inr ⟨q, List.mem_cons_of_mem _ hq, hq0, by simpa [oomMalloc, hp] using ih⟩
        · exact .inr ⟨p, List.mem_cons_self, hp, by simp [oomMalloc, hp]⟩
  unfold masterAllocate
  by_cases hm : a.master = 0
  · rw [if_pos hm]
    rcases hoom a.retries with h | ⟨p, hp, h⟩
    · exact .inl h
    · exact .inr ⟨p, List.mem_cons_of_mem _ hp, h⟩
  · rw [if_neg hm]
    exact .inr ⟨a.master, List.mem_cons_self, hm, rfl⟩

/-- A new reserve of at least one chunk, or `bad_alloc` and an empty one. -/
theorem getReserve_spec {a : Answer} (h : s.Carving nodes L) (hnode : a.node = true)
    (hnil : nodes c = []) (hn : kAlign ∣ n) (hsize : nodeSize c ≤ n)
    (hfresh : ∀ p ∈ a.chunk :: a.master :: a.retries, PoolSession.Fresh s n p) :
    ∃ s' r nodes', s.getReserve (nodeSize c) n a = some (s', r) ∧ Sound s' nodes' L ∧
      nodes' c = [] ∧ (r = .ok () → nodeSize c ≤ s'.endFree - s'.beginFree) := by
  by_cases hchunk : a.chunk = 0
  · -- `::malloc` has failed
    have hnone : s.malloc n 0 = s := if_pos rfl
    let s₁ : MemPool := { s with allocatedArea := s.allocatedArea ++ [0], beginFree := 0 }
    have h₁ : s₁.Carving nodes L := h
    have hfuel : kMaxBytes + kAlign < nodeSize c + kAlign * (kFreeListsNum + 1) := by
      simp only [kMaxBytes, kAlign, nodeSize, kFreeListsNum]
      omega
    obtain ⟨found, hfound, hspec⟩ := searchLoop_spec (s := s₁) (kFreeListsNum + 1) (nodeSize c)
      (kAlign_dvd_nodeSize c) (nodeSize_pos c) hfuel (Nat.succ_pos _)
    cases found with
    | some found =>
        -- a larger chunk becomes the reserve
        obtain ⟨i, p⟩ := found
        obtain ⟨hle, hp, k, hk, rfl, rfl⟩ := hspec i p rfl
        obtain ⟨s₂, ps, e₂, hps, h₂⟩ := Carving.scavenge h₁ hk hp
        have hne : c ≠ k := by
          rintro rfl
          rw [hps] at hnil
          exact List.cons_ne_nil _ _ hnil
        refine ⟨_, .ok (), Function.update nodes k ps, ?_, h₂, ?_, fun _ => ?_⟩
        · simp only [getReserve, hnode, hchunk, hnone]
          simp [hfound, getFreelistIndex_nodeSize hk, e₂, s₁]
        · simpa [hne] using hnil
        · simp only
          omega
    | none =>
        let s₂ : MemPool := { s₁ with endFree := 0 }
        have h₂ : s₂.Carving nodes L := h
        rcases masterAllocate_spec s₂ n a with e | ⟨p, hp, hp0, e⟩
        · refine ⟨s₂, .error .badAlloc, nodes, ?_, ⟨?_, Nat.le_refl 0⟩, hnil, fun h => nomatch h⟩
          · simp only [getReserve, hnode, hchunk, hnone]
            simp [hfound, e, s₁, s₂]
          · exact h₂.add_empty (Nat.dvd_zero _)
        · have hgrow := Carving.grow h₂ hp0 hn (hfresh p (List.mem_cons_of_mem _ hp))
          refine ⟨(s₂.malloc n p).grow n p, .ok (), nodes, ?_, hgrow, hnil, fun _ => ?_⟩
          · simp only [getReserve, hnode, hchunk, hnone]
            simp [hfound, e, s₁, s₂]
          · simp only [MemPool.grow]
            omega
  · let s₁ : MemPool :=
      { s with allocatedArea := s.allocatedArea ++ [a.chunk], beginFree := a.chunk }
    have h₁ : s₁.Carving nodes L := h
    have hgrow := Carving.grow h₁ hchunk hn (hfresh _ List.mem_cons_self)
    refine ⟨(s₁.malloc n a.chunk).grow n a.chunk, .ok (), nodes, ?_, hgrow, hnil, fun _ => ?_⟩
    · simp [getReserve, malloc, hnode, hchunk, s₁]
    · simp only [MemPool.grow]
      omega

/-- Without a node for `allocated_area` there is no new reserve. -/
theorem getReserve_refused {a : Answer} (hnode : a.node = false) (size : ℕ) :
    s.getReserve size n a = some (s.malloc n a.chunk, .error .badAlloc) := by
  simp [getReserve, hnode]

/-! ## chunk_alloc -/

/-- The reserve has room for a chunk: at least one and at most `nObjs` chunks
are taken from its front. -/
theorem chunkAlloc_of_le (h : Sound s nodes L) {nObjs : ℕ} (hobjs : 0 < nObjs)
    (hroom : nodeSize c ≤ s.endFree - s.beginFree) (answers : List Answer) :
    ∃ s' m, chunkAlloc (nodeSize c) answers s nObjs = some (s', .ok (s.beginFree, m)) ∧
      0 < m ∧ m ≤ nObjs ∧ Sound s' nodes ((s.beginFree, nodeSize c * m) :: L) := by
  have hdvd : ∀ m, kAlign ∣ nodeSize c * m := fun m =>
    Nat.dvd_mul_right_of_dvd (kAlign_dvd_nodeSize c) m
  by_cases hall : s.endFree - s.beginFree ≥ nodeSize c * nObjs
  · refine ⟨_, nObjs, ?_, hobjs, Nat.le_refl _, h.takeFront hall (hdvd nObjs)⟩
    unfold chunkAlloc
    simp [h.leftSize, hall]
  · let m := (s.endFree - s.beginFree) / nodeSize c
    have hm : 0 < m := Nat.div_pos hroom (nodeSize_pos c)
    have hle : m ≤ nObjs := (Nat.div_lt_of_lt_mul (Nat.lt_of_not_ge hall)).le
    refine ⟨_, m, ?_, hm, hle, h.takeFront (Nat.mul_div_le _ _) (hdvd m)⟩
    unfold chunkAlloc
    simp [h.leftSize, hall, hroom, m]

theorem kAlign_dvd_bytesToGet (s : MemPool) (c nObjs : ℕ) :
    kAlign ∣ s.bytesToGet (nodeSize c * nObjs) :=
  Nat.dvd_add (Nat.dvd_mul_left_of_dvd (Nat.dvd_mul_right_of_dvd (kAlign_dvd_nodeSize c) _) _)
    (kAlign_dvd_roundUp _)

/-- `chunk_alloc` with one answer of the system: it calls itself once at most. -/
theorem chunkAlloc_spec (h : Sound s nodes L) (hc : c < kFreeListsNum) (hnil : nodes c = [])
    (nObjs : ℕ) (hobjs : 0 < nObjs) {a : Answer}
    (hnode : s.endFree - s.beginFree < nodeSize c → a.node = true)
    (hfresh : ∀ p ∈ a.chunk :: a.master :: a.retries,
      PoolSession.Fresh s (s.bytesToGet (nodeSize c * nObjs)) p) :
    ∃ s' r nodes', chunkAlloc (nodeSize c) [a] s nObjs = some (s', r) ∧ nodes' c = [] ∧
      (∀ p m, r = .ok (p, m) → 0 < m ∧ Sound s' nodes' ((p, nodeSize c * m) :: L)) ∧
      (∀ e, r = .error e → Sound s' nodes' L) := by
  by_cases hroom : nodeSize c ≤ s.endFree - s.beginFree
  · obtain ⟨s', m, e, hm, -, h'⟩ := chunkAlloc_of_le h hobjs hroom [a]
    refine ⟨s', _, nodes, e, hnil, fun p m' hr => ?_, fun _ hr => (nomatch hr)⟩
    obtain ⟨rfl, rfl⟩ := Prod.mk.inj (Except.ok.inj hr)
    exact ⟨hm, h'⟩
  · let n := s.bytesToGet (nodeSize c * nObjs)
    have hmul : nodeSize c ≤ nodeSize c * nObjs := Nat.le_mul_of_pos_right _ hobjs
    have hsize : nodeSize c ≤ n := by
      simp only [n, bytesToGet]
      omega
    obtain ⟨s₁, nodes₁, e₁, h₁, hnodes, hheap, hareas⟩ :=
      keepLeft_spec h hc (Nat.lt_of_not_ge hroom)
    have hn₁ : s₁.bytesToGet (nodeSize c * nObjs) = n := by
      simp only [bytesToGet, hheap, n]
    obtain ⟨s₂, r, nodes₂, e₂, h₂, hnil₂, hroom₂⟩ :=
      getReserve_spec (n := n) (a := a) h₁ (hnode (Nat.lt_of_not_ge hroom)) (hnodes.trans hnil)
        (s.kAlign_dvd_bytesToGet c nObjs) hsize <| by
        simpa only [PoolSession.Fresh, hareas] using hfresh
    have hlt : ¬ nodeSize c * nObjs ≤ s.endFree - s.beginFree := by omega
    cases r with
    | ok u =>
        obtain ⟨s₃, m, e₃, hm, -, h₃⟩ := chunkAlloc_of_le h₂ hobjs (hroom₂ rfl) []
        refine ⟨s₃, .ok (s₂.beginFree, m), nodes₂, ?_, hnil₂, fun p m' hr => ?_,
          fun _ hr => (nomatch hr)⟩
        · rw [chunkAlloc]
          simp [h.leftSize, hlt, hroom, e₁, hn₁, e₂, e₃]
        · obtain ⟨rfl, rfl⟩ := Prod.mk.inj (Except.ok.inj hr)
          exact ⟨hm, h₃⟩
    | error e =>
        refine ⟨s₂, .error e, nodes₂, ?_, hnil₂, fun _ _ hr => (nomatch hr), fun _ _ => h₂⟩
        rw [chunkAlloc]
        simp [h.leftSize, hlt, hroom, e₁, hn₁, e₂]

/-- When there is no node for `allocated_area`, the left-over is in its list, the area that the
system may have given is in no place, and nothing else has changed. -/
theorem chunkAlloc_refused (h : Sound s nodes L) (hc : c < kFreeListsNum) (nObjs : ℕ)
    (hobjs : 0 < nObjs) {a : Answer} (hnode : a.node = false)
    (hleft : s.endFree - s.beginFree < nodeSize c) :
    ∃ s', s.keepLeft (s.endFree - s.beginFree) = some s' ∧
      chunkAlloc (nodeSize c) [a] s nObjs =
        some (s'.malloc (s.bytesToGet (nodeSize c * nObjs)) a.chunk, .error .badAlloc) := by
  obtain ⟨s', -, e, -, -, hheap, -⟩ := keepLeft_spec h hc hleft
  have hn : s'.bytesToGet (nodeSize c * nObjs) = s.bytesToGet (nodeSize c * nObjs) := by
    simp only [bytesToGet, hheap]
  have hmul : nodeSize c ≤ nodeSize c * nObjs := Nat.le_mul_of_pos_right _ hobjs
  have hlt : ¬ nodeSize c * nObjs ≤ s.endFree - s.beginFree := by omega
  refine ⟨s', e, ?_⟩
  rw [chunkAlloc]
  simp [h.leftSize, hlt, Nat.not_le.mpr hleft, e, hn, getReserve_refused hnode]

/-! ## refill -/

/-- The chunks from `cur` on become a list: nothing else is written. -/
theorem linkLoop_spec (hn : 0 < n) (hdn : kAlign ∣ n) : ∀ (r fuel i cur : ℕ) (s : MemPool),
    r < fuel → cur ≠ 0 → kAlign ∣ cur →
    ∃ mem', linkLoop n (i + r + 1) fuel i cur s = some { s with mem := mem' } ∧
      (∀ a, a ∉ strided n (r + 1) cur → mem' a = s.mem a) ∧
      Chain mem' cur (strided n (r + 1) cur)
  | 0, fuel + 1, i, cur, s, _, h0, hd => by
      refine ⟨Function.update s.mem cur 0, ?_, fun a ha => ?_, rfl, h0, ?_⟩
      · simp [linkLoop, storeNext_eq h0 hd]
      · exact Function.update_of_ne (by simpa [strided] using ha) _ _
      · simp [strided, Chain]
  | r + 1, fuel + 1, i, cur, s, hfuel, h0, hd => by
      obtain ⟨mem', e, hframe, hchain⟩ := linkLoop_spec hn hdn r fuel (i + 1) (cur + n)
        { s with mem := Function.update s.mem cur (cur + n) } (by omega)
        (by omega) (Nat.dvd_add hd hdn)
      have hcur : cur ∉ strided n (r + 1) (cur + n) := fun hmem => by
        have := (mem_strided hmem).1
        omega
      refine ⟨mem', ?_, fun a ha => ?_, rfl, h0, ?_⟩
      · have hlast : i + (r + 1) + 1 ≠ i + 1 := by omega
        have hcount : i + (r + 1) + 1 = i + 1 + r + 1 := by omega
        rw [linkLoop, if_neg hlast, storeNext_eq h0 hd, hcount]
        exact e
      · have ha : a ≠ cur ∧ a ∉ strided n (r + 1) (cur + n) := by
          simpa only [strided, List.mem_cons, not_or] using ha
        rw [hframe a ha.2]
        exact Function.update_of_ne ha.1 _ _
      · have hcell : mem' cur = cur + n := (hframe cur hcur).trans (Function.update_self ..)
        rw [hcell]
        exact hchain

/-- Of chunks in a row the first stays out and the others become list `c`, which
was empty. -/
theorem linkRest_spec {chunk r : ℕ}
    (h : Sound s nodes ((chunk, nodeSize c * (1 + r + 1)) :: L)) (hc : c < kFreeListsNum)
    (hnil : nodes c = []) :
    ∃ s₁ s' nodes', s.setList (getFreelistIndex (nodeSize c)) (chunk + nodeSize c) = some s₁ ∧
      linkLoop (nodeSize c) (1 + r + 1) (1 + r + 1) 1 (chunk + nodeSize c) s₁ = some s' ∧
      Sound s' nodes' ((chunk, nodeSize c) :: L) := by
  have hpos := nodeSize_pos c
  have hcut : s.Carving nodes ((strided (nodeSize c) (r + 1) (chunk + nodeSize c)).map
      (·, nodeSize c) ++ (chunk, nodeSize c) :: s.reserve :: L) := by
    have hperm := List.Perm.swap (chunk, nodeSize c * (1 + r + 1)) s.reserve L
    have hall := (h.carved.reorder hperm).cut (kAlign_dvd_nodeSize c)
    rw [Nat.add_comm 1 r] at hall
    exact hall.reorder List.perm_middle.symm
  have hdvd : kAlign ∣ chunk := (hcut.aligned_of_mem (b := (chunk, nodeSize c))
    (List.mem_append_right _ List.mem_cons_self)).1
  obtain ⟨mem', e, hframe, hchain⟩ := linkLoop_spec hpos (kAlign_dvd_nodeSize c) r
    (1 + r + 1) 1 (chunk + nodeSize c)
    { s with freeLists := Function.update s.freeLists c (chunk + nodeSize c) }
    (by omega) (by omega) (Nat.dvd_add hdvd (kAlign_dvd_nodeSize c))
  have hlink := Carved.relink _ hcut nodeSize_pos hc hframe (by simpa [hnil] using hchain)
  refine ⟨_, _, _, ?_, e, hlink.reorder (List.Perm.swap _ _ _), h.ordered⟩
  rw [getFreelistIndex_nodeSize hc, setList_eq hc]

/-- `refill` on an empty list: the first of its chunks goes to the caller. -/
theorem refill_spec (h : Sound s nodes L) (hc : c < kFreeListsNum) (hnil : nodes c = [])
    {a : Answer} (hnode : s.endFree - s.beginFree < nodeSize c → a.node = true)
    (hfresh : ∀ p ∈ a.chunk :: a.master :: a.retries,
      PoolSession.Fresh s (s.bytesToGet (nodeSize c * 20)) p) :
    ∃ s' r nodes', s.refill (nodeSize c) a = some (s', r) ∧
      (∀ p, r = .ok p → Sound s' nodes' ((p, nodeSize c) :: L)) ∧
      (∀ e, r = .error e → Sound s' nodes' L) := by
  obtain ⟨s₁, r, nodes₁, e₁, hnil₁, hok, herr⟩ :=
    chunkAlloc_spec h hc hnil 20 (by omega) hnode hfresh
  cases r with
  | error e =>
      refine ⟨s₁, .error e, nodes₁, ?_, fun _ hr => (nomatch hr), fun e _ => herr e rfl⟩
      simp [refill, e₁]
  | ok chunks =>
      obtain ⟨chunk, m⟩ := chunks
      obtain ⟨hm, h₁⟩ := hok chunk m rfl
      by_cases hone : m = 1
      · subst hone
        refine ⟨s₁, .ok chunk, nodes₁, by simp [refill, e₁], fun p hr => ?_,
          fun _ hr => (nomatch hr)⟩
        cases hr
        simpa using h₁
      · obtain ⟨r, rfl⟩ : ∃ r, m = 1 + r + 1 := ⟨m - 2, by omega⟩
        obtain ⟨s₂, s₃, nodes₃, e₂, e₃, h₃⟩ := linkRest_spec h₁ hc hnil₁
        refine ⟨s₃, .ok chunk, nodes₃, by simp [refill, e₁, e₂, e₃], fun p hr => ?_,
          fun _ hr => (nomatch hr)⟩
        cases hr
        exact h₃

end MemPool

end Muduo
