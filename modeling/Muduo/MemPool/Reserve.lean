/-
# `Muduo.MemPool.Reserve` — where the memory of a request comes from

`Outcome` says what a call has done about the areas of the system, whatever it
returns.  `asks` stands for: the list is empty, and the reserve has no room for a chunk;
`full` for: nor has a list of chunks that are large enough a node.

    pooled     out of a list or the reserve: only when the pool is not full
    chunk      an area of the `::malloc` in chunk_alloc, which is recorded
    master     an area of `master_alloc`, which is not: the pool is full, and
               that `::malloc` has failed
    thrown     bad_alloc: as before, and `master_alloc` has failed too
    refused    bad_alloc: the call asks, and `allocated_area` has got no node; an area of
               that `::malloc` is recorded nowhere
-/
import Muduo.MemPool.Carve

namespace Muduo

open Tiling Runs

namespace MemPool

variable {s s' : MemPool} {k size n p q left nObjs : ℕ} {a : Answer}

/-! ## What the steps of a call write -/

theorem setList_inv (h : s.setList k p = some s') :
    s' = { s with freeLists := Function.update s.freeLists k p } := by
  obtain ⟨_, -, h⟩ := Option.bind_eq_some_iff.mp h
  exact (Option.some.inj h).symm

theorem storeNext_inv (h : s.storeNext p q = some s') :
    s' = { s with mem := Function.update s.mem p q } := by
  obtain ⟨_, -, h⟩ := Option.bind_eq_some_iff.mp h
  exact (Option.some.inj h).symm

theorem getList_inv (h : s.getList k = some p) : p = s.freeLists k := by
  obtain ⟨_, -, h⟩ := Option.bind_eq_some_iff.mp h
  exact (Option.some.inj h).symm

theorem pushFront_inv (h : s.pushFront k p = some s') :
    s' = { s with mem := Function.update s.mem p (s.freeLists k),
                  freeLists := Function.update s.freeLists k p } := by
  obtain ⟨q, hq, h⟩ := Option.bind_eq_some_iff.mp h
  obtain rfl := getList_inv hq
  obtain ⟨s₁, hs₁, h⟩ := Option.bind_eq_some_iff.mp h
  obtain rfl := storeNext_inv hs₁
  exact setList_inv h

theorem popFront_inv (h : s.popFront k p = some s') :
    ∃ q, s' = { s with freeLists := Function.update s.freeLists k q } := by
  obtain ⟨q, -, h⟩ := Option.bind_eq_some_iff.mp h
  exact ⟨q, setList_inv h⟩

theorem linkLoop_inv : ∀ {fuel i cur : ℕ} {s : MemPool}, linkLoop n nObjs fuel i cur s = some s' →
    ∃ mem, s' = { s with mem := mem }
  | 0, _, _, _, h => nomatch h
  | fuel + 1, i, cur, s, h => by
      rw [linkLoop] at h
      split at h
      · exact ⟨_, storeNext_inv h⟩
      · obtain ⟨s₁, hs₁, h⟩ := Option.bind_eq_some_iff.mp h
        obtain rfl := storeNext_inv hs₁
        obtain ⟨mem, rfl⟩ := linkLoop_inv h
        exact ⟨mem, rfl⟩

/-- The left-over goes to the list of its size. -/
theorem keepLeft_inv (h : s.keepLeft left = some s') :
    ∃ mem lists, s' = { s with mem := mem, freeLists := lists } ∧
      (∀ x, (left = 0 ∨ x ≠ s.beginFree) → mem x = s.mem x) ∧
      ∀ k < kFreeListsNum, left < nodeSize k → lists k = s.freeLists k := by
  unfold keepLeft at h
  split at h
  · next hpos =>
      obtain ⟨_, hmod, h⟩ := Option.bind_eq_some_iff.mp h
      have hmod : left % kAlign = 0 := assert_eq_some_iff.mp hmod
      refine ⟨_, _, pushFront_inv h, fun x hx => ?_, fun k hk hlt => ?_⟩
      · exact Function.update_of_ne (hx.resolve_left hpos.ne') _ _
      · refine Function.update_of_ne (fun he => ?_) _ _
        simp only [getFreelistIndex, nodeSize, kAlign, kFreeListsNum, kMaxBytes] at *
        omega
  · exact ⟨s.mem, s.freeLists, (Option.some.inj h).symm, fun _ _ => rfl, fun _ _ _ => rfl⟩

/-! ## What is left in the pool -/

/-- No list of chunks of `size` bytes or more has a node. -/
def NoChunk (s : MemPool) (size : ℕ) : Prop :=
  ∀ k < kFreeListsNum, size ≤ nodeSize k → s.freeLists k = 0

/-- A request of `n` bytes goes to the system: its list is empty, and the reserve has no
room for a chunk. -/
def Asks (s : MemPool) (n : ℕ) : Prop :=
  s.freeLists (getFreelistIndex n) = 0 ∧ s.endFree - s.beginFree < roundUp n

/-- The pool has nothing for a request of `n` bytes. -/
def Exhausted (s : MemPool) (n : ℕ) : Prop :=
  s.endFree - s.beginFree < roundUp n ∧ s.NoChunk (roundUp n)

instance (s : MemPool) (size : ℕ) : Decidable (s.NoChunk size) := by
  unfold NoChunk; infer_instance

instance (s : MemPool) (n : ℕ) : Decidable (s.Asks n) := inferInstanceAs (Decidable (_ ∧ _))

instance (s : MemPool) (n : ℕ) : Decidable (s.Exhausted n) := by
  unfold Exhausted; infer_instance

/-- The search fails exactly when there is no chunk. -/
theorem searchLoop_none_iff : ∀ {fuel i : ℕ} {r : Option (ℕ × ℕ)}, kAlign ∣ i → 0 < i →
    s.searchLoop fuel i = some r → (r = none ↔ s.NoChunk i)
  | 0, _, _, _, _, h => nomatch h
  | fuel + 1, i, r, hd, h0, h => by
      unfold searchLoop at h
      by_cases hi : i ≤ kMaxBytes
      · obtain ⟨c, hc, rfl⟩ := exists_nodeSize h0 hi hd
        rw [if_pos hi, getFreelistIndex_nodeSize hc, getList_eq hc] at h
        simp only [Option.bind_eq_bind, Option.bind_some] at h
        by_cases hp : s.freeLists c = 0
        · rw [if_neg (not_not.mpr hp)] at h
          have ih := searchLoop_none_iff (Nat.dvd_add hd (Nat.dvd_refl _)) (by omega) h
          rw [ih]
          constructor
          · intro hno k hk hle
            rcases Nat.lt_or_ge c k with hlt | hge
            · refine hno k hk ?_
              simp only [nodeSize, kAlign] at *
              omega
            · have hck : c = k := by
                simp only [nodeSize, kAlign] at hle
                omega
              exact hck ▸ hp
          · exact fun hno k hk hle => hno k hk (by omega)
        · rw [if_pos hp] at h
          obtain rfl := Option.some.inj h
          refine iff_of_false (Option.some_ne_none _) fun hno => ?_
          exact hp (hno c hc (Nat.le_refl _))
      · rw [if_neg hi] at h
        obtain rfl := Option.some.inj h
        refine iff_of_true rfl fun k hk hle => absurd hle ?_
        simp only [nodeSize, kAlign, kFreeListsNum, kMaxBytes] at *
        omega

/-! ## The outcome of a call -/

/-- The areas that `~mem_pool` will give back. -/
def recorded (s : MemPool) : List ℕ := s.allocatedArea.filter (· ≠ 0)

theorem recorded_concat (s : MemPool) (p : ℕ) :
    (s.allocatedArea ++ [p]).filter (· ≠ 0) = s.recorded ++ if p = 0 then [] else [p] := by
  rw [List.filter_append, recorded]
  by_cases hp : p = 0
  · simp [hp]
  · simp [hp]

/-- What a call that may ask the system for `n` bytes has done; `asks` says that it does, `full`
that it has to. -/
inductive Outcome (s s' : MemPool) (n : ℕ) (a : Answer) (asks full : Prop) {α : Type} :
    Except BadAlloc α → Prop
  | pooled (x : α) (hnode : asks → a.node = true) (hfull : ¬ full) (areas : s'.areas = s.areas)
      (hrec : s'.recorded = s.recorded) (heapSize : s'.heapSize = s.heapSize) :
      Outcome s s' n a asks full (.ok x)
  | chunk (x : α) (hnode : a.node = true) (hchunk : a.chunk ≠ 0)
      (areas : s'.areas = (a.chunk, n) :: s.areas) (hrec : s'.recorded = s.recorded ++ [a.chunk])
      (heapSize : s'.heapSize = s.heapSize + n) : Outcome s s' n a asks full (.ok x)
  | master (x : α) (q : ℕ) (hnode : a.node = true) (hchunk : a.chunk = 0) (hfull : full)
      (hq : q ∈ a.master :: a.retries) (hq0 : q ≠ 0) (areas : s'.areas = (q, n) :: s.areas)
      (hrec : s'.recorded = s.recorded) (heapSize : s'.heapSize = s.heapSize + n) :
      Outcome s s' n a asks full (.ok x)
  | thrown (e : BadAlloc) (hnode : a.node = true) (hchunk : a.chunk = 0) (hfull : full)
      (hall : ∀ q ∈ a.master :: a.retries, q = 0) (areas : s'.areas = s.areas)
      (hrec : s'.recorded = s.recorded) (heapSize : s'.heapSize = s.heapSize)
      (empty : s'.beginFree = 0 ∧ s'.endFree = 0)
      (mem : ∀ x, ¬ Within s.reserve x → s'.mem x = s.mem x) :
      Outcome s s' n a asks full (.error e)
  | refused (e : BadAlloc) (hasks : asks) (hnode : a.node = false)
      (areas : s'.areas = (s.malloc n a.chunk).areas) (hrec : s'.recorded = s.recorded)
      (heapSize : s'.heapSize = s.heapSize) : Outcome s s' n a asks full (.error e)

variable {asks full : Prop}

/-- What comes after an area was found touches only the lists and the reserve. -/
theorem Outcome.after {α β : Type} {x : α} (h : Outcome s s' n a asks full (.ok x)) (u : MemPool)
    (areas : u.areas = s'.areas) (hrec : u.allocatedArea = s'.allocatedArea)
    (heapSize : u.heapSize = s'.heapSize) (y : β) : Outcome s u n a asks full (.ok y) := by
  have hrec : u.recorded = s'.recorded := congrArg (List.filter _) hrec
  cases h with
  | pooled _ hnode hfull ha hr hh =>
      exact .pooled y hnode hfull (areas.trans ha) (hrec.trans hr) (heapSize.trans hh)
  | chunk _ hnode hchunk ha hr hh =>
      exact .chunk y hnode hchunk (areas.trans ha) (hrec.trans hr) (heapSize.trans hh)
  | master _ q hnode hchunk hfull hq hq0 ha hr hh =>
      exact .master y q hnode hchunk hfull hq hq0 (areas.trans ha) (hrec.trans hr)
        (heapSize.trans hh)

/-- `::malloc` adds its area, if there is one, and changes nothing else. -/
theorem malloc_eq (s : MemPool) (n p : ℕ) :
    s.malloc n p = { s with areas := if p = 0 then s.areas else (p, n) :: s.areas } := by
  unfold malloc
  split <;> rfl

theorem areas_malloc (s : MemPool) (n p : ℕ) :
    (s.malloc n p).areas = if p = 0 then s.areas else (p, n) :: s.areas := by
  rw [malloc_eq]

/-- What comes before it touches only the lists, and the memory of the reserve. -/
theorem Outcome.before {α : Type} {r : Except BadAlloc α} {asks' full' : Prop} {mem lists : ℕ → ℕ}
    (h : Outcome { s with mem := mem, freeLists := lists } s' n a asks' full' r)
    (hasks : asks' ↔ asks) (hiff : full' ↔ full)
    (hmem : ∀ x, ¬ Within s.reserve x → mem x = s.mem x) : Outcome s s' n a asks full r := by
  cases h with
  | pooled x hnode hfull ha hr hh =>
      exact .pooled x (fun h => hnode (hasks.mpr h)) (fun h => hfull (hiff.mpr h)) ha hr hh
  | chunk x hnode hchunk ha hr hh => exact .chunk x hnode hchunk ha hr hh
  | master x q hnode hchunk hfull hq hq0 ha hr hh =>
      exact .master x q hnode hchunk (hiff.mp hfull) hq hq0 ha hr hh
  | thrown e hnode hchunk hfull hall ha hr hheap hempty hm =>
      exact .thrown e hnode hchunk (hiff.mp hfull) hall ha hr hheap hempty fun x hx =>
        (hm x hx).trans (hmem x hx)
  | refused e ha' hnode ha hr hh =>
      refine .refused e (hasks.mp ha') hnode ?_ hr hh
      rw [ha, areas_malloc, areas_malloc]

/-- An exception is passed on. -/
theorem Outcome.passed {α β : Type} {e : BadAlloc}
    (h : Outcome s s' n a asks full (.error e : Except BadAlloc α)) :
    Outcome s s' n a asks full (.error e : Except BadAlloc β) := by
  cases h with
  | thrown _ hnode hchunk hfull hall ha hr hheap hempty hm =>
      exact .thrown e hnode hchunk hfull hall ha hr hheap hempty hm
  | refused _ hasks hnode ha hr hh => exact .refused e hasks hnode ha hr hh

/-- `master_alloc` throws when every answer was null. -/
theorem masterAllocate_error {e : BadAlloc} (h : s.masterAllocate n a = (s', .error e)) :
    ∀ q ∈ a.master :: a.retries, q = 0 := by
  have hoom : ∀ ps : List ℕ, s.oomMalloc n ps = (s', .error e) → ∀ q ∈ ps, q = 0 := by
    intro ps
    induction ps with
    | nil => exact fun _ => nofun
    | cons p ps ih =>
        intro h
        by_cases hp : p = 0
        · rw [oomMalloc, if_neg (not_not.mpr hp)] at h
          exact List.forall_mem_cons.mpr ⟨hp, ih h⟩
        · rw [oomMalloc, if_pos hp] at h
          cases (Prod.mk.inj h).2
  unfold masterAllocate at h
  split at h
  · next hm => exact List.forall_mem_cons.mpr ⟨hm, hoom _ h⟩
  · cases (Prod.mk.inj h).2

/-- When `::malloc` returns null the lists are searched, and then `master_alloc` is asked. -/
theorem getReserve_null {r : Except BadAlloc Unit} (hd : kAlign ∣ size) (h0 : 0 < size)
    (hnode : a.node = true) (hchunk : a.chunk = 0) (h : s.getReserve size n a = some (s', r)) :
    Outcome s s' n a True (s.NoChunk size) r := by
  have hnone : s.malloc n a.chunk = s := if_pos hchunk
  have hrec := recorded_concat s a.chunk
  rw [if_pos hchunk, List.append_nil] at hrec
  unfold getReserve at h
  dsimp only at h
  rw [if_pos hnode, if_pos hchunk, hnone] at h
  obtain ⟨found, hfound, h⟩ := Option.bind_eq_some_iff.mp h
  have hno := searchLoop_none_iff hd h0 hfound
  cases found with
  | some found =>
      obtain ⟨s₁, hs₁, h⟩ := Option.bind_eq_some_iff.mp h
      obtain ⟨q, rfl⟩ := popFront_inv hs₁
      obtain ⟨rfl, rfl⟩ := Prod.mk.inj (Option.some.inj h)
      exact .pooled () (fun _ => hnode) (fun hfull => nomatch hno.mpr hfull) rfl hrec rfl
  | none =>
      have hfull : s.NoChunk size := hno.mp rfl
      dsimp only at h
      rcases masterAllocate_spec { s with
          allocatedArea := s.allocatedArea ++ [a.chunk], beginFree := a.chunk, endFree := 0 } n a
        with e | ⟨q, hq, hq0, e⟩
      · rw [e] at h
        obtain ⟨rfl, rfl⟩ := Prod.mk.inj (Option.some.inj h)
        exact .thrown _ hnode hchunk hfull (masterAllocate_error e) rfl hrec rfl ⟨hchunk, rfl⟩
          fun _ _ => rfl
      · rw [e] at h
        obtain ⟨rfl, rfl⟩ := Prod.mk.inj (Option.some.inj h)
        refine .master () q hnode hchunk hfull hq hq0 ?_ ?_ ?_
        · simp [grow, malloc, hq0]
        · rw [recorded, grow, malloc, if_neg hq0]
          exact hrec
        · simp [grow, malloc, hq0]

theorem getReserve_outcome {r : Except BadAlloc Unit} (hd : kAlign ∣ size) (h0 : 0 < size)
    (h : s.getReserve size n a = some (s', r)) : Outcome s s' n a True (s.NoChunk size) r := by
  cases hnode : a.node with
  | false =>
      rw [getReserve_refused hnode, malloc_eq] at h
      obtain ⟨rfl, rfl⟩ := Prod.mk.inj (Option.some.inj h)
      exact .refused _ trivial hnode (areas_malloc s n a.chunk).symm rfl rfl
  | true =>
      by_cases hchunk : a.chunk = 0
      · exact getReserve_null hd h0 hnode hchunk h
      · unfold getReserve at h
        dsimp only at h
        rw [if_pos hnode, if_neg hchunk] at h
        obtain ⟨rfl, rfl⟩ := Prod.mk.inj (Option.some.inj h)
        have hrec := recorded_concat s a.chunk
        rw [if_neg hchunk] at hrec
        refine .chunk () hnode hchunk ?_ ?_ ?_
        · simp [grow, malloc, hchunk]
        · rw [recorded, grow, malloc, if_neg hchunk]
          exact hrec
        · simp [grow, malloc, hchunk]

/-- Without another answer of the system `chunk_alloc` takes from the reserve. -/
theorem chunkAlloc_nil_inv {r : Except BadAlloc (ℕ × ℕ)}
    (h : chunkAlloc size [] s nObjs = some (s', r)) :
    ∃ b x, s' = { s with beginFree := b } ∧ r = .ok x := by
  rw [chunkAlloc] at h
  obtain ⟨left, -, h⟩ := Option.bind_eq_some_iff.mp h
  dsimp only at h
  split at h
  · obtain ⟨rfl, rfl⟩ := Prod.mk.inj (Option.some.inj h)
    exact ⟨_, _, rfl, rfl⟩
  · split at h
    · obtain ⟨rfl, rfl⟩ := Prod.mk.inj (Option.some.inj h)
      exact ⟨_, _, rfl, rfl⟩
    · cases h

theorem chunkAlloc_outcome {r : Except BadAlloc (ℕ × ℕ)} (hd : kAlign ∣ size) (h0 : 0 < size)
    (hobjs : 0 < nObjs) (h : chunkAlloc size [a] s nObjs = some (s', r)) :
    Outcome s s' (s.bytesToGet (size * nObjs)) a (s.endFree - s.beginFree < size)
      (s.endFree - s.beginFree < size ∧ s.NoChunk size) r := by
  rw [chunkAlloc] at h
  obtain ⟨left, hleft, h⟩ := Option.bind_eq_some_iff.mp h
  have hleft : left = s.endFree - s.beginFree := by
    obtain ⟨_, -, hleft⟩ := Option.bind_eq_some_iff.mp hleft
    exact (Option.some.inj hleft).symm
  have hmul : size ≤ size * nObjs := Nat.le_mul_of_pos_right _ hobjs
  dsimp only at h
  split at h
  · next hall =>
      obtain ⟨rfl, rfl⟩ := Prod.mk.inj (Option.some.inj h)
      exact .pooled _ (fun hasks => by omega) (fun hfull => by omega) rfl rfl rfl
  · split at h
    · next hroom =>
        obtain ⟨rfl, rfl⟩ := Prod.mk.inj (Option.some.inj h)
        exact .pooled _ (fun hasks => by omega) (fun hfull => by omega) rfl rfl rfl
    · next hroom =>
        obtain ⟨s₁, hs₁, h⟩ := Option.bind_eq_some_iff.mp h
        obtain ⟨⟨s₂, r₂⟩, hs₂, h⟩ := Option.bind_eq_some_iff.mp h
        obtain ⟨mem, lists, rfl, hmem, hlists⟩ := keepLeft_inv hs₁
        have hfull : NoChunk { s with mem := mem, freeLists := lists } size ↔
            s.endFree - s.beginFree < size ∧ s.NoChunk size := by
          rw [and_iff_right (by omega)]
          refine forall₂_congr fun k hk => forall_congr' fun hle => ?_
          show lists k = 0 ↔ s.freeLists k = 0
          rw [hlists k hk (by omega)]
        have hout : Outcome s s₂ (s.bytesToGet (size * nObjs)) a (s.endFree - s.beginFree < size)
            (s.endFree - s.beginFree < size ∧ s.NoChunk size) r₂ := by
          refine (getReserve_outcome hd h0 hs₂).before (iff_of_true trivial (by omega)) hfull
            fun x hx => hmem x ?_
          simp only [Within, reserve] at hx
          omega
        cases r₂ with
        | ok u =>
            obtain ⟨b, x, rfl, rfl⟩ := chunkAlloc_nil_inv h
            refine hout.after _ ?_ ?_ ?_ x <;> rfl
        | error e =>
            obtain ⟨rfl, rfl⟩ := Prod.mk.inj (Option.some.inj h)
            exact hout.passed

theorem refill_outcome {r : Except BadAlloc ℕ} (hd : kAlign ∣ size) (h0 : 0 < size)
    (h : s.refill size a = some (s', r)) :
    Outcome s s' (s.bytesToGet (size * 20)) a (s.endFree - s.beginFree < size)
      (s.endFree - s.beginFree < size ∧ s.NoChunk size) r := by
  obtain ⟨⟨s₁, r₁⟩, hs₁, h⟩ := Option.bind_eq_some_iff.mp h
  have hout := chunkAlloc_outcome hd h0 (by decide) hs₁
  cases r₁ with
  | error e =>
      obtain ⟨rfl, rfl⟩ := Prod.mk.inj (Option.some.inj h)
      exact hout.passed
  | ok chunks =>
      obtain ⟨chunk, m⟩ := chunks
      dsimp only at h
      split at h
      · obtain ⟨rfl, rfl⟩ := Prod.mk.inj (Option.some.inj h)
        refine hout.after _ ?_ ?_ ?_ chunk <;> rfl
      · obtain ⟨s₂, hs₂, h⟩ := Option.bind_eq_some_iff.mp h
        obtain ⟨s₃, hs₃, h⟩ := Option.bind_eq_some_iff.mp h
        obtain rfl := setList_inv hs₂
        obtain ⟨mem, rfl⟩ := linkLoop_inv hs₃
        obtain ⟨rfl, rfl⟩ := Prod.mk.inj (Option.some.inj h)
        refine hout.after _ ?_ ?_ ?_ chunk <;> rfl

/-- What `allocate` has done for a request that is not passed on to `master_alloc`. -/
theorem allocate_outcome {r : Except BadAlloc ℕ} (h₁ : 1 ≤ n) (h₂ : n ≤ kMaxBytes)
    (h : s.allocate n a = some (s', r)) :
    Outcome s s' (s.bytesToGet (roundUp n * 20)) a (s.Asks n) (s.Exhausted n) r := by
  obtain ⟨c, hc, hround, hidx⟩ := exists_class h₁ h₂
  rw [allocate, if_neg (by omega), hidx, getList_eq hc] at h
  simp only [Option.bind_eq_bind, Option.bind_some] at h
  split at h
  · next hnil =>
      have hasks : s.Asks n = (s.endFree - s.beginFree < roundUp n) := by
        rw [Asks, hidx]
        exact propext (and_iff_right hnil)
      rw [hasks]
      exact refill_outcome (kAlign_dvd_roundUp n) (hround ▸ nodeSize_pos c) h
  · next hne =>
      obtain ⟨s₁, hs₁, h⟩ := Option.bind_eq_some_iff.mp h
      obtain ⟨q, rfl⟩ := popFront_inv hs₁
      obtain ⟨rfl, rfl⟩ := Prod.mk.inj (Option.some.inj h)
      exact .pooled _ (fun hasks => absurd (hidx ▸ hasks.1) hne)
        (fun hfull => hne (hfull.2 c hc hround.le)) rfl rfl rfl

end MemPool

end Muduo
