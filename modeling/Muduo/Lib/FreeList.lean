/-
# `Muduo.Lib.FreeList` — free lists threaded through the memory they describe

An allocator with `K` free lists keeps the links of a list inside its free
nodes: cell `a` of a node holds `next a`.  Nodes of list `k` are `w k` bytes.

    Carved w K d next head nodes L as

says that the lists start at `head`, run through `nodes`, and that their nodes
together with the pieces `L` tile the areas `as`, everything a multiple of `d`.
`L` is what the lists do not own: blocks in use, a reserve not cut up yet.  A
store into a piece of `L` cannot damage a list (`Carved.store`), and a piece
moves between `L` and a list without being copied (`Carved.take`, `Carved.put`,
`Carved.relink`).
-/
import Mathlib.Algebra.Group.Basic
import Muduo.Lib.Tiling

namespace Tiling

variable {w next next' head : ℕ → ℕ} {nodes : ℕ → List ℕ} {L L' areas : List Piece}
  {K d k p m n : ℕ} {as qs : List ℕ}

/-! ## One list -/

/-- The list that starts at `p` where cell `a` holds `next a`; `0` ends a list. -/
def Chain (next : ℕ → ℕ) : ℕ → List ℕ → Prop
  | p, [] => p = 0
  | p, a :: as => p = a ∧ a ≠ 0 ∧ Chain next (next a) as

theorem Chain.congr : ∀ {as : List ℕ} {p : ℕ}, Chain next p as →
    (∀ a ∈ as, next' a = next a) → Chain next' p as
  | [], _, h, _ => h
  | a :: as, _, ⟨hp, ha, h⟩, he => by
      refine ⟨hp, ha, ?_⟩
      rw [he a List.mem_cons_self]
      exact h.congr fun b hb => he b (List.mem_cons_of_mem _ hb)

theorem Chain.eq_nil (h : Chain next 0 as) : as = [] := by
  cases as with
  | nil => rfl
  | cons a as => exact absurd h.1.symm h.2.1

theorem Chain.eq_cons (h : Chain next p as) (hp : p ≠ 0) :
    ∃ as', as = p :: as' ∧ Chain next (next p) as' := by
  cases as with
  | nil => exact absurd h hp
  | cons a as =>
      obtain ⟨rfl, -, h⟩ := h
      exact ⟨as, rfl, h⟩

/-! ## The nodes of all lists -/

/-- The nodes of the first `K` lists, as pieces. -/
def freePieces (w : ℕ → ℕ) (K : ℕ) (nodes : ℕ → List ℕ) : List Piece :=
  (List.range K).flatMap fun k => (nodes k).map (·, w k)

theorem mem_freePieces {b : Piece} :
    b ∈ freePieces w K nodes ↔ ∃ k < K, ∃ a ∈ nodes k, (a, w k) = b := by
  simp [freePieces]

theorem freePieces_nil : freePieces w K (fun _ => []) = [] := by
  simp [freePieces]

/-- One member of a family of lists grows in front. -/
theorem flatMap_perm_append {α : Type*} {ks : List ℕ} {f g : ℕ → List α} {as : List α}
    (hnd : ks.Nodup) (hk : k ∈ ks) (hg : g k = as ++ f k) (hne : ∀ j, j ≠ k → g j = f j) :
    (ks.flatMap g).Perm (as ++ ks.flatMap f) := by
  obtain ⟨s, t, rfl⟩ := List.append_of_mem hk
  have hs : s.flatMap g = s.flatMap f := List.flatMap_congr fun j hj => hne j <| by
    rintro rfl
    exact (List.nodup_append.mp hnd).2.2 j hj j List.mem_cons_self rfl
  have ht : t.flatMap g = t.flatMap f := List.flatMap_congr fun j hj => hne j <| by
    rintro rfl
    exact (List.nodup_cons.mp (List.nodup_append.mp hnd).2.1).1 hj
  simp only [List.flatMap_append, List.flatMap_cons, hs, ht, hg, List.append_assoc]
  exact List.perm_append_comm_assoc _ _ _

theorem freePieces_update (hk : k < K) (qs : List ℕ) :
    (freePieces w K (Function.update nodes k (qs ++ nodes k))).Perm
      (qs.map (·, w k) ++ freePieces w K nodes) := by
  refine flatMap_perm_append (k := k) List.nodup_range (List.mem_range.mpr hk) ?_ ?_
  · simp
  · intro j hj
    simp [hj]

/-! ## Carved memory -/

/-- The lists `head` run through `nodes`, and their nodes tile `areas` together
with the pieces `L`. -/
structure Carved (w : ℕ → ℕ) (K d : ℕ) (next head : ℕ → ℕ) (nodes : ℕ → List ℕ)
    (L areas : List Piece) : Prop where
  chain : ∀ k < K, Chain next (head k) (nodes k)
  tiles : Tiles (freePieces w K nodes ++ L) areas
  aligned : ∀ b ∈ freePieces w K nodes ++ L, d ∣ b.1 ∧ d ∣ b.2
  distinct : ∀ x, covers areas x ≤ 1
  nonnull : covers areas 0 = 0

namespace Carved

theorem empty : Carved w K d next (fun _ => 0) (fun _ => []) [] [] where
  chain _ _ := rfl
  tiles x := by rw [freePieces_nil, List.append_nil]
  aligned b hb := by simp [freePieces_nil] at hb
  distinct x := by simp [covers]
  nonnull := rfl

/-- The same memory, its pieces listed in another order or cut in another way. -/
theorem retile (h : Carved w K d next head nodes L areas) (hL : Tiles L' L)
    (ha : ∀ b ∈ L', d ∣ b.1 ∧ d ∣ b.2) : Carved w K d next head nodes L' areas where
  chain := h.chain
  tiles x := by rw [covers_append, hL x, ← covers_append]; exact h.tiles x
  aligned b hb := by
    rcases List.mem_append.mp hb with hb | hb
    · exact h.aligned b (List.mem_append_left _ hb)
    · exact ha b hb
  distinct := h.distinct
  nonnull := h.nonnull

theorem aligned_of_mem (h : Carved w K d next head nodes L areas) {b : Piece} (hb : b ∈ L) :
    d ∣ b.1 ∧ d ∣ b.2 :=
  h.aligned b (List.mem_append_right _ hb)

theorem reorder (h : Carved w K d next head nodes L areas) (hp : L.Perm L') :
    Carved w K d next head nodes L' areas :=
  h.retile (fun x => (covers_perm hp x).symm) fun _ hb => h.aligned_of_mem (hp.mem_iff.mpr hb)

/-- A piece outside the lists is cut in two. -/
theorem split (h : Carved w K d next head nodes ((p, m + n) :: L) areas) (hm : d ∣ m) :
    Carved w K d next head nodes ((p, m) :: (p + m, n) :: L) areas := by
  obtain ⟨hp, hmn⟩ := h.aligned_of_mem List.mem_cons_self
  refine h.retile (fun x => covers_split p m n L x) fun b hb => ?_
  rcases List.mem_cons.mp hb with rfl | hb
  · exact ⟨hp, hm⟩
  · rcases List.mem_cons.mp hb with rfl | hb
    · exact ⟨Nat.dvd_add hp hm, (Nat.dvd_add_right hm).mp hmn⟩
    · exact h.aligned_of_mem (List.mem_cons_of_mem _ hb)

/-- A piece outside the lists is cut into equal ones. -/
theorem cut (h : Carved w K d next head nodes ((p, n * m) :: L) areas) (hn : d ∣ n) :
    Carved w K d next head nodes ((strided n m p).map (·, n) ++ L) areas := by
  obtain ⟨hp, -⟩ := h.aligned_of_mem List.mem_cons_self
  refine h.retile (fun x => covers_strided L x m p) fun b hb => ?_
  rcases List.mem_append.mp hb with hb | hb
  · obtain ⟨a, ha, rfl⟩ := List.mem_map.mp hb
    obtain ⟨-, j, rfl⟩ := mem_strided ha
    exact ⟨Nat.dvd_add hp (Nat.dvd_mul_right_of_dvd hn j), hn⟩
  · exact h.aligned_of_mem (List.mem_cons_of_mem _ hb)

/-- An empty piece is as good as none. -/
theorem drop_empty (h : Carved w K d next head nodes ((p, 0) :: L) areas) :
    Carved w K d next head nodes L areas :=
  h.retile (fun x => (covers_zero p L x).symm) fun _ hb =>
    h.aligned_of_mem (List.mem_cons_of_mem _ hb)

theorem add_empty (h : Carved w K d next head nodes L areas) (hp : d ∣ p) :
    Carved w K d next head nodes ((p, 0) :: L) areas := by
  refine h.retile (fun x => covers_zero p L x) fun b hb => ?_
  rcases List.mem_cons.mp hb with rfl | hb
  · exact ⟨hp, Nat.dvd_zero d⟩
  · exact h.aligned_of_mem hb

/-- A new area, apart from the old ones, starts outside the lists. -/
theorem gain (h : Carved w K d next head nodes L areas) (hp : 0 < p) (hdp : d ∣ p) (hdn : d ∣ n)
    (hnew : ∀ b ∈ areas, Apart (p, n) b) :
    Carved w K d next head nodes ((p, n) :: L) ((p, n) :: areas) where
  chain := h.chain
  tiles x := by
    rw [covers_perm List.perm_middle, covers_cons, covers_cons, h.tiles x]
  aligned b hb := by
    rcases List.mem_cons.mp (List.perm_middle.mem_iff.mp hb) with rfl | hb
    · exact ⟨hdp, hdn⟩
    · exact h.aligned b hb
  distinct := covers_cons_le_one h.distinct hnew
  nonnull := by
    rw [covers_cons, h.nonnull, if_neg]
    simp only [Within]
    omega

/-- A piece that is not empty does not start at the null address. -/
theorem start_ne_zero (h : Carved w K d next head nodes ((p, n) :: L) areas) (hn : 0 < n) :
    p ≠ 0 := by
  rintro rfl
  have hx : Within (0, n) 0 := ⟨le_refl 0, by omega⟩
  have hmem : (0, n) ∈ freePieces w K nodes ++ (0, n) :: L :=
    List.mem_append_right _ List.mem_cons_self
  have hpos := covers_pos hmem hx
  rw [h.tiles, h.nonnull] at hpos
  exact absurd hpos (Nat.lt_irrefl 0)

/-- No node of a list lies in a piece outside the lists. -/
theorem not_within (h : Carved w K d next head nodes L areas) (hw : ∀ k, 0 < w k) (hk : k < K)
    {a : ℕ} (ha : a ∈ nodes k) {b : Piece} (hb : b ∈ L) : ¬ Within b a := by
  intro hx
  have hnode : Within (a, w k) a := by
    have := hw k
    exact ⟨le_refl a, by simp only; omega⟩
  have h₁ := covers_pos (mem_freePieces.mpr ⟨k, hk, a, ha, rfl⟩) hnode
  have h₂ := covers_pos hb hx
  have h₃ := h.distinct a
  rw [← h.tiles a, covers_append] at h₃
  omega

/-- A store into a piece outside the lists leaves the lists as they are. -/
theorem store (h : Carved w K d next head nodes L areas) (hw : ∀ k, 0 < w k) {b : Piece}
    (hb : b ∈ L) {a : ℕ} (ha : Within b a) (v : ℕ) :
    Carved w K d (Function.update next a v) head nodes L areas where
  chain k hk := (h.chain k hk).congr fun _ hc =>
    Function.update_of_ne (fun he => h.not_within hw hk (he ▸ hc) hb ha) _ _
  tiles := h.tiles
  aligned := h.aligned
  distinct := h.distinct
  nonnull := h.nonnull

/-- Pieces of the size of list `k` are linked in front of that list: only their
own cells are written. -/
theorem relink (qs : List ℕ) (h : Carved w K d next head nodes (qs.map (·, w k) ++ L) areas)
    (hw : ∀ k, 0 < w k) (hk : k < K) (hnext : ∀ a, a ∉ qs → next' a = next a)
    (hc : Chain next' p (qs ++ nodes k)) :
    Carved w K d next' (Function.update head k p) (Function.update nodes k (qs ++ nodes k))
      L areas := by
  have hperm : (freePieces w K (Function.update nodes k (qs ++ nodes k)) ++ L).Perm
      (freePieces w K nodes ++ (qs.map (·, w k) ++ L)) := by
    refine ((freePieces_update hk qs).append_right L).trans ?_
    rw [List.append_assoc]
    exact List.perm_append_comm_assoc _ _ _
  refine ⟨fun j hj => ?_, fun x => ?_, fun b hb => ?_, h.distinct, h.nonnull⟩
  · by_cases hjk : j = k
    · subst hjk
      simpa using hc
    · simp only [Function.update_of_ne hjk]
      refine (h.chain j hj).congr fun a ha => hnext a fun hq => ?_
      have hb : (a, w k) ∈ qs.map (·, w k) ++ L :=
        List.mem_append_left _ (List.mem_map_of_mem hq)
      have := hw k
      exact h.not_within hw hj ha hb ⟨le_refl a, by simp only; omega⟩
  · rw [covers_perm hperm]
    exact h.tiles x
  · exact h.aligned b (hperm.mem_iff.mp hb)

/-- One piece is pushed onto list `k`. -/
theorem put (h : Carved w K d next head nodes ((p, w k) :: L) areas) (hw : ∀ k, 0 < w k)
    (hk : k < K) :
    Carved w K d (Function.update next p (head k)) (Function.update head k p)
      (Function.update nodes k (p :: nodes k)) L areas := by
  refine relink [p] h hw hk ?_ ?_
  · intro a ha
    exact Function.update_of_ne (by simpa using ha) _ _
  · refine ⟨rfl, h.start_ne_zero (hw k), ?_⟩
    rw [Function.update_self]
    refine (h.chain k hk).congr fun a ha => Function.update_of_ne ?_ _ _
    rintro rfl
    have := hw k
    exact h.not_within hw hk ha List.mem_cons_self ⟨le_refl _, by simp only; omega⟩

/-- The first node of list `k` is taken out. -/
theorem take (h : Carved w K d next head nodes L areas) (hk : k < K) (hp : head k ≠ 0) :
    ∃ ps, nodes k = head k :: ps ∧
      Carved w K d next (Function.update head k (next (head k))) (Function.update nodes k ps)
        ((head k, w k) :: L) areas := by
  obtain ⟨ps, hps, hc⟩ := (h.chain k hk).eq_cons hp
  have hnodes : Function.update (Function.update nodes k ps) k
      ([head k] ++ Function.update nodes k ps k) = nodes := by
    rw [Function.update_idem, Function.update_self, List.singleton_append, ← hps,
      Function.update_eq_self]
  have hperm : (freePieces w K nodes ++ L).Perm
      (freePieces w K (Function.update nodes k ps) ++ (head k, w k) :: L) := by
    have hadd : (freePieces w K (Function.update (Function.update nodes k ps) k
        ([head k] ++ Function.update nodes k ps k))).Perm
        ([(head k, w k)] ++ freePieces w K (Function.update nodes k ps)) :=
      freePieces_update hk [head k]
    rw [hnodes] at hadd
    exact (hadd.append_right L).trans List.perm_middle.symm
  refine ⟨ps, hps, fun j hj => ?_, fun x => ?_, fun b hb => ?_, h.distinct, h.nonnull⟩
  · by_cases hjk : j = k
    · subst hjk
      simpa using hc
    · simpa only [Function.update_of_ne hjk] using h.chain j hj
  · rw [← covers_perm hperm]
    exact h.tiles x
  · exact h.aligned b (hperm.mem_iff.mpr hb)

end Carved

end Tiling
