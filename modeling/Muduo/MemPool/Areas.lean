/-
# `Muduo.MemPool.Areas` — what `~mem_pool` gives back

`allocated_area` is the list of what `~mem_pool` frees.  `chunk_alloc` puts in what its
own `::malloc` has returned, the null pointer too, but not the area that `master_alloc`
returns after that: such an area is carved like the others and never freed.  Nor is an area
for which the list gets no node: `push_back` throws, and nothing refers to it.

Here requests may have any size.  Those above `kMax_Bytes` are areas of the system too,
which their owners return (`large`).

    Ledger s leaked    the areas are the recorded ones, the large blocks and `leaked`
    FromMaster s op    the operation takes an area from `master_alloc` for the pool
    Drops s op         the operation drops an area

An area is leaked exactly by the steps of the last two kinds (`areas_recorded_iff`).
-/
import Muduo.MemPool.Whole

namespace Muduo

open Tiling Runs

namespace MemPool

/-- `~mem_pool`. -/
def destroy (s : MemPool) : Option MemPool := do
  let s ← s.allocatedArea.foldlM free s
  return { s with allocatedArea := [] }

/-- The addresses of the areas. -/
def starts (s : MemPool) : List ℕ := s.areas.map Prod.fst

variable {s s' : MemPool} {n p : ℕ} {a : Answer} {l rest : List ℕ}

/-! ## Areas of their own -/

/-- `::free` of an area takes it out, and no other. -/
theorem free_spec (hnd : s.starts.Nodup) (hp : p ≠ 0) (h : s.starts.Perm (p :: rest)) :
    ∃ areas, s.free p = some { s with areas := areas } ∧ (areas.map Prod.fst).Perm rest ∧
      areas.Sublist s.areas := by
  refine ⟨s.areas.filter fun b => b.1 ≠ p, ?_, ?_, List.filter_sublist⟩
  · have hmem : p ∈ s.areas.map Prod.fst := h.mem_iff.mpr List.mem_cons_self
    rw [free, if_neg hp, assert_of hmem]
    rfl
  · have hrest : ∀ q ∈ rest, q ≠ p := by
      rintro q hq rfl
      exact (List.nodup_cons.mp (h.nodup_iff.mp hnd)).1 hq
    have hf := h.filter fun q => decide (q ≠ p)
    rw [List.filter_cons_of_neg (by simp),
      List.filter_eq_self.mpr fun q hq => decide_eq_true (hrest q hq)] at hf
    rwa [starts, List.filter_map] at hf

/-- Freed one after the other, areas of their own are all taken out. -/
theorem foldlM_free : ∀ {l : List ℕ} {s : MemPool}, s.starts.Nodup →
    s.starts.Perm (l.filter (· ≠ 0) ++ rest) →
    ∃ s', l.foldlM free s = some s' ∧ s'.starts.Perm rest
  | [], s, _, h => ⟨s, rfl, h⟩
  | p :: l, s, hnd, h => by
      by_cases hp : p = 0
      · rw [List.filter_cons_of_neg (by simpa using hp)] at h
        obtain ⟨s', e, hs'⟩ := foldlM_free hnd h
        refine ⟨s', ?_, hs'⟩
        rw [List.foldlM_cons, free, if_pos hp]
        exact e
      · rw [List.filter_cons_of_pos (by simpa using hp), List.cons_append] at h
        obtain ⟨areas, e, hperm, hsub⟩ := free_spec hnd hp h
        obtain ⟨s', e', hs'⟩ := foldlM_free (s := { s with areas := areas })
          (hnd.sublist (hsub.map Prod.fst)) hperm
        refine ⟨s', ?_, hs'⟩
        rw [List.foldlM_cons, e]
        exact e'

/-- `~mem_pool` frees what is recorded. -/
theorem destroy_spec (hnd : s.starts.Nodup) (h : s.starts.Perm (s.recorded ++ rest)) :
    ∃ s', s.destroy = some s' ∧ s'.starts.Perm rest := by
  obtain ⟨s', e, hs'⟩ := foldlM_free hnd h
  refine ⟨{ s' with allocatedArea := [] }, ?_, hs'⟩
  rw [destroy, e]
  rfl

/-- A fresh area does not start where another one does. -/
theorem start_not_mem (hpos : ∀ b ∈ s.areas, 0 < b.2) (hn : 0 < n) (hp : p ≠ 0)
    (hfresh : PoolSession.Fresh s n p) : p ∉ s.starts := by
  intro hmem
  obtain ⟨b, hb, rfl⟩ := List.mem_map.mp hmem
  refine (hfresh hp).2 b hb b.1 ⟨⟨le_refl _, ?_⟩, le_refl _, ?_⟩
  · simp only
    omega
  · have := hpos b hb
    omega

end MemPool

namespace PoolSession

variable {s s' : PoolSession} {op : PoolOp} {leaked : List ℕ}

/-- The blocks in use that are areas of their own. -/
def large (s : PoolSession) : List ℕ := (s.live.filter fun b => kMaxBytes < b.2).map Prod.fst

/-- The bytes that a request for `n` may ask the system for. -/
def asked (s : PoolSession) (n : ℕ) : ℕ :=
  if n > kMaxBytes then n else s.pool.bytesToGet (roundUp n * 20)

/-- As `Valid`, but with sizes above `kMax_Bytes` too. -/
def ValidSizes (s : PoolSession) : PoolOp → Prop
  | .allocate n a => 1 ≤ n ∧ ∀ p ∈ a.chunk :: a.master :: a.retries, Fresh s.pool (s.asked n) p
  | .deallocate p n => (p, n) ∈ s.live
  | .write b x _ => b ∈ s.live ∧ Within b x

instance (s : PoolSession) : (op : PoolOp) → Decidable (s.ValidSizes op)
  | .allocate _ _ => inferInstanceAs (Decidable (_ ∧ _))
  | .deallocate _ _ => inferInstanceAs (Decidable (_ ∈ _))
  | .write _ _ _ => inferInstanceAs (Decidable (_ ∧ _))

/-- The pool has nothing for the request, its own `::malloc` fails, and `master_alloc`
returns an area, at once or after the out-of-memory handler. -/
def FromMaster (s : PoolSession) : PoolOp → Prop
  | .allocate n a => n ≤ kMaxBytes ∧ s.pool.Exhausted n ∧ a.node = true ∧ a.chunk = 0 ∧
      ∃ q ∈ a.master :: a.retries, q ≠ 0
  | _ => False

/-- The `::malloc` of the pool returns an area, and `allocated_area` gets no node for it. -/
def Drops (s : PoolSession) : PoolOp → Prop
  | .allocate n a => s.Refused n a ∧ a.chunk ≠ 0
  | _ => False

def Leaks (s : PoolSession) (op : PoolOp) : Prop := s.FromMaster op ∨ s.Drops op

/-- Every area is recorded once, or is a large block. -/
def Recorded (s : PoolSession) : Prop := s.pool.starts.Perm (s.pool.recorded ++ s.large)

instance (s : PoolSession) : Decidable s.Recorded := inferInstanceAs (Decidable (List.Perm _ _))

/-- `~mem_pool` frees each of its areas once: the large blocks are left to their owners. -/
def Returned (s : PoolSession) : Prop :=
  ∃ pool, s.pool.destroy = some pool ∧ pool.starts.Perm s.large

/-! ## The ledger -/

/-- The areas, each under its own address. -/
structure Ledger (s : PoolSession) (leaked : List ℕ) : Prop where
  starts : s.pool.starts.Perm (s.pool.recorded ++ (s.large ++ leaked))
  nodup : s.pool.starts.Nodup
  real : ∀ b ∈ s.pool.areas, b.1 ≠ 0 ∧ 0 < b.2

theorem ledger_init (mem : ℕ → ℕ) : (init mem).Ledger [] where
  starts := .nil
  nodup := .nil
  real := nofun

theorem append_perm_self_iff {l m : List ℕ} : (l ++ m).Perm l ↔ m = [] := by
  constructor
  · intro h
    have hlen := h.length_eq
    rw [List.length_append] at hlen
    exact List.length_eq_zero_iff.mp (by omega)
  · rintro rfl
    rw [List.append_nil]

theorem Ledger.recorded_iff (h : s.Ledger leaked) : s.Recorded ↔ leaked = [] := by
  rw [Recorded, ← append_perm_self_iff (l := s.pool.recorded ++ s.large), List.append_assoc]
  exact ⟨h.starts.symm.trans, h.starts.trans⟩

theorem Ledger.returned_iff (h : s.Ledger leaked) : s.Returned ↔ leaked = [] := by
  obtain ⟨pool, e, hpool⟩ := MemPool.destroy_spec h.nodup h.starts
  rw [← append_perm_self_iff (l := s.large)]
  constructor
  · rintro ⟨pool', e', hpool'⟩
    obtain rfl := Option.some.inj (e.symm.trans e')
    exact hpool.symm.trans hpool'
  · exact fun hperm => ⟨pool, e, hpool.trans hperm⟩

/-- The same areas, recorded or large as before. -/
theorem Ledger.keep (h : s.Ledger leaked) (areas : s'.pool.areas = s.pool.areas)
    (hrec : s'.pool.recorded = s.pool.recorded) (hlarge : s'.large.Perm s.large) :
    s'.Ledger leaked where
  starts := by
    rw [MemPool.starts, areas, hrec]
    exact h.starts.trans (((hlarge.append_right leaked).append_left _).symm)
  nodup := by rw [MemPool.starts, areas]; exact h.nodup
  real := by rw [areas]; exact h.real

/-- A new area `p`. -/
theorem Ledger.gain (h : s.Ledger leaked) {n p : ℕ} {leaked' : List ℕ} (hn : 0 < n) (hp : p ≠ 0)
    (hfresh : Fresh s.pool n p) (areas : s'.pool.areas = (p, n) :: s.pool.areas)
    (hperm : (s'.pool.recorded ++ (s'.large ++ leaked')).Perm
      (p :: (s.pool.recorded ++ (s.large ++ leaked)))) : s'.Ledger leaked' where
  starts := by
    rw [MemPool.starts, areas, List.map_cons]
    exact (h.starts.cons p).trans hperm.symm
  nodup := by
    rw [MemPool.starts, areas, List.map_cons, List.nodup_cons]
    exact ⟨MemPool.start_not_mem (fun b hb => (h.real b hb).2) hn hp hfresh, h.nodup⟩
  real := by
    rw [areas]
    exact List.forall_mem_cons.mpr ⟨⟨hp, hn⟩, h.real⟩

/-! ## One step -/

/-- The leaked areas after a step. -/
def Next (s s' : PoolSession) (op : PoolOp) (leaked : List ℕ) : Prop :=
  ∃ leaked', s'.Ledger leaked' ∧ (leaked' = [] ↔ leaked = [] ∧ ¬ s.Leaks op)

/-- A step that leaks nothing. -/
theorem Ledger.next (h' : s'.Ledger leaked) (hno : ¬ s.Leaks op) : Next s s' op leaked :=
  ⟨leaked, h', (and_iff_left hno).symm⟩

/-- A request that the pool serves. -/
theorem Ledger.allocate {n : ℕ} {a : Answer} (h : s.Ledger leaked) (h₂ : n ≤ kMaxBytes)
    (hv : s.ValidSizes (.allocate n a)) (hst : s.exec (.allocate n a) = some s') :
    Next s s' (.allocate n a) leaked := by
  obtain ⟨h₁, hfresh⟩ := hv
  rw [asked, if_neg (by omega)] at hfresh
  obtain ⟨pool, r, hpool, hs'⟩ := exec_allocate_inv hst
  have hout := MemPool.allocate_outcome h₁ h₂ hpool
  have hp : s'.pool = pool := by
    rcases hs' with ⟨p, -, rfl⟩ | ⟨-, rfl⟩ <;> rfl
  have hlarge : s'.large = s.large := by
    rcases hs' with ⟨p, -, rfl⟩ | ⟨-, rfl⟩
    · rw [large, List.filter_cons_of_neg (by simpa using h₂)]
      rfl
    · rfl
  have hpos : 0 < s.pool.bytesToGet (roundUp n * 20) := by
    simp only [MemPool.bytesToGet, roundUp, kAlign]
    omega
  -- an area that is in use or lost, and recorded nowhere
  have hleak : ∀ q ∈ a.chunk :: a.master :: a.retries, q ≠ 0 →
      pool.areas = (q, s.pool.bytesToGet (roundUp n * 20)) :: s.pool.areas →
      pool.recorded = s.pool.recorded → s.Leaks (.allocate n a) →
      Next s s' (.allocate n a) leaked := by
    intro q hq hq0 areas hrec hl
    refine ⟨q :: leaked, h.gain hpos hq0 (hfresh q hq) (hp ▸ areas) ?_,
      iff_of_false (List.cons_ne_nil _ _) fun hn => hn.2 hl⟩
    rw [hp, hrec, hlarge]
    exact (List.perm_middle.append_left _).trans List.perm_middle
  have hnode : a.node = true → ¬ s.Drops (.allocate n a) := fun hn hd =>
    Bool.noConfusion (hn.symm.trans hd.1.2.2)
  cases hout with
  | pooled _ hasks hfull areas hrec =>
      refine (h.keep (hp ▸ areas) (hp ▸ hrec) (.of_eq hlarge)).next ?_
      rintro (hm | hd)
      · exact hfull hm.2.1
      · exact hnode (hasks hd.1.2.1) hd
  | chunk _ hn hchunk areas hrec =>
      refine (h.gain hpos hchunk (hfresh _ List.mem_cons_self) (hp ▸ areas) ?_).next ?_
      · rw [hp, hrec, hlarge, List.append_assoc]
        exact List.perm_middle
      · rintro (hm | hd)
        · exact hchunk hm.2.2.2.1
        · exact hnode hn hd
  | master _ q hn hchunk hfull hq hq0 areas hrec =>
      exact hleak q (List.mem_cons_of_mem _ hq) hq0 areas hrec
        (.inl ⟨h₂, hfull, hn, hchunk, q, hq, hq0⟩)
  | thrown e hn hchunk hfull hall areas hrec =>
      refine (h.keep (hp ▸ areas) (hp ▸ hrec) (.of_eq hlarge)).next ?_
      rintro (⟨-, -, -, -, q, hq, hq0⟩ | hd)
      · exact hq0 (hall q hq)
      · exact hnode hn hd
  | refused e hasks hn areas hrec =>
      rw [MemPool.areas_malloc] at areas
      by_cases hchunk : a.chunk = 0
      · rw [if_pos hchunk] at areas
        refine (h.keep (hp ▸ areas) (hp ▸ hrec) (.of_eq hlarge)).next ?_
        rintro (hm | hd)
        · exact Bool.noConfusion (hn.symm.trans hm.2.2.1)
        · exact hd.2 hchunk
      · rw [if_neg hchunk] at areas
        exact hleak _ List.mem_cons_self hchunk areas hrec (.inr ⟨⟨h₂, hasks, hn⟩, hchunk⟩)

/-- A request that is passed on to `master_alloc`. -/
theorem Ledger.allocateLarge {n : ℕ} {a : Answer} (h : s.Ledger leaked) (h₂ : kMaxBytes < n)
    (hv : s.ValidSizes (.allocate n a)) (hst : s.exec (.allocate n a) = some s') :
    Next s s' (.allocate n a) leaked := by
  obtain ⟨h₁, hfresh⟩ := hv
  rw [asked, if_pos h₂] at hfresh
  have hno : ¬ s.Leaks (.allocate n a) := by
    rintro (hm | hd)
    · exact absurd hm.1 (not_le.mpr h₂)
    · exact absurd hd.1.1 (not_le.mpr h₂)
  obtain ⟨pool, r, hpool, hs'⟩ := exec_allocate_inv hst
  rw [MemPool.allocate, if_pos h₂] at hpool
  have hpool := Option.some.inj hpool
  rcases MemPool.masterAllocate_spec s.pool n a with e | ⟨p, hp, hp0, e⟩
  · rw [e] at hpool
    obtain ⟨rfl, rfl⟩ := Prod.mk.inj hpool
    rcases hs' with ⟨p, hr, -⟩ | ⟨-, rfl⟩
    · cases hr
    · exact h.next hno
  · rw [e] at hpool
    obtain ⟨rfl, rfl⟩ := Prod.mk.inj hpool
    rcases hs' with ⟨q, hr, rfl⟩ | ⟨⟨_, hr⟩, -⟩
    · obtain rfl := Except.ok.inj hr
      refine (h.gain (by omega) hp0 (hfresh p (List.mem_cons_of_mem _ hp)) ?_ ?_).next hno
      · rw [MemPool.malloc, if_neg hp0]
      · rw [large, List.filter_cons_of_pos (by simpa using h₂), MemPool.malloc, if_neg hp0]
        exact List.perm_middle
    · cases hr

theorem Ledger.deallocate {n p : ℕ} (h : s.Ledger leaked) (hv : (p, n) ∈ s.live)
    (hst : s.exec (.deallocate p n) = some s') : s'.Ledger leaked := by
  obtain ⟨pool, hpool, hst⟩ := Option.bind_eq_some_iff.mp hst
  obtain rfl := Option.some.inj hst
  have hlive : s.live.Perm ((p, n) :: s.live.erase (p, n)) := List.perm_cons_erase hv
  have hf := (hlive.filter fun b => decide (kMaxBytes < b.2)).map Prod.fst
  rw [MemPool.deallocate] at hpool
  split at hpool
  · next hn =>
      -- an area of its own is returned
      rw [List.filter_cons_of_pos (by simpa using hn), List.map_cons] at hf
      have hstarts : s.pool.starts.Perm (p :: (s.pool.recorded ++
          ((s.live.erase (p, n)).filter (fun b => decide (kMaxBytes < b.2))).map Prod.fst ++
            leaked)) := by
        refine h.starts.trans (((hf.append_right leaked).append_left _).trans ?_)
        rw [List.append_assoc]
        exact List.perm_middle
      have hp : p ≠ 0 := by
        obtain ⟨b, hb, rfl⟩ := List.mem_map.mp (hstarts.mem_iff.mpr List.mem_cons_self)
        exact (h.real b hb).1
      obtain ⟨areas, e, hperm, hsub⟩ := MemPool.free_spec h.nodup hp hstarts
      obtain rfl := Option.some.inj (e.symm.trans hpool)
      refine ⟨?_, h.nodup.sublist (hsub.map Prod.fst), fun b hb => h.real b (hsub.subset hb)⟩
      rw [List.append_assoc] at hperm
      exact hperm
  · next hn =>
      rw [List.filter_cons_of_neg (by simpa using hn)] at hf
      obtain rfl := MemPool.pushFront_inv hpool
      exact h.keep rfl rfl hf.symm

theorem Ledger.step (h : s.Ledger leaked) (hv : s.ValidSizes op) (hst : s.exec op = some s') :
    Next s s' op leaked := by
  cases op with
  | allocate n a =>
      rcases Nat.lt_or_ge kMaxBytes n with hlt | hle
      · exact h.allocateLarge hlt hv hst
      · exact h.allocate hle hv hst
  | deallocate p n => exact Ledger.next (h.deallocate hv hst) (not_or.mpr ⟨id, id⟩)
  | write b x v =>
      obtain rfl := Option.some.inj hst
      exact Ledger.next (h.keep rfl rfl (.refl _)) (not_or.mpr ⟨id, id⟩)

/-- In every run every area is recorded once, and given back once by `~mem_pool`, exactly
when no request of the run has taken an area for the pool from `master_alloc`, or dropped one. -/
theorem areas_recorded_iff {mem : ℕ → ℕ} {tr : List (PoolSession × PoolOp)}
    (hr : Run (stepOf exec) (init mem) tr s) (hv : ∀ p ∈ tr, ValidSizes p.1 p.2) :
    (s.Recorded ↔ ∀ p ∈ tr, ¬ Leaks p.1 p.2) ∧
      (s.Returned ↔ ∀ p ∈ tr, ¬ Leaks p.1 p.2) := by
  have hr' := hr.restrict hv
  obtain ⟨leaked, h⟩ : ∃ leaked, s.Ledger leaked := by
    refine hr'.invariant (I := fun s => ∃ leaked, s.Ledger leaked) ⟨[], ledger_init mem⟩ ?_
    rintro t op u ⟨leaked, h⟩ ⟨hv, hst⟩
    obtain ⟨leaked', h', -⟩ := h.step hv hst
    exact ⟨leaked', h'⟩
  have hrec : s.Recorded ↔ ∀ p ∈ tr, ¬ Leaks p.1 p.2 := by
    refine hr'.iff_forall_of_step (I := fun s => ∃ leaked, s.Ledger leaked)
      (G := fun s op => ¬ Leaks s op) ⟨[], ledger_init mem⟩ (.refl _) ?_ ?_
    · rintro t op u ⟨leaked, h⟩ ⟨hv, hst⟩
      obtain ⟨leaked', h', -⟩ := h.step hv hst
      exact ⟨leaked', h'⟩
    · rintro t op u ⟨leaked, h⟩ ⟨hv, hst⟩
      obtain ⟨leaked', h', hiff⟩ := h.step hv hst
      rw [h'.recorded_iff, h.recorded_iff, hiff]
  refine ⟨hrec, ?_⟩
  rw [h.returned_iff, ← h.recorded_iff, hrec]

/-- Two areas of the pool, and a block of its own size that the out-of-memory handler makes
room for. -/
def mixedRun : List PoolOp :=
  [.allocate 8 ⟨1024, true, 0, []⟩, .allocate 600 ⟨0, true, 0, [4096]⟩,
    .allocate 400 ⟨8192, true, 0, []⟩, .deallocate 4096 600, .deallocate 8192 400,
    .write (1024, 8) 1024 7, .allocate 512 ⟨0, false, 0, []⟩]

theorem mixedRun_recorded : ∃ tr s, runAll exec (init fun _ => 0) mixedRun = some (tr, s) ∧
    s.pool.allocatedArea = [1024, 8192] ∧ s.Recorded ∧ s.Returned := by
  obtain ⟨tr, s, hrun, hv, harea, hrec⟩ : ∃ tr s,
      runAll exec (init fun _ => 0) mixedRun = some (tr, s) ∧
        (∀ p ∈ tr, ValidSizes p.1 p.2) ∧ s.pool.allocatedArea = [1024, 8192] ∧ s.Recorded :=
    exists_computed (by decide +kernel)
  obtain ⟨hiff, hiff'⟩ := areas_recorded_iff (run_of_runAll hrun) hv
  exact ⟨tr, s, hrun, harea, hrec, hiff'.mpr (hiff.mp hrec)⟩

/-- What a request leaks that is the first of a run, and gets an area at 1024 in either way. -/
theorem exists_leak {a : Answer} (ha : a = ⟨0, true, 0, [1024]⟩ ∨ a = ⟨1024, false, 0, []⟩) :
    ∃ tr s, runAll exec (init fun _ => 0) [.allocate 8 a] = some (tr, s) ∧
      (∀ p ∈ tr, ValidSizes p.1 p.2) ∧ s.pool.areas = [(1024, 320)] ∧ ¬ s.Recorded ∧
      ¬ s.Returned := by
  obtain ⟨tr, s, hrun, hv, hareas, hnot, hlarge, hleft⟩ : ∃ tr s,
      runAll exec (init fun _ => 0) [.allocate 8 a] = some (tr, s) ∧
        (∀ p ∈ tr, ValidSizes p.1 p.2) ∧ s.pool.areas = [(1024, 320)] ∧ ¬ s.Recorded ∧
        s.large = [] ∧ s.pool.destroy.map MemPool.starts = some [1024] := by
    rcases ha with rfl | rfl
    · exact exists_computed (by decide +kernel)
    · exact exists_computed (by decide +kernel)
  refine ⟨tr, s, hrun, hv, hareas, hnot, ?_⟩
  rintro ⟨pool, e, hperm⟩
  rw [hlarge] at hperm
  rw [e, Option.map_some, hperm.eq_nil] at hleft
  exact absurd hleft (by decide)

/-- The first `::malloc` fails, the handler makes room, and the area is never given back; or it
returns an area, there is no node for it, and it is not given back either. -/
theorem master_area_leaks :
    (∃ tr s, runAll exec (init fun _ => 0) [.allocate 8 ⟨0, true, 0, [1024]⟩] = some (tr, s) ∧
      (∀ p ∈ tr, ValidSizes p.1 p.2) ∧ s.pool.areas = [(1024, 320)] ∧ ¬ s.Recorded ∧
      ¬ s.Returned) ∧
    ∃ tr s, runAll exec (init fun _ => 0) [.allocate 8 ⟨1024, false, 0, []⟩] = some (tr, s) ∧
      (∀ p ∈ tr, ValidSizes p.1 p.2) ∧ s.pool.areas = [(1024, 320)] ∧ ¬ s.Recorded ∧
      ¬ s.Returned :=
  ⟨exists_leak (.inl rfl), exists_leak (.inr rfl)⟩

end PoolSession

end Muduo
