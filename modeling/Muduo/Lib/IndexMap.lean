/-
# `Muduo.Lib.IndexMap` — a map that tells where each key of a table is

`Exact pos ks`: `pos` maps precisely the keys listed in `ks`, each to its own
index.  An exact map forbids repeated keys, so the tables it describes can be
searched through the map alone.

The lemmas are the updates a table without holes needs: a key put at the end,
two keys exchanged, the last key dropped, and a key overwritten by the last one
(the constant-time removal).  They are stated for a map given as a function;
the last section reads the finite maps of Mathlib (`AList`) as such functions.
-/
import Muduo.Lib.BinHeap
import Mathlib.Data.List.AList
import Mathlib.Data.List.Nodup

namespace IndexMap

open BinHeap Function

variable {κ : Type*}

/-- `pos` maps precisely the keys of `ks`, each to its index. -/
def Exact (pos : κ → Option ℕ) (ks : List κ) : Prop := ∀ k i, pos k = some i ↔ ks[i]? = some k

variable {pos : κ → Option ℕ} {ks : List κ} {k l : κ} {i j n : ℕ}

theorem Exact.unique (h : Exact pos ks) (hi : ks[i]? = some k) (hj : ks[j]? = some k) : i = j := by
  have := (h k i).mpr hi
  rw [(h k j).mpr hj] at this
  exact (Option.some.inj this).symm

theorem Exact.nodup (h : Exact pos ks) : ks.Nodup := by
  rw [List.nodup_iff_getElem?_ne_getElem?]
  intro i j hij hj heq
  rw [List.getElem?_eq_getElem hj] at heq
  exact absurd (h.unique heq (List.getElem?_eq_getElem hj)) hij.ne

theorem Exact.mem_iff (h : Exact pos ks) : k ∈ ks ↔ ∃ i, pos k = some i := by
  rw [List.mem_iff_getElem?]
  exact exists_congr fun i => (h k i).symm

theorem Exact.none_iff (h : Exact pos ks) : pos k = none ↔ k ∉ ks := by
  rw [h.mem_iff, Option.eq_none_iff_forall_ne_some, not_exists]

theorem exact_nil : Exact (fun _ : κ => none) [] := by
  intro k i
  simp

variable [DecidableEq κ]

theorem Exact.push (h : Exact pos ks) (hk : k ∉ ks) :
    Exact (update pos k (some ks.length)) (ks ++ [k]) := by
  intro l i
  have hend : (ks ++ [k])[i]? = some l ↔ ks[i]? = some l ∨ i = ks.length ∧ k = l := by
    rcases Nat.lt_trichotomy i ks.length with hi | rfl | hi
    · rw [List.getElem?_append_left hi]
      exact (or_iff_left fun hr => hi.ne hr.1).symm
    · simp
    · have hlen : (ks ++ [k]).length ≤ i := by
        rw [List.length_append, List.length_singleton]
        exact hi
      simp [List.getElem?_eq_none hi.le, List.getElem?_eq_none hlen, hi.ne']
  rw [hend]
  by_cases hl : l = k
  · subst hl
    have hnot : ks[i]? ≠ some l := fun hi => hk (List.mem_of_getElem? hi)
    simp [hnot, eq_comm]
  · simp [update_of_ne hl, h l i, Ne.symm hl]

/-- The keys at `i` and `j` are exchanged. -/
theorem Exact.exchange (h : Exact pos ks) (hi : i < ks.length) (hj : j < ks.length)
    (ha : ks[j]? = some k) (hb : ks[i]? = some l) :
    Exact (update (update pos k (some i)) l (some j)) (swapAt ks i j) := by
  intro m n
  rw [getElem?_swapAt hi hj]
  have hkn : ks[n]? = some k ↔ n = j := ⟨fun hn => h.unique hn ha, fun hn => hn ▸ ha⟩
  have hln : ks[n]? = some l ↔ n = i := ⟨fun hn => h.unique hn hb, fun hn => hn ▸ hb⟩
  have hkl : k = l ↔ i = j := by
    rw [← Option.some_inj, ← ha]
    exact ⟨fun hk => h.unique hb hk, fun hij => hij ▸ hb⟩
  simp only [BinHeap.exchange]
  by_cases hm : m = l
  · subst hm
    rw [update_self]
    split_ifs with hni hnj
    · subst hni
      rw [ha, Option.some_inj, Option.some_inj, hkl]
      exact eq_comm
    · rw [hb]
      simp [hnj]
    · rw [hln]
      simp [hni, Ne.symm hnj]
  · rw [update_of_ne hm]
    by_cases hm' : m = k
    · subst hm'
      rw [update_self]
      split_ifs with hni hnj
      · simp [ha, hni]
      · rw [hb]
        simp [Ne.symm hni, Ne.symm hm]
      · rw [hkn]
        simp [hnj, Ne.symm hni]
    · rw [update_of_ne hm', h m n]
      split_ifs with hni hnj
      · subst hni
        simp [ha, hb, Ne.symm hm, Ne.symm hm']
      · subst hnj
        simp [ha, hb, Ne.symm hm, Ne.symm hm']
      · rfl

theorem Exact.dropLast (h : Exact pos ks) (hk : ks[ks.length - 1]? = some k) :
    Exact (update pos k none) ks.dropLast := by
  intro l i
  rw [List.getElem?_dropLast]
  by_cases hl : l = k
  · subst hl
    rw [update_self]
    split_ifs with hi
    · simp only [false_iff]
      exact fun hli => absurd (h.unique hli hk) hi.ne
    · simp
  · rw [update_of_ne hl, h l i]
    split_ifs with hi
    · rfl
    · simp only [iff_false]
      intro hli
      obtain ⟨hlen, -⟩ := List.getElem?_eq_some_iff.mp hli
      rw [show i = ks.length - 1 by omega, hk] at hli
      exact hl (Option.some.inj hli).symm

/-- The last key overwrites the key at `i`. -/
theorem Exact.moveLast (h : Exact pos ks) (hi : i + 1 < ks.length) (hk : ks[i]? = some k)
    (hl : ks[ks.length - 1]? = some l) :
    Exact (update (update pos k none) l (some i)) (swapAt ks i (ks.length - 1)).dropLast := by
  have hlk : k ≠ l := by
    rintro rfl
    have := h.unique hk hl
    omega
  have hex := h.exchange (by omega) (by omega) hl hk
  have hlast :
      (swapAt ks i (ks.length - 1))[(swapAt ks i (ks.length - 1)).length - 1]? = some k := by
    rw [length_swapAt, getElem?_swapAt (by omega) (by omega), exchange_right, hk]
  have := hex.dropLast hlast
  rwa [update_idem, update_comm hlk.symm] at this

/-! ## Finite maps as functions -/

section AList

variable {m : AList fun _ : κ => ℕ} {a : κ} {b : ℕ}

theorem lookup_insert_update :
    (fun c => (m.insert a b).lookup c) = update (fun c => m.lookup c) a (some b) := by
  funext c
  by_cases hc : c = a
  · subst hc
    simp
  · rw [update_of_ne hc, AList.lookup_insert_ne hc]

theorem lookup_erase_update :
    (fun c => (m.erase a).lookup c) = update (fun c => m.lookup c) a none := by
  funext c
  by_cases hc : c = a
  · subst hc
    simp
  · rw [update_of_ne hc, AList.lookup_erase_ne hc]

/-- An exact map has as many entries as the table. -/
theorem Exact.size (h : Exact (fun c => m.lookup c) ks) : m.keys.length = ks.length := by
  refine ((List.perm_ext_iff_of_nodup m.keys_nodup h.nodup).mpr fun c => ?_).length_eq
  rw [← AList.mem_keys, ← AList.lookup_isSome, h.mem_iff, Option.isSome_iff_exists]

end AList

end IndexMap
