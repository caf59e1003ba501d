/-
# `Muduo.Timer.Table` — the heap in memory represents a list of timers

`Represents h ts`: the entries of `timerList` are the timers `ts`, none of them
null, and `positions` is exact for their ids.  Every operation of
`TimerMinHeap` is shown to run to its end on such a heap (no null entry is
dereferenced, no index leaves the vector, no assertion fails, no loop runs out
of fuel) and to compute the operation of `BinHeap` on the list.  Nothing here
needs the list to be in heap order.
-/
import Muduo.Timer.Model

namespace Muduo.TimerMinHeap

open BinHeap IndexMap Function

variable {Cb : Type}

/-- The timers behind the entries of `timerList`. -/
def timers (h : TimerMinHeap Cb) : List (Timer Cb) := h.timerList.filterMap id

/-- The entries of the heap are `ts`, and `positions` is exact for their ids. -/
structure Represents (h : TimerMinHeap Cb) (ts : List (Timer Cb)) : Prop where
  list : h.timerList = ts.map some
  exact : Exact (fun id => h.positions.lookup id) (ts.map Timer.id)

variable {h : TimerMinHeap Cb} {ts : List (Timer Cb)} {i j : ℕ}

theorem represents_init : Represents (init : TimerMinHeap Cb) [] := ⟨rfl, exact_nil⟩

theorem Represents.length (r : Represents h ts) : h.timerList.length = ts.length := by
  simp [r.list]

theorem Represents.size (r : Represents h ts) : h.positions.keys.length = ts.length := by
  simpa using r.exact.size

theorem Represents.deref (r : Represents h ts) (i : ℕ) : h.deref i = ts[i]? := by
  unfold TimerMinHeap.deref
  rw [r.list, List.getElem?_map]
  cases ts[i]? <;> rfl

theorem Represents.nodup (r : Represents h ts) : (ts.map Timer.id).Nodup := r.exact.nodup

theorem Represents.isEmpty (r : Represents h ts) : h.isEmpty = ts.isEmpty := by
  unfold TimerMinHeap.isEmpty
  rw [r.list, List.isEmpty_map]

theorem Represents.lookup_none (r : Represents h ts) {id : ℤ} :
    h.positions.lookup id = none ↔ ∀ t ∈ ts, t.id ≠ id := by
  rw [r.exact.none_iff]
  simp

theorem Represents.lookup (r : Represents h ts) {t : Timer Cb} (hi : ts[i]? = some t) :
    h.positions.lookup t.id = some i :=
  (r.exact t.id i).mpr (by simp [hi])

theorem Represents.timers (r : Represents h ts) : h.timers = ts := by
  rw [TimerMinHeap.timers, r.list, List.filterMap_map]
  exact List.filterMap_some

/-- The timer that `positions` gives for an id. -/
theorem Represents.getElem?_of_lookup (r : Represents h ts) {id : ℤ}
    (hid : h.positions.lookup id = some i) :
    ∃ t, ts[i]? = some t ∧ t.id = id := by
  have hget := (r.exact id i).mp hid
  rw [List.getElem?_map, Option.map_eq_some_iff] at hget
  exact hget

/-! ## The swap and the repair of the two positions -/

/-- `swap` and the two updates that follow it in `Add` and in `Adjust`. -/
theorem Represents.exchange (r : Represents h ts) (hi : i < ts.length) (hj : j < ts.length) :
    ∃ h₁ h₂ h₃, h.swap i j = some h₁ ∧ h₁.setPosition i = some h₂ ∧
      h₂.setPosition j = some h₃ ∧ Represents h₃ (swapAt ts i j) := by
  have hget : ∀ k, (swapAt ts i j)[k]? = BinHeap.exchange (fun n => ts[n]?) i j k :=
    getElem?_swapAt hi hj
  have hlist : swapAt h.timerList i j = (swapAt ts i j).map some := by rw [r.list, map_swapAt]
  -- the entries behind the two pointers after the swap
  have hderef : ∀ k pos,
      TimerMinHeap.deref ⟨swapAt h.timerList i j, pos⟩ k = (swapAt ts i j)[k]? := by
    intro k pos
    unfold TimerMinHeap.deref
    rw [hlist, List.getElem?_map]
    cases (swapAt ts i j)[k]? <;> rfl
  refine ⟨⟨swapAt h.timerList i j, h.positions⟩,
    ⟨swapAt h.timerList i j, h.positions.insert ts[j].id i⟩,
    ⟨swapAt h.timerList i j, (h.positions.insert ts[j].id i).insert ts[i].id j⟩, ?_, ?_, ?_, ?_⟩
  · exact if_pos ⟨r.length ▸ hi, r.length ▸ hj⟩
  · simp [setPosition, hderef, hget, hj, Timer.getId]
  · simp [setPosition, hderef, hget, hi, Timer.getId]
  · refine ⟨hlist, ?_⟩
    rw [lookup_insert_update, lookup_insert_update, map_swapAt]
    exact r.exact.exchange (by simpa using hi) (by simpa using hj) (by simp [hj]) (by simp [hi])

/-! ## Add -/

theorem addLoop_spec : ∀ (fuel : ℕ) {i : ℕ} {h : TimerMinHeap Cb} {ts : List (Timer Cb)},
    Represents h ts → 0 < i → i < ts.length → i < fuel →
      ∃ h', addLoop fuel i (parent i) h
          = some (h', decide ((siftUp Timer.expirationTime ts i).2 = 0)) ∧
        Represents h' (siftUp Timer.expirationTime ts i).1
  | 0, _, _, _, _, _, _, hf => absurd hf (Nat.not_lt_zero _)
  | fuel + 1, i, h, ts, r, hi0, hi, hf => by
      have hp : parent i < ts.length := (parent_lt hi0).trans hi
      have hgi : ts[i]? = some ts[i] := List.getElem?_eq_getElem hi
      have hgp : ts[parent i]? = some ts[parent i] := List.getElem?_eq_getElem hp
      have hlt := keyAt_lt_iff Timer.expirationTime hgi hgp
      obtain ⟨h₁, h₂, h₃, e₁, e₂, e₃, r₃⟩ := r.exchange hi hp
      simp only [addLoop, r.deref, hgi, hgp, Option.bind_eq_bind, Option.bind_some]
      by_cases hexp : ts[i].expirationTime < ts[parent i].expirationTime
      · rw [siftUp, dif_pos ⟨hi0, hlt.mpr hexp⟩, if_pos hexp]
        simp only [e₁, e₂, e₃, Option.bind_some]
        by_cases hp0 : parent i = 0
        · rw [if_neg (not_not.mpr hp0)]
          refine ⟨h₃, ?_, ?_⟩ <;> rw [hp0, siftUp, dif_neg (fun hc => Nat.lt_irrefl 0 hc.1)]
          · rfl
          · exact hp0 ▸ r₃
        · rw [if_pos hp0]
          have hlt' := parent_lt hi0
          exact addLoop_spec fuel r₃ (Nat.pos_of_ne_zero hp0) (by rwa [length_swapAt]) (by omega)
      · rw [siftUp, dif_neg (fun hc => hexp (hlt.mp hc.2)), if_neg hexp]
        exact ⟨h, by simp [hi0.ne'], r⟩

theorem add_spec (r : Represents h ts) {t : Timer Cb} (ht : ∀ u ∈ ts, u.id ≠ t.id) :
    ∃ h', h.add t = some (h', decide ((push Timer.expirationTime ts t).2 = 0)) ∧
      Represents h' (push Timer.expirationTime ts t).1 := by
  have hid : t.id ∉ ts.map Timer.id := by simpa using ht
  have r' :
      Represents ⟨h.timerList ++ [some t], h.positions.insert t.id ts.length⟩ (ts ++ [t]) := by
    refine ⟨by simp [r.list], ?_⟩
    rw [lookup_insert_update]
    simpa using r.exact.push hid
  unfold add push
  simp only [r.length, Timer.getId]
  rw [assert_of (by rw [r'.length, r'.size])]
  simp only [Option.bind_eq_bind, Option.bind_some]
  by_cases h0 : ts.length = 0
  · rw [if_pos h0, h0, siftUp, dif_neg (fun hc => Nat.lt_irrefl 0 hc.1)]
    exact ⟨_, rfl, h0 ▸ r'⟩
  · rw [if_neg h0]
    exact addLoop_spec _ r' (Nat.pos_of_ne_zero h0) (by simp) (Nat.lt_succ_self _)

/-- The assertion on the two sizes fails for an id that is in the heap. -/
theorem Represents.fresh_of_add (r : Represents h ts) {t : Timer Cb}
    {x : TimerMinHeap Cb × Bool} (hadd : h.add t = some x) : ∀ u ∈ ts, u.id ≠ t.id := by
  intro u hu heq
  obtain ⟨_, hsize, -⟩ := Option.bind_eq_some_iff.mp hadd
  have hsize := assert_eq_some_iff.mp hsize
  have hmem : t.id ∈ h.positions.keys := by
    rw [← AList.mem_keys, ← AList.lookup_isSome, Option.isSome_iff_exists, ← r.exact.mem_iff]
    exact heq ▸ List.mem_map_of_mem hu
  have hpos := List.length_pos_of_mem hmem
  simp only [List.length_append, Timer.getId, AList.keys_insert,
    List.length_cons, List.length_erase_of_mem hmem, r.length, r.size] at hsize
  rw [r.size] at hpos
  omega

/-! ## Adjust -/

theorem earlier_spec (r : Represents h ts) (hj : j < ts.length) (i : ℕ) :
    h.earlier j i = some (smaller Timer.expirationTime ts j i) := by
  unfold earlier smaller
  have hgj : ts[j]? = some ts[j] := List.getElem?_eq_getElem hj
  rw [r.length]
  by_cases hi : i < ts.length
  · have hgi : ts[i]? = some ts[i] := List.getElem?_eq_getElem hi
    simp only [if_pos hi, r.deref, hgi, hgj, Option.bind_eq_bind, Option.bind_some,
      keyAt_lt_iff _ hgi hgj]
    split_ifs <;> rfl
  · rw [if_neg hi, if_neg]
    exact fun hlt => hi (lt_length_of_keyAt_lt hlt)

theorem adjustLoop_spec : ∀ (fuel : ℕ) {i : ℕ} {h : TimerMinHeap Cb} {ts : List (Timer Cb)},
    Represents h ts → ts.length - i < fuel →
      ∃ h', adjustLoop fuel i h = some h' ∧ Represents h' (siftDown Timer.expirationTime ts i)
  | 0, _, _, _, _, hf => absurd hf (Nat.not_lt_zero _)
  | fuel + 1, i, h, ts, r, hf => by
      unfold adjustLoop
      rw [r.length]
      by_cases hl : i * 2 + 1 < ts.length
      · have hi : i < ts.length := by omega
        have hs₁ := earlier_spec r hi (i * 2 + 1)
        have hlt₁ : smaller Timer.expirationTime ts i (i * 2 + 1) < ts.length := by
          rcases @smaller_cases _ _ Timer.expirationTime ts _ i (i * 2 + 1) with h | h
          · rwa [h]
          · rwa [h.1]
        have hs₂ := earlier_spec r hlt₁ (i * 2 + 2)
        have hc : smaller Timer.expirationTime ts (smaller Timer.expirationTime ts i (i * 2 + 1))
            (i * 2 + 2) = candidate Timer.expirationTime ts i := by
          rw [candidate, Nat.mul_comm]
        simp only [if_pos hl, hs₁, hs₂, hc, Option.bind_eq_bind, Option.bind_some]
        by_cases hci : candidate Timer.expirationTime ts i = i
        · rw [if_neg (not_not.mpr hci), siftDown, dif_pos hci]
          exact ⟨h, rfl, r⟩
        · have hcl := candidate_lt_length hci
          have hic := lt_candidate hci
          obtain ⟨h₁, h₂, h₃, e₁, e₂, e₃, r₃⟩ := r.exchange hcl hi
          have e₁' : h.swap i (candidate Timer.expirationTime ts i) = some h₁ := by
            rw [← e₁]
            simp only [swap, r.length, hi, hcl, and_self, if_true,
              swapAt_comm (r.length.symm ▸ hi) (r.length.symm ▸ hcl)]
          rw [if_pos hci, siftDown, dif_neg hci, swapAt_comm hi hcl]
          simp only [e₁', e₂, e₃, Option.bind_some]
          exact adjustLoop_spec fuel r₃ (by rw [length_swapAt]; omega)
      · -- no child: the entry is a leaf
        rw [if_neg hl, siftDown, dif_pos]
        · exact ⟨h, rfl, r⟩
        · by_contra hne
          have hp := (candidate_child hne).2.1
          have hcl := candidate_lt_length hne
          rcases (parent_eq_iff (candidate_child hne).1).mp hp with hc | hc <;> omega

theorem adjust_spec (r : Represents h ts) (i : ℕ) :
    ∃ h', h.adjust i = some h' ∧ Represents h' (siftDown Timer.expirationTime ts i) :=
  adjustLoop_spec _ r (by rw [r.length]; omega)

/-! ## Del and PopMovedTimer -/

@[simp] theorem popBack_mk (l : List (Option (Timer Cb))) (m : AList fun _ : ℤ => ℕ) :
    popBack ⟨l, m⟩ = ⟨l.dropLast, m⟩ := rfl

theorem erasePosition_mk {l : List (Option (Timer Cb))} {m : AList fun _ : ℤ => ℕ}
    {id : ℤ} (hid : id ∈ m) (hlen : l.length + 1 = m.keys.length) :
    erasePosition ⟨l, m⟩ id = some ⟨l, m.erase id⟩ := by
  have hkeys : l.length = (m.erase id).keys.length := by
    rw [AList.keys_erase, List.length_erase_of_mem (AList.mem_keys.mp hid)]
    omega
  simp only [erasePosition, assert_of hid, assert_of hkeys, Option.bind_eq_bind, Option.bind_some,
    Option.pure_def]

theorem Represents.mem (r : Represents h ts) {t : Timer Cb} (hi : ts[i]? = some t) :
    t.id ∈ h.positions := by
  rw [← AList.lookup_isSome, r.lookup hi]
  rfl

/-- The removal of the entry at `i` before the last one, up to the call of
`Adjust`: the last entry takes its place in the list and in the index. -/
theorem Represents.moveLast (r : Represents h ts) {t b : Timer Cb} (hi : i + 1 < ts.length)
    (ht : ts[i]? = some t) (hb : ts[ts.length - 1]? = some b) :
    Represents ⟨(swapAt h.timerList i (ts.length - 1)).dropLast,
      (h.positions.erase t.id).insert b.id i⟩ (without ts i) := by
  unfold without
  refine ⟨?_, ?_⟩
  · rw [r.list, ← map_swapAt, List.map_dropLast]
  · rw [lookup_insert_update, lookup_erase_update, List.map_dropLast, map_swapAt]
    simpa using r.exact.moveLast (by simpa using hi) (by simp [ht]) (by simp [hb])

/-- `PopMovedTimer` on a heap whose root may have been moved out. -/
theorem popMovedTimer_spec {o : Option (Timer Cb)} {t : Timer Cb} {tl : List (Timer Cb)}
    (r : Represents ⟨(t :: tl).map some, h.positions⟩ (t :: tl))
    (hl : h.timerList = o :: tl.map some) :
    ∃ h', h.popMovedTimer t.id = some h' ∧
      Represents h' (removeAt Timer.expirationTime (t :: tl) 0) := by
  have hlen : h.timerList.length = tl.length + 1 := by simp [hl]
  have hsize : h.positions.keys.length = tl.length + 1 := r.size
  have hlook : h.positions.lookup t.id = some 0 := r.lookup (i := 0) rfl
  have hmem : t.id ∈ h.positions := r.mem (i := 0) rfl
  unfold popMovedTimer
  rw [assert_of (by rw [hl]; exact List.cons_ne_nil _ _)]
  simp only [Option.bind_eq_bind, Option.bind_some]
  rcases List.eq_nil_or_concat' tl with rfl | ⟨L, b, rfl⟩
  · rw [if_neg (by simp [hl]), assert_of (by simpa using hsize)]
    refine ⟨init, rfl, ?_⟩
    rw [removeAt, siftDown_of_le (by simp)]
    exact represents_init
  · -- the last entry is another timer and not the moved-from one
    have hback : h.deref (h.timerList.length - 1) = some b := by
      simp [TimerMinHeap.deref, hl]
    have hne : b.id ≠ t.id := by
      have := r.nodup
      simp only [List.map_cons, List.nodup_cons] at this
      exact fun h => this.1 (by simp [h])
    have hr := r.moveLast (i := 0) (t := t) (b := b) (by simp) rfl (by simp)
    rw [without] at hr
    have hend : (t :: (L ++ [b])).length - 1 = L.length + 1 := by simp
    have hend' : h.timerList.length - 1 = (L.map some).length + 1 := by simp [hl]
    have hswap : h.swap 0 (h.timerList.length - 1)
        = some { h with timerList := some b :: ((L.map some) ++ [o]) } := by
      rw [swap, if_pos ⟨by omega, by omega⟩, hend', hl, List.map_append, List.map_singleton,
        swapAt_ends]
    have herase : erasePosition ⟨(some b :: ((L.map some) ++ [o])).dropLast, h.positions⟩ t.id
        = some ⟨some b :: L.map some, h.positions.erase t.id⟩ := by
      rw [erasePosition_mk hmem (by rw [hsize]; simp)]
      simp [List.dropLast_cons_of_ne_nil]
    rw [hend, List.map_cons, List.map_append, List.map_singleton,
      show L.length + 1 = (L.map (some (α := Timer Cb))).length + 1 by simp, swapAt_ends,
      List.length_map, swapAt_ends] at hr
    obtain ⟨h', e', r'⟩ := adjust_spec hr 0
    refine ⟨h', ?_, ?_⟩
    · rw [if_pos (by simp [hl])]
      simp only [hlook, hback, hswap, popBack_mk, herase, Option.bind_some, Timer.getId,
        bne_iff_ne, hne, ne_eq, not_false_eq_true, if_true]
      simpa [setPosition, TimerMinHeap.deref, Timer.getId, List.dropLast_cons_of_ne_nil] using e'
    · rw [removeAt, without, hend, swapAt_ends]
      exact r'

theorem del_spec_absent (r : Represents h ts) {id : ℤ} (hid : ∀ t ∈ ts, t.id ≠ id) :
    h.del id = some (h, false) := by
  unfold del
  rw [r.lookup_none.mpr hid]

theorem del_spec (r : Represents h ts) {t : Timer Cb} (ht : ts[i]? = some t) :
    ∃ h', h.del t.id = some (h', decide (i = 0)) ∧
      Represents h' (removeAt Timer.expirationTime ts i) := by
  obtain ⟨hi, rfl⟩ := List.getElem?_eq_some_iff.mp ht
  unfold del
  rw [r.lookup ht]
  by_cases h0 : i = 0
  · subst h0
    cases ts with
    | nil => exact absurd hi (Nat.not_lt_zero _)
    | cons t tl =>
        obtain ⟨h', e', r'⟩ := popMovedTimer_spec (h := h) (o := some t) (t := t)
          ⟨rfl, r.exact⟩ (r.list : h.timerList = some t :: tl.map some)
        refine ⟨h', ?_, r'⟩
        simp [pop, top, r.deref, Timer.getId, e']
  · have hb : ts[ts.length - 1]? = some ts[ts.length - 1] := List.getElem?_eq_getElem (by omega)
    have hswap : h.swap i (ts.length - 1)
        = some { h with timerList := swapAt h.timerList i (ts.length - 1) } :=
      if_pos ⟨r.length ▸ hi, by rw [r.length]; omega⟩
    have herase := erasePosition_mk (l := (swapAt h.timerList i (ts.length - 1)).dropLast)
      (r.mem ht) (by rw [r.size]; simp [r.length]; omega)
    simp only [h0, if_false, r.length, r.deref, hb, hswap, popBack_mk, herase,
      Option.bind_eq_bind, Option.bind_some, Timer.getId, decide_false]
    by_cases hlast : i + 1 < ts.length
    · have hne : ts[ts.length - 1].id ≠ ts[i].id := by
        intro heq
        have := r.exact.unique (i := ts.length - 1) (j := i) (k := ts[i].id)
          (by simp [hb, heq]) (by simp [ht])
        omega
      obtain ⟨h', e', r'⟩ := adjust_spec (r.moveLast hlast ht hb) i
      refine ⟨h', ?_, r'⟩
      simp [hne, e']
    · -- the timer is the last entry: it is popped and nothing moves
      have hil : ts.length - 1 = i := by omega
      refine ⟨⟨h.timerList.dropLast, h.positions.erase ts[i].id⟩, ?_, ?_⟩
      · simp [hil, swapAt_self]
      rw [removeAt, without, hil, swapAt_self, siftDown_of_le (by simp; omega)]
      refine ⟨by simp [r.list, List.map_dropLast], ?_⟩
      rw [lookup_erase_update, List.map_dropLast]
      exact r.exact.dropLast (by simp [hil, ht])

end Muduo.TimerMinHeap
