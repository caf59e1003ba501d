/-
# `Muduo.Lib.BinHeap` — binary heaps stored in a list

The order part of a heap is a fact about a function `f : ℕ → κ` of positions:
`f (parent i) ≤ f i`.  The keys of a list `xs` are such a function once the
positions past the end are given the key `⊤` (`keyAt`), so no lemma below
carries a bound on an index.

Both sifts start from an order that holds everywhere except around one
position, the *hole*.  They differ in which of the hole's neighbours are already
known to be right:

    SiftsUp f i      all but (parent i, i);      the sift swaps i with its parent
    SiftsDown f i    all but (i, children of i); the sift swaps i with a child

`SiftsDown f i` contains `f (parent i) ≤ f i`.  An entry put at `i` from
elsewhere in the heap need not satisfy it: the last entry of a heap is below the
root, but not below every interior position.
-/
import Mathlib.Order.WithBot
import Mathlib.Data.List.Basic
import Mathlib.Data.List.Perm.Basic
import Mathlib.Tactic.SplitIfs

namespace BinHeap

/-- The parent of a position; the root is its own parent. -/
def parent (i : ℕ) : ℕ := (i - 1) / 2

theorem parent_lt {i : ℕ} (h : 0 < i) : parent i < i := by unfold parent; omega

theorem parent_eq_iff {i j : ℕ} (h : 0 < j) :
    parent j = i ↔ j = 2 * i + 1 ∨ j = 2 * i + 2 := by unfold parent; omega

/-! ## Order -/

section Order

variable {κ : Type*} [LinearOrder κ] {f : ℕ → κ} {i j : ℕ}

/-- No position has a key smaller than its parent's. -/
def Ordered (f : ℕ → κ) : Prop := ∀ i, 0 < i → f (parent i) ≤ f i

theorem Ordered.root_le (h : Ordered f) : ∀ i, f 0 ≤ f i := by
  intro i
  induction i using Nat.strongRecOn with
  | ind i ih =>
      rcases Nat.eq_zero_or_pos i with rfl | hi
      · exact le_refl _
      · exact (ih _ (parent_lt hi)).trans (h i hi)

/-- `f` with the values at `i` and `j` exchanged. -/
def exchange {β : Type*} (f : ℕ → β) (i j : ℕ) : ℕ → β :=
  fun k => if k = i then f j else if k = j then f i else f k

@[simp] theorem exchange_left {β : Type*} (f : ℕ → β) (i j : ℕ) : exchange f i j i = f j := by
  simp [exchange]

@[simp] theorem exchange_right {β : Type*} (f : ℕ → β) (i j : ℕ) : exchange f i j j = f i := by
  unfold exchange
  by_cases h : j = i
  · simp [h]
  · simp [h]

theorem exchange_other {β : Type*} (f : ℕ → β) {i j k : ℕ} (hi : k ≠ i) (hj : k ≠ j) :
    exchange f i j k = f k := by
  simp [exchange, hi, hj]

/-- Ordered but for the pair `(parent i, i)`, with the children of `i` at or
after its parent. -/
structure SiftsUp (f : ℕ → κ) (i : ℕ) : Prop where
  except : ∀ j, 0 < j → j ≠ i → f (parent j) ≤ f j
  grand : ∀ j, 0 < i → 0 < j → parent j = i → f (parent i) ≤ f j

/-- Ordered but for the pairs `(i, child of i)`, with the children of `i` at or
after its parent. -/
structure SiftsDown (f : ℕ → κ) (i : ℕ) : Prop where
  except : ∀ j, 0 < j → parent j ≠ i → f (parent j) ≤ f j
  grand : ∀ j, 0 < i → 0 < j → parent j = i → f (parent i) ≤ f j

theorem SiftsUp.swap (o : SiftsUp f i) (hi : 0 < i) (hlt : f i < f (parent i)) :
    SiftsUp (exchange f i (parent i)) (parent i) := by
  have hpi := parent_lt hi
  constructor
  · intro j hj hjp
    by_cases hji : j = i
    · subst hji
      rw [exchange_left, exchange_right]
      exact hlt.le
    · rw [exchange_other f hji hjp]
      by_cases hpj : parent j = i
      · rw [hpj, exchange_left]
        exact o.grand j hi hj hpj
      by_cases hpj' : parent j = parent i
      · rw [hpj', exchange_right]
        exact hlt.le.trans (hpj' ▸ o.except j hj hji)
      · rw [exchange_other f hpj hpj']
        exact o.except j hj hji
  · intro j hp hj hpj
    have hpp := parent_lt hp
    have hup : f (parent (parent i)) ≤ f (parent i) := o.except _ hp (by omega)
    rw [exchange_other f (by omega) (by omega)]
    by_cases hji : j = i
    · subst hji
      rwa [exchange_left]
    · have hjp : j ≠ parent i := by have := parent_lt hj; omega
      rw [exchange_other f hji hjp]
      exact hup.trans (hpj ▸ o.except j hj hji)

theorem SiftsUp.done (o : SiftsUp f i) (h : 0 < i → f (parent i) ≤ f i) : Ordered f := by
  intro j hj
  by_cases hji : j = i
  · subst hji
    exact h hj
  · exact o.except j hj hji

theorem SiftsDown.swap {c : ℕ} (o : SiftsDown f i) (hc : 0 < c) (hci : parent c = i)
    (hlt : f c < f i) (hmin : ∀ j, 0 < j → parent j = i → f c ≤ f j) :
    SiftsDown (exchange f i c) c := by
  have hic : i < c := hci ▸ parent_lt hc
  constructor
  · intro j hj hpj
    by_cases hji : j = i
    · subst hji
      rw [exchange_left, exchange_other f (by have := parent_lt hj; omega) hpj]
      exact o.grand c hj hc hci
    · by_cases hpi : parent j = i
      · rw [hpi, exchange_left]
        by_cases hjc : j = c
        · subst hjc
          rw [exchange_right]
          exact hlt.le
        · rw [exchange_other f hji hjc]
          exact hmin j hj hpi
      · have hjc : j ≠ c := by rintro rfl; exact hpi hci
        rw [exchange_other f hji hjc, exchange_other f hpi hpj]
        exact o.except j hj hpi
  · intro j _ hj hpj
    have hcj : c < j := hpj ▸ parent_lt hj
    rw [hci, exchange_left, exchange_other f (by omega) (by omega)]
    exact hpj ▸ o.except j hj (by omega)

theorem SiftsDown.done (o : SiftsDown f i) (h : ∀ j, 0 < j → parent j = i → f i ≤ f j) :
    Ordered f := by
  intro j hj
  by_cases hpj : parent j = i
  · rw [hpj]
    exact h j hj hpj
  · exact o.except j hj hpj

/-- `g` is the ordered `f` cut off at `n`, with another value at `i`.  Only the
pairs below `i` can be out of order, provided that value is not before the
parent of `i`. -/
theorem Ordered.replace {g : ℕ → κ} {n : ℕ} (h : Ordered f) (hin : i < n)
    (htop : ∀ j k, n ≤ j → g k ≤ g j) (hg : ∀ j, j < n → j ≠ i → g j = f j)
    (hi : 0 < i → f (parent i) ≤ g i) : SiftsDown g i := by
  constructor
  · intro j hj hpj
    rcases Nat.lt_or_ge j n with hjn | hjn
    · have hpn : parent j < n := (parent_lt hj).trans hjn
      rw [hg _ hpn hpj]
      by_cases hji : j = i
      · subst hji
        exact hi hj
      · rw [hg j hjn hji]
        exact h j hj
    · exact htop j _ hjn
  · intro j hi0 hj hpj
    have hij : i < j := hpj ▸ parent_lt hj
    have hpi := parent_lt hi0
    rcases Nat.lt_or_ge j n with hjn | hjn
    · rw [hg _ (hpi.trans hin) hpi.ne, hg j hjn hij.ne']
      exact (h i hi0).trans (hpj ▸ h j hj)
    · exact htop j _ hjn

end Order

/-! ## Exchanging two entries of a list -/

section Exchange

variable {α : Type*} {xs : List α} {i j : ℕ}

/-- `xs` with the entries at `i` and `j` exchanged; `xs` itself when one of
the positions is out of range. -/
def swapAt (xs : List α) (i j : ℕ) : List α :=
  match xs[i]?, xs[j]? with
  | some a, some b => (xs.set i b).set j a
  | _, _ => xs

theorem swapAt_eq (hi : i < xs.length) (hj : j < xs.length) :
    swapAt xs i j = (xs.set i xs[j]).set j xs[i] := by
  simp [swapAt, hi, hj]

@[simp] theorem length_swapAt : (swapAt xs i j).length = xs.length := by
  unfold swapAt
  split <;> simp

theorem getElem?_swapAt (hi : i < xs.length) (hj : j < xs.length) (k : ℕ) :
    (swapAt xs i j)[k]? = exchange (fun n => xs[n]?) i j k := by
  have hi' : xs[i]? = some xs[i] := List.getElem?_eq_getElem hi
  have hj' : xs[j]? = some xs[j] := List.getElem?_eq_getElem hj
  rw [swapAt_eq hi hj]
  simp only [List.getElem?_set, List.length_set, exchange, hi, hj, hi', hj', if_true,
    eq_comm (b := k)]
  split_ifs with hki hkj hkj
  · subst hki; subst hkj; rfl
  · rfl
  · rfl
  · rfl

theorem swapAt_perm : (swapAt xs i j).Perm xs := by
  unfold swapAt
  split
  · rename_i a b ha hb
    obtain ⟨hi, rfl⟩ := List.getElem?_eq_some_iff.mp ha
    obtain ⟨hj, rfl⟩ := List.getElem?_eq_some_iff.mp hb
    exact List.set_set_perm hi hj
  · exact List.Perm.refl _

theorem swapAt_comm (hi : i < xs.length) (hj : j < xs.length) : swapAt xs i j = swapAt xs j i := by
  rw [swapAt_eq hi hj, swapAt_eq hj hi]
  by_cases h : i = j
  · subst h
    rfl
  · exact List.set_comm _ _ h

theorem swapAt_self (xs : List α) (i : ℕ) : swapAt xs i i = xs := by
  unfold swapAt
  cases h : xs[i]? with
  | none => rfl
  | some a =>
      obtain ⟨hi, rfl⟩ := List.getElem?_eq_some_iff.mp h
      simp

theorem swapAt_ends (a b : α) (xs : List α) :
    swapAt (a :: (xs ++ [b])) 0 (xs.length + 1) = b :: (xs ++ [a]) := by
  simp [swapAt]

theorem map_swapAt {β : Type*} (g : α → β) :
    (swapAt xs i j).map g = swapAt (xs.map g) i j := by
  unfold swapAt
  simp only [List.getElem?_map]
  cases xs[i]? <;> cases xs[j]? <;> simp [List.map_set]

/-- `xs` without the entry at `i`, whose place the last one has taken. -/
def without (xs : List α) (i : ℕ) : List α := (swapAt xs i (xs.length - 1)).dropLast

theorem without_perm {x : α} (hx : xs[i]? = some x) :
    xs.Perm (x :: without xs i) := by
  obtain ⟨hi, rfl⟩ := List.getElem?_eq_some_iff.mp hx
  have hne : swapAt xs i (xs.length - 1) ≠ [] := by
    rw [← List.length_pos_iff, length_swapAt]
    omega
  have hlast : (swapAt xs i (xs.length - 1)).getLast hne = xs[i] := by
    apply Option.some.inj
    rw [← List.getLast?_eq_some_getLast hne, List.getLast?_eq_getElem?, length_swapAt,
      getElem?_swapAt hi (by omega), exchange_right, List.getElem?_eq_getElem hi]
  calc xs.Perm (swapAt xs i (xs.length - 1)) := swapAt_perm.symm
    _ = (swapAt xs i (xs.length - 1)).dropLast ++ [xs[i]] := by
        rw [← hlast, List.dropLast_append_getLast]
    List.Perm _ (xs[i] :: without xs i) :=
        List.perm_append_singleton _ _

theorem map_without {β : Type*} (g : α → β) (xs : List α) (i : ℕ) :
    (without xs i).map g = without (xs.map g) i := by
  rw [without, without, List.map_dropLast, map_swapAt, List.length_map]

@[simp] theorem length_without (xs : List α) (i : ℕ) : (without xs i).length = xs.length - 1 := by
  rw [without, List.length_dropLast, length_swapAt]

theorem without_last (xs : List α) : without xs (xs.length - 1) = xs.dropLast := by
  rw [without, swapAt_self]

theorem getElem?_without (hi : i < xs.length) (k : ℕ) : (without xs i)[k]? =
    if k < xs.length - 1 then xs[if k = i then xs.length - 1 else k]? else none := by
  rw [without, List.getElem?_dropLast, length_swapAt, getElem?_swapAt (by omega) (by omega)]
  by_cases hk : k < xs.length - 1
  · rw [if_pos hk, if_pos hk, exchange]
    split
    · rfl
    · rw [if_neg (by omega)]
  · rw [if_neg hk, if_neg hk]

/-- An entry that is left stood at a position of its own before, in every list. -/
theorem exists_before_without {k : ℕ} {x : α} (hi : i < xs.length)
    (hx : (without xs i)[k]? = some x) :
    ∃ j : ℕ, xs[j]? = some x ∧ ∀ {β : Type*} (ys : List β), ys.length = xs.length →
      (without ys i)[k]? = ys[j]? := by
  have hk : k < xs.length - 1 := by
    by_contra hk
    rw [getElem?_without hi, if_neg hk] at hx
    exact Option.some_ne_none x hx.symm
  rw [getElem?_without hi, if_pos hk] at hx
  refine ⟨_, hx, fun ys hlen => ?_⟩
  rw [getElem?_without (by omega), hlen, if_pos hk]

end Exchange

/-! ## The sifts on lists -/

section Sift

variable {α κ : Type*} (key : α → κ)

/-- The key at a position, `⊤` past the end. -/
def keyAt (xs : List α) (i : ℕ) : WithTop κ := (xs[i]?).elim ⊤ fun x => (key x : WithTop κ)

variable {key} {xs : List α} {x : α} {i j : ℕ}

theorem keyAt_of_le (h : xs.length ≤ i) : keyAt key xs i = ⊤ := by
  simp [keyAt, List.getElem?_eq_none h]

theorem keyAt_of_getElem? (h : xs[i]? = some x) : keyAt key xs i = key x := by
  simp [keyAt, h]

theorem keyAt_swapAt (hi : i < xs.length) (hj : j < xs.length) :
    keyAt key (swapAt xs i j) = exchange (keyAt key xs) i j := by
  funext k
  simp only [keyAt, getElem?_swapAt hi hj, exchange]
  split_ifs <;> rfl

/-- The keys once the last entry has taken the place of the one at `i`. -/
theorem keyAt_without (hi : i < xs.length) (j : ℕ) : keyAt key (without xs i) j =
    if j < xs.length - 1 then exchange (keyAt key xs) i (xs.length - 1) j else ⊤ := by
  rw [← keyAt_swapAt hi (by omega)]
  unfold keyAt without
  rw [List.getElem?_dropLast, length_swapAt]
  split_ifs <;> rfl

theorem keyAt_append_of_lt (h : i < xs.length) : keyAt key (xs ++ [x]) i = keyAt key xs i := by
  simp [keyAt, List.getElem?_append_left h]

variable [LinearOrder κ]

theorem keyAt_lt_iff (key : α → κ) {y : α} (hi : xs[i]? = some x) (hj : xs[j]? = some y) :
    keyAt key xs i < keyAt key xs j ↔ key x < key y := by
  rw [keyAt_of_getElem? hi, keyAt_of_getElem? hj, WithTop.coe_lt_coe]

variable (key) in
/-- The keys of `xs` are in heap order. -/
def HeapOrdered (xs : List α) : Prop := Ordered (keyAt key xs)

theorem lt_length_of_keyAt_lt {k : WithTop κ} (h : keyAt key xs i < k) : i < xs.length := by
  by_contra hn
  rw [keyAt_of_le (Nat.le_of_not_lt hn)] at h
  exact not_top_lt h

theorem HeapOrdered.root_le {r : α} (h : HeapOrdered key xs) (hr : xs[0]? = some r) :
    ∀ x ∈ xs, key r ≤ key x := by
  intro x hx
  obtain ⟨i, hi⟩ := List.mem_iff_getElem?.mp hx
  have := Ordered.root_le h i
  rwa [keyAt_of_getElem? hr, keyAt_of_getElem? hi, WithTop.coe_le_coe] at this

variable (key)

/-- Moves the entry at `i` up while its key is smaller than its parent's; the
list reached and the position the entry stops at. -/
def siftUp (xs : List α) (i : ℕ) : List α × ℕ :=
  if _h : 0 < i ∧ keyAt key xs i < keyAt key xs (parent i) then
    siftUp (swapAt xs i (parent i)) (parent i)
  else (xs, i)
termination_by i
decreasing_by exact parent_lt _h.1

/-- The position `c` if its key is smaller than the key at `b`, else `b`. -/
def smaller (xs : List α) (b c : ℕ) : ℕ := if keyAt key xs c < keyAt key xs b then c else b

/-- The child that takes the place of the entry at `i`: the smaller of the
children, the left one when they are equal; `i` itself when neither child is
smaller. -/
def candidate (xs : List α) (i : ℕ) : ℕ :=
  smaller key xs (smaller key xs i (2 * i + 1)) (2 * i + 2)

variable {key}

theorem smaller_le_left (b c : ℕ) : keyAt key xs (smaller key xs b c) ≤ keyAt key xs b := by
  unfold smaller
  split_ifs with h
  · exact h.le
  · exact le_refl _

theorem smaller_le_right (b c : ℕ) : keyAt key xs (smaller key xs b c) ≤ keyAt key xs c := by
  unfold smaller
  split_ifs with h
  · exact le_refl _
  · exact not_lt.mp h

theorem smaller_cases (b c : ℕ) :
    smaller key xs b c = b ∨ smaller key xs b c = c ∧ keyAt key xs c < keyAt key xs b := by
  unfold smaller
  split_ifs with h
  · exact .inr ⟨rfl, h⟩
  · exact .inl rfl

/-- The candidate is at or before both children. -/
theorem candidate_le (j : ℕ) (hj : 0 < j) (hpj : parent j = i) :
    keyAt key xs (candidate key xs i) ≤ keyAt key xs j := by
  rcases (parent_eq_iff hj).mp hpj with rfl | rfl
  · exact (smaller_le_left _ _).trans (smaller_le_right _ _)
  · exact smaller_le_right _ _

/-- A candidate other than the entry is a child with a smaller key. -/
theorem candidate_child (h : candidate key xs i ≠ i) :
    0 < candidate key xs i ∧ parent (candidate key xs i) = i ∧
      keyAt key xs (candidate key xs i) < keyAt key xs i := by
  have hleft : parent (2 * i + 1) = i := by unfold parent; omega
  have hright : parent (2 * i + 2) = i := by unfold parent; omega
  unfold candidate at h ⊢
  rcases @smaller_cases _ _ key xs _ (smaller key xs i (2 * i + 1)) (2 * i + 2) with
    hr | ⟨hr, hlt⟩
  · rw [hr] at h ⊢
    rcases @smaller_cases _ _ key xs _ i (2 * i + 1) with hl | ⟨hl, hlt⟩
    · exact absurd hl h
    · rw [hl]
      exact ⟨by omega, hleft, hlt⟩
  · rw [hr]
    exact ⟨by omega, hright, hlt.trans_le (smaller_le_left _ _)⟩

theorem lt_candidate (h : candidate key xs i ≠ i) : i < candidate key xs i := by
  obtain ⟨hc, hp, -⟩ := candidate_child h
  have := parent_lt hc
  rwa [hp] at this

theorem candidate_lt_length (h : candidate key xs i ≠ i) : candidate key xs i < xs.length :=
  lt_length_of_keyAt_lt (candidate_child h).2.2

variable (key)

/-- Moves the entry at `i` down, in the place of its smaller child, while that
child's key is smaller. -/
def siftDown (xs : List α) (i : ℕ) : List α :=
  if _h : candidate key xs i = i then xs
  else siftDown (swapAt xs i (candidate key xs i)) (candidate key xs i)
termination_by xs.length - i
decreasing_by
  have h₁ := lt_candidate _h
  have h₂ := candidate_lt_length _h
  rw [length_swapAt]
  omega

variable {key}

theorem siftUp_perm (xs : List α) (i : ℕ) : (siftUp key xs i).1.Perm xs := by
  induction xs, i using siftUp.induct key with
  | case1 xs i h ih =>
      rw [siftUp, dif_pos h]
      exact ih.trans swapAt_perm
  | case2 xs i h =>
      rw [siftUp, dif_neg h]

theorem siftUp_ordered (hi : i < xs.length) (o : SiftsUp (keyAt key xs) i) :
    HeapOrdered key (siftUp key xs i).1 := by
  induction xs, i using siftUp.induct key with
  | case1 xs i h ih =>
      rw [siftUp, dif_pos h]
      have hp : parent i < xs.length := (parent_lt h.1).trans hi
      refine ih (by rwa [length_swapAt]) ?_
      rw [keyAt_swapAt hi hp]
      exact o.swap h.1 h.2
  | case2 xs i h =>
      rw [siftUp, dif_neg h]
      exact o.done fun hi0 => not_lt.mp fun hlt => h ⟨hi0, hlt⟩

theorem siftDown_perm (xs : List α) (i : ℕ) : (siftDown key xs i).Perm xs := by
  induction xs, i using siftDown.induct key with
  | case1 xs i h =>
      rw [siftDown, dif_pos h]
  | case2 xs i h ih =>
      rw [siftDown, dif_neg h]
      exact ih.trans swapAt_perm

theorem siftDown_ordered (o : SiftsDown (keyAt key xs) i) :
    HeapOrdered key (siftDown key xs i) := by
  induction xs, i using siftDown.induct key with
  | case1 xs i h =>
      rw [siftDown, dif_pos h]
      exact o.done fun j hj hpj => (congrArg (keyAt key xs) h).ge.trans (candidate_le j hj hpj)
  | case2 xs i h ih =>
      rw [siftDown, dif_neg h]
      obtain ⟨hc, hp, hlt⟩ := candidate_child h
      apply ih
      rw [keyAt_swapAt ((lt_candidate h).trans (candidate_lt_length h)) (candidate_lt_length h)]
      exact o.swap hc hp hlt candidate_le

/-- Sifting down from a position leaves those before it as they are. -/
theorem getElem?_siftDown_of_lt (hj : j < i) : (siftDown key xs i)[j]? = xs[j]? := by
  induction xs, i using siftDown.induct key with
  | case1 xs i h =>
      rw [siftDown, dif_pos h]
  | case2 xs i h ih =>
      have hic := lt_candidate h
      have hc := candidate_lt_length h
      rw [siftDown, dif_neg h, ih (hj.trans hic), getElem?_swapAt (hic.trans hc) hc,
        exchange_other _ hj.ne (hj.trans hic).ne]

/-- The key at the start of a sift does not grow: the entry stays or a smaller one takes its
place. -/
theorem keyAt_siftDown_le (xs : List α) (i : ℕ) :
    keyAt key (siftDown key xs i) i ≤ keyAt key xs i := by
  rw [siftDown]
  split_ifs with h
  · exact le_refl _
  · have hic := lt_candidate h
    have hc := candidate_lt_length h
    have hstart : keyAt key (siftDown key (swapAt xs i (candidate key xs i)) (candidate key xs i)) i
        = keyAt key (swapAt xs i (candidate key xs i)) i := by
      unfold keyAt
      rw [getElem?_siftDown_of_lt hic]
    rw [hstart, keyAt_swapAt (hic.trans hc) hc, exchange_left]
    exact (candidate_child h).2.2.le

/-- The sift up leaves the root as it is unless the entry gets there. -/
theorem getElem?_zero_siftUp (hi : i < xs.length) (h0 : (siftUp key xs i).2 ≠ 0) :
    (siftUp key xs i).1[0]? = xs[0]? := by
  induction xs, i using siftUp.induct key with
  | case1 xs i h ih =>
      rw [siftUp, dif_pos h] at h0 ⊢
      have hp : parent i < xs.length := (parent_lt h.1).trans hi
      have hp0 : parent i ≠ 0 := by
        intro hp0
        rw [hp0, siftUp, dif_neg fun hc => Nat.lt_irrefl 0 hc.1] at h0
        exact h0 rfl
      rw [ih (by rwa [length_swapAt]) h0, getElem?_swapAt hi hp,
        exchange_other _ h.1.ne hp0.symm]
  | case2 xs i h =>
      rw [siftUp, dif_neg h]

/-- The entry that is sifted up is at the position that is returned. -/
theorem getElem?_siftUp (hi : i < xs.length) :
    (siftUp key xs i).1[(siftUp key xs i).2]? = xs[i]? := by
  induction xs, i using siftUp.induct key with
  | case1 xs i h ih =>
      have hp : parent i < xs.length := (parent_lt h.1).trans hi
      rw [siftUp, dif_pos h, ih (by rwa [length_swapAt]), getElem?_swapAt hi hp, exchange_right]
  | case2 xs i h =>
      rw [siftUp, dif_neg h]

/-- What is sifted up to the root is strictly before the old root. -/
theorem keyAt_lt_root_of_siftUp (hi : i < xs.length) (hpos : 0 < i)
    (h0 : (siftUp key xs i).2 = 0) : keyAt key xs i < keyAt key xs 0 := by
  induction xs, i using siftUp.induct key with
  | case1 xs i h ih =>
      have hp : parent i < xs.length := (parent_lt h.1).trans hi
      rcases Nat.eq_zero_or_pos (parent i) with hp0 | hp0
      · exact hp0 ▸ h.2
      · rw [siftUp, dif_pos h] at h0
        have hlt := ih (by rwa [length_swapAt]) hp0 h0
        rwa [keyAt_swapAt hi hp, exchange_right, exchange_other _ hpos.ne hp0.ne] at hlt
  | case2 xs i h =>
      rw [siftUp, dif_neg h] at h0
      exact absurd h0 hpos.ne'

/-- An entry that is strictly before all others is sifted up to the root. -/
theorem siftUp_root_of_lt (hi : i < xs.length)
    (h : ∀ j, j < xs.length → j ≠ i → keyAt key xs i < keyAt key xs j) :
    (siftUp key xs i).2 = 0 := by
  induction xs, i using siftUp.induct key with
  | case1 xs i hlt ih =>
      have hp : parent i < xs.length := (parent_lt hlt.1).trans hi
      rw [siftUp, dif_pos hlt]
      refine ih (by rwa [length_swapAt]) fun j hj hne => ?_
      rw [length_swapAt] at hj
      rw [keyAt_swapAt hi hp, exchange_right]
      rcases eq_or_ne j i with rfl | hji
      · rw [exchange_left]
        exact hlt.2
      · rw [exchange_other _ hji hne]
        exact h j hj hji
  | case2 xs i hnot =>
      rw [siftUp, dif_neg hnot]
      by_contra h0
      have hpos : 0 < i := Nat.pos_of_ne_zero h0
      exact hnot ⟨hpos, h _ ((parent_lt hpos).trans hi) (parent_lt hpos).ne⟩

/-- A root that is not after any entry stays where it is. -/
theorem siftDown_root_of_le {x : α} (h : ∀ y ∈ xs, key x ≤ key y) :
    siftDown key (x :: xs) 0 = x :: xs := by
  rw [siftDown, dif_pos]
  by_contra hne
  obtain ⟨hpos, -, hlt⟩ := candidate_child hne
  have hlen : candidate key (x :: xs) 0 < (x :: xs).length := candidate_lt_length hne
  obtain ⟨j, hj⟩ := Nat.exists_eq_succ_of_ne_zero hpos.ne'
  rw [hj] at hlt hlen
  obtain ⟨y, hy⟩ : ∃ y, xs[j]? = some y :=
    ⟨_, List.getElem?_eq_getElem (by simpa using hlen)⟩
  rw [keyAt_lt_iff key (x := y) (by simpa using hy) rfl] at hlt
  exact absurd hlt (not_lt.mpr (h y (List.mem_of_getElem? hy)))

/-- Sifting down from the end of a list does nothing. -/
theorem siftDown_of_le (h : xs.length ≤ i) : siftDown key xs i = xs := by
  have hc : candidate key xs i = i := by
    by_contra hne
    have h₁ := lt_candidate hne
    have h₂ := candidate_lt_length hne
    omega
  rw [siftDown, dif_pos hc]

end Sift

/-! ## Insertion, removal, replacement of the root -/

section Operations

variable {α κ : Type*} [LinearOrder κ] (key : α → κ)

/-- Puts `x` at the end and sifts it up; the position it ends at is returned. -/
def push (xs : List α) (x : α) : List α × ℕ := siftUp key (xs ++ [x]) xs.length

/-- Takes out the entry at `i`: the last entry takes its place and is sifted down. -/
def removeAt (xs : List α) (i : ℕ) : List α :=
  siftDown key (without xs i) i

/-- Replaces the root by `x` and sifts it down. -/
def replaceRoot (xs : List α) (x : α) : List α := siftDown key (xs.set 0 x) 0

variable {key} {xs : List α} {x : α} {i : ℕ}

theorem push_perm (xs : List α) (x : α) : (push key xs x).1.Perm (x :: xs) :=
  (siftUp_perm _ _).trans (List.perm_append_singleton x xs)

/-- The entry put at the end is the only one that can be before its parent. -/
theorem HeapOrdered.append (h : HeapOrdered key xs) (x : α) :
    SiftsUp (keyAt key (xs ++ [x])) xs.length := by
  have hend : ∀ j, xs.length < j → keyAt key (xs ++ [x]) j = ⊤ := fun j hj =>
    keyAt_of_le (by simpa using Nat.succ_le_of_lt hj)
  constructor
  · intro j hj hne
    rcases Nat.lt_or_gt_of_ne hne with hlt | hgt
    · rw [keyAt_append_of_lt hlt, keyAt_append_of_lt ((parent_lt hj).trans hlt)]
      exact h j hj
    · rw [hend j hgt]
      exact le_top
  · intro j _ hj hpj
    rw [hend j (hpj ▸ parent_lt hj)]
    exact le_top

theorem push_ordered (h : HeapOrdered key xs) (x : α) : HeapOrdered key (push key xs x).1 :=
  siftUp_ordered (by simp) (h.append x)

/-- The root after an insertion: the new entry if it ends there, else the old root. -/
theorem getElem?_zero_push (key : α → κ) (xs : List α) (x : α) :
    (push key xs x).1[0]? = if (push key xs x).2 = 0 then some x else xs[0]? := by
  have hlen : xs.length < (xs ++ [x]).length := by simp
  split_ifs with h0
  · have hend :
        (siftUp key (xs ++ [x]) xs.length).1[(siftUp key (xs ++ [x]) xs.length).2]? = some x := by
      rw [getElem?_siftUp hlen, List.getElem?_concat_length]
    rw [push] at h0 ⊢
    rwa [h0] at hend
  · rw [push, getElem?_zero_siftUp hlen h0]
    cases xs with
    | nil =>
        rw [push, List.length_nil, siftUp, dif_neg fun hc => Nat.lt_irrefl 0 hc.1] at h0
        exact absurd rfl h0
    | cons y ys => rfl

/-- An entry that is strictly before all others goes to the root, in heap order or not. -/
theorem push_root_of_lt (h : ∀ y ∈ xs, key x < key y) : (push key xs x).2 = 0 := by
  refine siftUp_root_of_lt (by simp) fun j hj hne => ?_
  have hlt : j < xs.length := by
    rw [List.length_append, List.length_singleton] at hj
    omega
  have hy : (xs ++ [x])[j]? = some xs[j] := by
    rw [List.getElem?_append_left hlt, List.getElem?_eq_getElem hlt]
  rw [keyAt_lt_iff key List.getElem?_concat_length hy]
  exact h _ (List.getElem_mem hlt)

/-- In heap order, an entry goes to the root when it is strictly before all others. -/
theorem push_root_iff (h : HeapOrdered key xs) (x : α) :
    (push key xs x).2 = 0 ↔ ∀ y ∈ xs, key x < key y := by
  refine ⟨fun h0 y hy => ?_, push_root_of_lt⟩
  obtain ⟨r, hr⟩ : ∃ r, xs[0]? = some r :=
    ⟨_, List.getElem?_eq_getElem (List.length_pos_of_mem hy)⟩
  have hpos : 0 < xs.length := List.length_pos_of_mem hy
  have hlt := keyAt_lt_root_of_siftUp (by simp) hpos h0
  rw [keyAt_lt_iff key List.getElem?_concat_length
    (by rw [List.getElem?_append_left hpos, hr])] at hlt
  exact hlt.trans_le (h.root_le hr y hy)

theorem removeAt_perm (key : α → κ) (hx : xs[i]? = some x) : xs.Perm (x :: removeAt key xs i) :=
  (without_perm hx).trans ((siftDown_perm _ _).symm.cons _)

/-- Removal keeps the heap when the last entry may stand at `i`, that is, when
it is not before the parent of `i`. -/
theorem removeAt_ordered (h : HeapOrdered key xs) (hi : i < xs.length)
    (hpar : 0 < i → i + 1 < xs.length → keyAt key xs (parent i) ≤ keyAt key xs (xs.length - 1)) :
    HeapOrdered key (removeAt key xs i) := by
  by_cases hlast : i + 1 < xs.length
  · refine siftDown_ordered (Ordered.replace (n := xs.length - 1) h (by omega) ?_ ?_ ?_)
    · intro j k hj
      rw [keyAt_without hi j, if_neg (by omega)]
      exact le_top
    · intro j hj hji
      rw [keyAt_without hi j, if_pos hj, exchange_other _ hji (by omega)]
    · intro hi0
      rw [keyAt_without hi i, if_pos (by omega), exchange_left]
      exact hpar hi0 hlast
  · -- the entry taken out is the last one
    rw [removeAt, siftDown_of_le (by simp; omega)]
    have hil : i = xs.length - 1 := by omega
    intro j hj
    rw [keyAt_without hi j]
    split_ifs with hjn
    · have hpj := parent_lt hj
      rw [keyAt_without hi, if_pos (hpj.trans hjn), exchange_other _ (by omega) (by omega),
        exchange_other _ (by omega) (by omega)]
      exact h j hj
    · exact le_top

/-- And only then: the parent of `i` is not touched, and what stands at `i` in
the end is at or before the last entry. -/
theorem removeAt_ordered_iff (h : HeapOrdered key xs) (hi : i < xs.length) :
    HeapOrdered key (removeAt key xs i) ↔
      (0 < i → i + 1 < xs.length →
        keyAt key xs (parent i) ≤ keyAt key xs (xs.length - 1)) := by
  refine ⟨fun ho hi0 hlast => ?_, removeAt_ordered h hi⟩
  have hp := parent_lt hi0
  have hparent : keyAt key (removeAt key xs i) (parent i) = keyAt key xs (parent i) := by
    have hw : keyAt key (without xs i) (parent i) = keyAt key xs (parent i) := by
      rw [keyAt_without hi, if_pos (by omega), exchange_other _ (by omega) (by omega)]
    rw [← hw]
    unfold keyAt removeAt
    rw [getElem?_siftDown_of_lt hp]
  have hlastKey : keyAt key (without xs i) i = keyAt key xs (xs.length - 1) := by
    rw [keyAt_without hi, if_pos (by omega), exchange_left]
  calc keyAt key xs (parent i) = keyAt key (removeAt key xs i) (parent i) := hparent.symm
    _ ≤ keyAt key (removeAt key xs i) i := ho i hi0
    _ ≤ keyAt key (without xs i) i := keyAt_siftDown_le _ i
    _ = keyAt key xs (xs.length - 1) := hlastKey

/-- Removal of another entry leaves the root. -/
theorem getElem?_zero_removeAt (hi : i < xs.length) (h0 : 0 < i) :
    (removeAt key xs i)[0]? = xs[0]? := by
  rw [removeAt, getElem?_siftDown_of_lt h0, getElem?_without hi, if_pos (by omega),
    if_neg h0.ne]

theorem replaceRoot_perm (key : α → κ) {r : α} (tl : List α) (x : α) :
    (replaceRoot key (r :: tl) x).Perm (x :: tl) :=
  siftDown_perm _ _

theorem replaceRoot_ordered (h : HeapOrdered key xs) (x : α) :
    HeapOrdered key (replaceRoot key xs x) := by
  cases xs with
  | nil =>
      rw [replaceRoot, List.set_nil, siftDown_of_le (by simp)]
      exact h
  | cons r tl =>
      refine siftDown_ordered (Ordered.replace (n := (r :: tl).length) h (by simp) ?_ ?_ ?_)
      · intro j k hj
        rw [keyAt_of_le (i := j) (by simpa using hj)]
        exact le_top
      · intro j _ hj
        cases j with
        | zero => exact absurd rfl hj
        | succ j => simp [keyAt]
      · intro h0
        exact absurd h0 (Nat.lt_irrefl 0)

end Operations

end BinHeap
