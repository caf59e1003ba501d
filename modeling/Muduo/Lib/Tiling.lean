/-
# `Muduo.Lib.Tiling` — pieces of memory that tile areas of memory

A piece `(p, n)` is the addresses `[p, p + n)`.  `covers bs x` counts the pieces
of `bs` that `x` lies in; two lists of pieces `Tile` the same memory when they
cover every address equally often.  Cutting a piece in two and reordering the
pieces keep the count, so that an allocator which only cuts and moves pieces can
neither lose a byte nor hand one out twice: where the areas are disjoint, so are
the pieces (`Tiles.pairwise`).
-/
import Mathlib.Algebra.Ring.Nat
import Mathlib.Order.Nat
import Mathlib.Data.List.Flatten
import Mathlib.Data.List.Range
import Mathlib.Logic.Function.Basic

namespace Tiling

/-- The addresses `[p, p + n)`. -/
abbrev Piece := ℕ × ℕ

/-- `x` lies in `b`. -/
def Within (b : Piece) (x : ℕ) : Prop := b.1 ≤ x ∧ x < b.1 + b.2

instance (b : Piece) (x : ℕ) : Decidable (Within b x) := inferInstanceAs (Decidable (_ ∧ _))

/-- No address lies in both. -/
def Apart (a b : Piece) : Prop := ∀ x, ¬ (Within a x ∧ Within b x)

/-- How many pieces of `bs` cover `x`. -/
def covers (bs : List Piece) (x : ℕ) : ℕ := bs.countP fun b => Within b x

/-- The pieces `bs` cover what `as` covers. -/
def Tiles (bs as : List Piece) : Prop := ∀ x, covers bs x = covers as x

variable {as bs cs : List Piece} {a b : Piece} {p m n x : ℕ}

theorem apart_iff : Apart a b ↔ a.2 = 0 ∨ b.2 = 0 ∨ a.1 + a.2 ≤ b.1 ∨ b.1 + b.2 ≤ a.1 := by
  constructor
  · intro h
    have := h (max a.1 b.1)
    simp only [Within] at this
    omega
  · intro h x hx
    simp only [Within] at hx
    omega

instance (a b : Piece) : Decidable (Apart a b) := decidable_of_iff _ apart_iff.symm

theorem covers_append (bs cs : List Piece) (x : ℕ) :
    covers (bs ++ cs) x = covers bs x + covers cs x :=
  List.countP_append

theorem covers_cons (b : Piece) (bs : List Piece) (x : ℕ) :
    covers (b :: bs) x = covers bs x + if Within b x then 1 else 0 := by
  simp [covers, List.countP_cons]

theorem covers_perm (h : bs.Perm cs) (x : ℕ) : covers bs x = covers cs x := h.countP_eq _

/-- A piece cut in two covers what it covered. -/
theorem covers_split (p m n : ℕ) (bs : List Piece) (x : ℕ) :
    covers ((p, m) :: (p + m, n) :: bs) x = covers ((p, m + n) :: bs) x := by
  have hor : Within (p, m + n) x ↔ Within (p, m) x ∨ Within (p + m, n) x := by
    simp only [Within]
    omega
  have hnot : Within (p, m) x → ¬ Within (p + m, n) x := by
    simp only [Within]
    omega
  simp only [covers_cons, hor]
  by_cases h : Within (p, m) x
  · simp [h, hnot h]
  · simp [h]

/-- A piece of size zero covers nothing. -/
theorem covers_zero (p : ℕ) (bs : List Piece) (x : ℕ) : covers ((p, 0) :: bs) x = covers bs x := by
  rw [covers_cons, if_neg, Nat.add_zero]
  simp only [Within]
  omega

theorem covers_pos (hb : b ∈ bs) (hx : Within b x) : 0 < covers bs x :=
  List.countP_pos_iff.mpr ⟨b, hb, by simpa using hx⟩

theorem exists_of_covers_pos (h : 0 < covers bs x) : ∃ b ∈ bs, Within b x := by
  obtain ⟨b, hb, hx⟩ := List.countP_pos_iff.mp h
  exact ⟨b, hb, by simpa using hx⟩

/-- Pieces that cover no address twice are apart from one another. -/
theorem pairwise_apart (h : ∀ x, covers bs x ≤ 1) : bs.Pairwise Apart := by
  induction bs with
  | nil => exact .nil
  | cons b bs ih =>
      refine .cons (fun c hc x hx => ?_) (ih fun x => ?_)
      · have h₁ := h x
        have h₂ := covers_pos hc hx.2
        rw [covers_cons, if_pos hx.1] at h₁
        omega
      · have := h x
        rw [covers_cons] at this
        omega

/-- A piece apart from all others can be added. -/
theorem covers_cons_le_one (h : ∀ x, covers bs x ≤ 1) (ha : ∀ b ∈ bs, Apart a b) (x : ℕ) :
    covers (a :: bs) x ≤ 1 := by
  rw [covers_cons]
  split
  next hx =>
    have h0 : covers bs x = 0 := by
      by_contra hne
      obtain ⟨b, hb, hbx⟩ := exists_of_covers_pos (Nat.pos_of_ne_zero hne)
      exact ha b hb x ⟨hx, hbx⟩
    omega
  next => exact h x

theorem Tiles.pairwise (h : Tiles bs as) (ha : ∀ x, covers as x ≤ 1) : bs.Pairwise Apart :=
  pairwise_apart fun x => (h x).trans_le (ha x)

/-! ## Bytes -/

/-- The bytes of the pieces. -/
def total (bs : List Piece) : ℕ := (bs.map Prod.snd).sum

theorem total_cons (b : Piece) (bs : List Piece) : total (b :: bs) = b.2 + total bs := List.sum_cons

theorem total_append (bs cs : List Piece) : total (bs ++ cs) = total bs + total cs := by
  rw [total, List.map_append, List.sum_append]
  rfl

/-- The covered addresses below `n`, each as often as it is covered. -/
def coveredBelow (bs : List Piece) : ℕ → ℕ
  | 0 => 0
  | n + 1 => coveredBelow bs n + covers bs n

theorem coveredBelow_cons (b : Piece) (bs : List Piece) (n : ℕ) :
    coveredBelow (b :: bs) n = coveredBelow bs n + (min n (b.1 + b.2) - min n b.1) := by
  induction n with
  | zero => simp [coveredBelow]
  | succ n ih =>
      rw [coveredBelow, coveredBelow, ih, covers_cons]
      by_cases hx : Within b n
      · rw [if_pos hx]
        simp only [Within] at hx
        omega
      · rw [if_neg hx]
        simp only [Within] at hx
        omega

theorem coveredBelow_of_le (h : ∀ b ∈ bs, b.1 + b.2 ≤ n) : coveredBelow bs n = total bs := by
  induction bs with
  | nil =>
      have hzero : ∀ n, coveredBelow [] n = 0 := by
        intro n
        induction n with
        | zero => rfl
        | succ n ih => simp [coveredBelow, ih, covers]
      exact hzero n
  | cons b bs ih =>
      have hb := h b List.mem_cons_self
      rw [coveredBelow_cons, ih fun c hc => h c (List.mem_cons_of_mem _ hc), total_cons]
      omega

theorem exists_end (bs : List Piece) : ∃ n, ∀ b ∈ bs, b.1 + b.2 ≤ n := by
  induction bs with
  | nil => exact ⟨0, nofun⟩
  | cons b bs ih =>
      obtain ⟨n, hn⟩ := ih
      refine ⟨max (b.1 + b.2) n, List.forall_mem_cons.mpr ⟨le_max_left _ _, fun c hc => ?_⟩⟩
      exact (hn c hc).trans (le_max_right _ _)

/-- What tiles the same memory has as many bytes. -/
theorem Tiles.total_eq (h : Tiles bs as) : total bs = total as := by
  obtain ⟨n, hn⟩ := exists_end (bs ++ as)
  have hsame : coveredBelow bs n = coveredBelow as n := by
    clear hn
    induction n with
    | zero => rfl
    | succ n ih => rw [coveredBelow, coveredBelow, ih, h n]
  rw [← coveredBelow_of_le fun b hb => hn b (List.mem_append_left _ hb), hsame,
    coveredBelow_of_le fun b hb => hn b (List.mem_append_right _ hb)]

/-! ## Equal pieces in a row -/

/-- The addresses `p, p + n, …`, `m` of them. -/
def strided (n : ℕ) : ℕ → ℕ → List ℕ
  | 0, _ => []
  | m + 1, p => p :: strided n m (p + n)

theorem mem_strided : ∀ {m p : ℕ}, x ∈ strided n m p → p ≤ x ∧ ∃ j, x = p + n * j
  | 0, _, h => absurd h List.not_mem_nil
  | m + 1, p, h => by
      rcases List.mem_cons.mp h with rfl | h
      · exact ⟨le_refl _, 0, by simp⟩
      · obtain ⟨hle, j, rfl⟩ := mem_strided h
        refine ⟨by omega, j + 1, ?_⟩
        rw [Nat.mul_add, Nat.mul_one]
        omega

/-- A piece is cut into `m` equal ones. -/
theorem covers_strided (bs : List Piece) (x : ℕ) :
    ∀ m p, covers ((strided n m p).map (·, n) ++ bs) x = covers ((p, n * m) :: bs) x
  | 0, p => by simp [strided, covers_zero]
  | m + 1, p => by
      have hperm : ((p, n) :: ((strided n m (p + n)).map (·, n) ++ bs)).Perm
          ((strided n m (p + n)).map (·, n) ++ (p, n) :: bs) := List.perm_middle.symm
      have hswap : ((p + n, n * m) :: (p, n) :: bs).Perm ((p, n) :: (p + n, n * m) :: bs) :=
        List.Perm.swap _ _ _
      rw [strided, List.map_cons, List.cons_append, covers_perm hperm, covers_strided _ _ m,
        covers_perm hswap, covers_split, Nat.mul_add, Nat.mul_one, Nat.add_comm n]

end Tiling
