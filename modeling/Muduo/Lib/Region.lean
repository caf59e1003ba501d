/-
# `Muduo.Lib.Region` — reading and writing stretches of a list

A list stands for a stretch of memory.  `slice xs i j` is what lies in `[i, j)`,
`write xs i data` puts `data` over what starts at `i`, and `scatter` fills a
sequence of stretches one after the other, as `readv` does.
-/
import Mathlib.Algebra.Ring.Nat
import Mathlib.Data.List.Basic
import Mathlib.Data.List.TakeDrop

namespace Region

variable {α : Type*} {xs data : List α} {i j k : ℕ}

/-- The elements at the positions `[i, j)`. -/
def slice (xs : List α) (i j : ℕ) : List α := (xs.take j).drop i

/-- `data` over the elements that start at `i`. -/
def write (xs : List α) (i : ℕ) (data : List α) : List α :=
  xs.take i ++ data ++ xs.drop (i + data.length)

/-- Exactly `n` elements: the first ones of `xs`, then copies of `z`. -/
def resize (z : α) (xs : List α) (n : ℕ) : List α :=
  xs.take n ++ List.replicate (n - xs.length) z

/-! ## Slices -/

theorem slice_eq_nil (h : j ≤ i) : slice xs i j = [] :=
  List.drop_eq_nil_of_le (Nat.le_trans (List.length_take_le _ _) h)

theorem length_slice (h : j ≤ xs.length) : (slice xs i j).length = j - i := by
  simp [slice, Nat.min_eq_left h]

theorem getElem?_slice (n : ℕ) :
    (slice xs i j)[n]? = if i + n < j then xs[i + n]? else none := by
  rw [slice, List.getElem?_drop, List.getElem?_take]

/-- Two slices that meet are one. -/
theorem slice_append (hij : i ≤ j) (hjk : j ≤ k) (hk : k ≤ xs.length) :
    slice xs i j ++ slice xs j k = slice xs i k := by
  apply List.ext_getElem?
  intro n
  have hl : (slice xs i j).length = j - i := length_slice (Nat.le_trans hjk hk)
  by_cases hn : n < j - i
  · rw [List.getElem?_append_left (by omega), getElem?_slice, getElem?_slice, if_pos (by omega),
      if_pos (by omega)]
  · rw [List.getElem?_append_right (by omega), getElem?_slice, getElem?_slice, hl,
      show j + (n - (j - i)) = i + n by omega]

theorem take_slice (n : ℕ) : (slice xs i j).take n = slice xs i (min (i + n) j) := by
  rw [slice, slice, List.take_drop, List.take_take]

theorem drop_slice (n : ℕ) : (slice xs i j).drop n = slice xs (i + n) j := by
  rw [slice, slice, List.drop_drop]

/-! ## Writes -/

theorem length_write (h : i + data.length ≤ xs.length) :
    (write xs i data).length = xs.length := by
  simp only [write, List.length_append, List.length_take, List.length_drop]
  omega

theorem getElem?_write (h : i + data.length ≤ xs.length) (n : ℕ) :
    (write xs i data)[n]? =
      if i ≤ n ∧ n < i + data.length then data[n - i]? else xs[n]? := by
  have hi : (xs.take i).length = i := by
    rw [List.length_take]
    omega
  rw [write, List.append_assoc]
  rcases Nat.lt_or_ge n i with hn | hn
  · rw [List.getElem?_append_left (by omega), List.getElem?_take_of_lt hn, if_neg (by omega)]
  rw [List.getElem?_append_right (by omega), hi]
  by_cases hd : n < i + data.length
  · rw [List.getElem?_append_left (by omega), if_pos ⟨hn, hd⟩]
  · rw [List.getElem?_append_right (by omega), List.getElem?_drop, if_neg (fun hc => hd hc.2),
      show i + data.length + (n - i - data.length) = n by omega]

/-- What was written is what is read. -/
theorem slice_write_self (h : i + data.length ≤ xs.length) :
    slice (write xs i data) i (i + data.length) = data := by
  apply List.ext_getElem?
  intro n
  rw [getElem?_slice, getElem?_write h]
  by_cases hn : n < data.length
  · rw [if_pos (by omega), if_pos ⟨by omega, by omega⟩, Nat.add_sub_cancel_left]
  · rw [if_neg (by omega), List.getElem?_eq_none (by omega)]

/-- A write leaves what lies outside it. -/
theorem slice_write_of_disjoint (h : i + data.length ≤ xs.length)
    (hd : k ≤ i ∨ i + data.length ≤ j) : slice (write xs i data) j k = slice xs j k := by
  apply List.ext_getElem?
  intro n
  rw [getElem?_slice, getElem?_slice, getElem?_write h]
  split_ifs with h₁ h₂
  · omega
  · rfl
  · rfl

/-! ## Resizing -/

theorem length_resize (z : α) (xs : List α) (n : ℕ) : (resize z xs n).length = n := by
  simp only [resize, List.length_append, List.length_take, List.length_replicate]
  omega

/-- What lies before the old end and the new one stays. -/
theorem slice_resize {z : α} {n : ℕ} (hj : j ≤ xs.length) (hn : j ≤ n) :
    slice (resize z xs n) i j = slice xs i j := by
  apply List.ext_getElem?
  intro m
  rw [getElem?_slice, getElem?_slice]
  split_ifs with hm
  · rw [resize, List.getElem?_append_left (by rw [List.length_take]; omega),
      List.getElem?_take_of_lt (by omega)]
  · rfl

/-! ## Scattered input -/

/-- A stretch of memory to fill, with the number of elements it takes. -/
structure Iovec (α : Type*) where
  base : List α
  len : ℕ

/-- The stretches after `data` was delivered to them, in order. -/
def scatter : List (Iovec α) → List α → List (List α)
  | [], _ => []
  | v :: vs, data => write v.base 0 (data.take v.len) :: scatter vs (data.drop v.len)

/-- How many elements the stretches take together. -/
def total (vs : List (Iovec α)) : ℕ := (vs.map Iovec.len).sum

end Region
