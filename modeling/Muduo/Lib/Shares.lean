/-
# `Muduo.Lib.Shares` — what the parts of a list hold together

Each part of a list holds a share (`g`), and the list holds their sum.  When one
part changes, the sum changes by what that part's share changes.
-/
import Mathlib.Algebra.Ring.Nat
import Mathlib.Data.List.Basic

namespace Shares

variable {α β : Type*} [BEq β] {l : List α} {i : ℕ} {y : α}

/-- How often `x` is held before and after part `i` changes. -/
theorem count_modify (hi : l[i]? = some y) (f : α → α) (g : α → List β) (x : β) :
    ((l.modify i f).flatMap g).count x + (g y).count x =
      (l.flatMap g).count x + (g (f y)).count x := by
  induction l generalizing i with
  | nil => exact nomatch hi
  | cons z l ih =>
      cases i with
      | zero =>
          obtain rfl := Option.some.inj hi
          rw [List.modify_zero_cons, List.flatMap_cons, List.flatMap_cons, List.count_append,
            List.count_append]
          omega
      | succ i =>
          have hrest := ih hi
          rw [List.modify_succ_cons, List.flatMap_cons, List.flatMap_cons, List.count_append,
            List.count_append]
          omega

/-- What is held is held by one of the parts. -/
theorem exists_of_count_pos [LawfulBEq β] {g : α → List β} {x : β} (h : 0 < (l.flatMap g).count x) :
    ∃ (i : ℕ) (y : α), l[i]? = some y ∧ x ∈ g y := by
  obtain ⟨y, hy, hx⟩ := List.mem_flatMap.mp (List.count_pos_iff.mp h)
  obtain ⟨i, hi⟩ := List.mem_iff_getElem?.mp hy
  exact ⟨i, y, hi, hx⟩

/-- The sum of the weights before and after part `i` is replaced. -/
theorem sum_set (hi : l[i]? = some y) (w : α → ℕ) (z : α) :
    ((l.set i z).map w).sum + w y = (l.map w).sum + w z := by
  induction l generalizing i with
  | nil => exact nomatch hi
  | cons x l ih =>
      cases i with
      | zero =>
          obtain rfl := Option.some.inj hi
          rw [List.set_cons_zero, List.map_cons, List.map_cons, List.sum_cons, List.sum_cons]
          omega
      | succ i =>
          have hrest := ih hi
          rw [List.set_cons_succ, List.map_cons, List.map_cons, List.sum_cons, List.sum_cons]
          omega

end Shares
