/-
# `Muduo.Lib.RoundRobin` — taking turns

The elements of a list go to `n` places in turn: the element at position `c` goes to
place `c % n`.  The index that says whose turn it is goes up by one and back to 0 at
`n`.  Then each place gets its share, and no place is ahead of another by more than one.
-/
import Mathlib.Data.Int.CardIntervalMod

namespace RoundRobin

variable {α β : Type*} {place : α → β} {slot : ℕ → β} {n : ℕ} {l : List α} {x : α}

/-- Each element went to the place whose turn it was. -/
def InTurn (place : α → β) (slot : ℕ → β) (n : ℕ) (l : List α) : Prop :=
  ∀ (c : ℕ) (x : α), l[c]? = some x → place x = slot (c % n)

theorem inTurn_nil (place : α → β) (slot : ℕ → β) (n : ℕ) : InTurn place slot n [] := nofun

theorem InTurn.snoc (h : InTurn place slot n l) (hx : place x = slot (l.length % n)) :
    InTurn place slot n (l ++ [x]) := by
  intro c y hy
  rcases Nat.lt_or_ge c l.length with hc | hc
  · rw [List.getElem?_append_left hc] at hy
    exact h c y hy
  · have hlt := (List.getElem?_eq_some_iff.mp hy).1
    rw [List.length_append, List.length_singleton] at hlt
    obtain rfl : c = l.length := Nat.le_antisymm (Nat.le_of_lt_succ hlt) hc
    rw [List.getElem?_concat_length] at hy
    exact Option.some.inj hy ▸ hx

theorem InTurn.of_snoc (h : InTurn place slot n (l ++ [x])) :
    InTurn place slot n l ∧ place x = slot (l.length % n) := by
  refine ⟨fun c y hy => h c y ?_, h l.length x List.getElem?_concat_length⟩
  rw [List.getElem?_append_left (List.getElem?_eq_some_iff.mp hy).1]
  exact hy

/-- An element that is replaced by one at the same place. -/
theorem InTurn.set (h : InTurn place slot n l) {c : ℕ} {y : α} (hx : l[c]? = some x)
    (hy : place y = place x) : InTurn place slot n (l.set c y) := by
  intro c' z hz
  rw [List.getElem?_set] at hz
  split at hz
  · next hc =>
      subst hc
      split at hz
      · exact Option.some.inj hz ▸ hy.trans (h c x hx)
      · exact nomatch hz
  · exact h c' z hz

/-- The index goes round. -/
theorem next_turn (hn : 0 < n) (m : ℕ) :
    (if m % n + 1 ≥ n then 0 else m % n + 1) = (m + 1) % n := by
  have hlt : m % n + 1 ≤ n := Nat.mod_lt m hn
  rw [← Nat.mod_add_mod]
  rcases Nat.lt_or_ge (m % n + 1) n with hsucc | hend
  · rw [if_neg (Nat.not_le.mpr hsucc), Nat.mod_eq_of_lt hsucc]
  · rw [if_pos hend, Nat.le_antisymm hlt hend, Nat.mod_self]

/-- How many of the elements are at a place. -/
theorem InTurn.countP [DecidableEq β] (hslot : Function.Injective slot)
    (h : InTurn place slot n l) {j : ℕ} (hj : j < n) :
    l.countP (place · = slot j) = l.length / n + if j < l.length % n then 1 else 0 := by
  have hcount : l.countP (place · = slot j) = l.length.count (· ≡ j [MOD n]) := by
    induction l using List.reverseRecOn with
    | nil => rfl
    | append_singleton l x ih =>
        obtain ⟨h, hx⟩ := h.of_snoc
        have hiff : place x = slot j ↔ l.length ≡ j [MOD n] := by
          rw [hx, hslot.eq_iff, Nat.ModEq, Nat.mod_eq_of_lt hj]
        rw [List.countP_append, ih h, List.length_append, List.length_singleton, Nat.count_succ]
        simp only [List.countP_singleton, decide_eq_true_eq, hiff]
  have hn : 0 < n := Nat.zero_lt_of_lt hj
  rw [hcount, Nat.count_modEq_card _ hn, Nat.mod_eq_of_lt hj]

/-- No place is ahead of another by more than one. -/
theorem InTurn.balanced [DecidableEq β] (hslot : Function.Injective slot)
    (h : InTurn place slot n l) {j j' : ℕ} (hj : j < n) (hj' : j' < n) :
    l.countP (place · = slot j) ≤ l.countP (place · = slot j') + 1 := by
  rw [h.countP hslot hj, h.countP hslot hj']
  split <;> split <;> omega

end RoundRobin
