/-
# `Muduo.Lib.Text` — strings in buffers, and numbers in strings

A string of C begins where its buffer does and ends in front of the first
terminator `z`; what lies behind that is no part of it.  A function that writes
a string writes a terminator too, and `snprintf` cuts the text so that both fit.

A text that ends in a number tells which one, if what stands before the digits
is none itself (`numbered_inj`).
-/
import Mathlib.Data.List.Infix
import Muduo.Lib.Region

namespace Text

open Region

/-! ## Strings in buffers -/

section Terminated

variable {α : Type*} {z : α} {buf s t : List α} {n : ℕ}

/-- `strlen`; there is no result without a terminator. -/
def strlen [DecidableEq α] (z : α) (buf : List α) : Option ℕ := buf.findIdx? (· = z)

/-- The string in a buffer. -/
def content [DecidableEq α] (z : α) (buf : List α) : Option (List α) :=
  (strlen z buf).map fun n => buf.take n

/-- `s` and a terminator over what starts at `i`. -/
def put (z : α) (buf : List α) (i : ℕ) (s : List α) : List α := write buf i (s ++ [z])

/-- `snprintf(buf + i, n, ..)`, where the whole text would be `s`. -/
def snprintf (z : α) (buf : List α) (i n : ℕ) (s : List α) : List α :=
  if n = 0 then buf else put z buf i (s.take (n - 1))

/-- The string in the buffer is `s`. -/
def Reads (z : α) (buf s : List α) : Prop := z ∉ s ∧ s ++ [z] <+: buf

theorem Reads.strlen [DecidableEq α] (h : Reads z buf s) : strlen z buf = some s.length := by
  obtain ⟨hz, rest, rfl⟩ := h
  have hnone : s.findIdx? (fun x => decide (x = z)) = none := by
    rw [List.findIdx?_eq_none_iff]
    intro x hx
    exact decide_eq_false fun he => hz (he ▸ hx)
  rw [Text.strlen, List.append_assoc, List.findIdx?_append, hnone, List.singleton_append,
    List.findIdx?_cons, if_pos (decide_eq_true rfl)]
  simp

theorem Reads.content [DecidableEq α] (h : Reads z buf s) : content z buf = some s := by
  rw [Text.content, h.strlen, Option.map_some]
  obtain ⟨-, rest, rfl⟩ := h
  rw [List.append_assoc, List.take_left]

theorem Reads.isPrefix (h : Reads z buf s) : s <+: buf := (List.prefix_append s [z]).trans h.2

/-- What is put behind a text goes on with it. -/
theorem reads_put (hs : s <+: buf) (hz : z ∉ s) (ht : z ∉ t) :
    Reads z (put z buf s.length t) (s ++ t) := by
  obtain ⟨rest, rfl⟩ := hs
  refine ⟨fun hmem => (List.mem_append.mp hmem).elim hz ht, ?_⟩
  rw [put, write, List.take_left, ← List.append_assoc]
  exact List.prefix_append _ _

theorem reads_snprintf (hs : s <+: buf) (hz : z ∉ s) (ht : z ∉ t) (hn : 0 < n) :
    Reads z (snprintf z buf s.length n t) (s ++ t.take (n - 1)) := by
  rw [snprintf, if_neg hn.ne']
  exact reads_put hs hz fun hmem => ht (List.mem_of_mem_take hmem)

/-- A text that leaves room for the terminator is not cut. -/
theorem take_room (h : t.length < n) : t.take (n - 1) = t := List.take_of_length_le (by omega)

end Terminated

/-! ## Numbers in strings -/

/-- What stands behind the last of a separator is determined. -/
theorem append_cons_inj {α : Type*} {a : α} {xs ys d d' : List α} (hd : a ∉ d) (hd' : a ∉ d')
    (h : xs ++ a :: d = ys ++ a :: d') : d = d' := by
  have hone : ∀ {as d d' : List α}, a ∉ d → a :: d = as ++ a :: d' → d = d' := by
    intro as d d' hd h
    cases as with
    | nil => exact (List.cons.inj h).2
    | cons b as =>
        refine absurd ?_ hd
        rw [(List.cons.inj h).2]
        exact List.mem_append_right _ List.mem_cons_self
  rcases List.append_eq_append_iff.mp h with ⟨as, -, h⟩ | ⟨as, -, h⟩
  · exact hone hd h
  · exact (hone hd' h).symm

theorem not_mem_toDigits {c : Char} (hc : c.isDigit = false) (n : ℕ) : c ∉ Nat.toDigits 10 n := by
  intro hmem
  have hdigit := Nat.isDigit_of_mem_toDigits (by decide) (by decide) hmem
  rw [hc] at hdigit
  cases hdigit

/-- A number behind something that is no digit is determined. -/
theorem numbered_inj {c : Char} (hc : c.isDigit = false) {xs ys : List Char} {m n : ℕ}
    (h : xs ++ c :: Nat.toDigits 10 m = ys ++ c :: Nat.toDigits 10 n) : m = n := by
  have hdigits := append_cons_inj (not_mem_toDigits hc m) (not_mem_toDigits hc n) h
  have hnat := congrArg (Nat.ofDigitChars 10 · 0) hdigits
  simpa only [Nat.ofDigitChars_ten_toDigits] using hnat

theorem mem_toDigits {b n : ℕ} (hb : 1 < b) {c : Char} (h : c ∈ Nat.toDigits b n) :
    ∃ d, d < b ∧ c = Nat.digitChar d := by
  induction n using Nat.strongRecOn with
  | ind n ih =>
      rw [Nat.toDigits_eq_if hb] at h
      split at h
      next hlt => exact ⟨n, hlt, List.mem_singleton.mp h⟩
      next hge =>
        rcases List.mem_append.mp h with h | h
        · exact ih (n / b) (Nat.div_lt_self (by omega) hb) h
        · exact ⟨n % b, Nat.mod_lt n (by omega), List.mem_singleton.mp h⟩

/-! ## Groups with a separator between them -/

section Groups

variable {α : Type*} {c x : α} {gs : List (List α)} {k : ℕ}

theorem mem_intercalate (h : x ∈ [c].intercalate gs) : x = c ∨ ∃ g ∈ gs, x ∈ g := by
  induction gs with
  | nil => exact absurd h List.not_mem_nil
  | cons g gs ih =>
      cases gs with
      | nil =>
          rw [List.intercalate_singleton] at h
          exact .inr ⟨g, List.mem_cons_self, h⟩
      | cons g' gs =>
          rw [List.intercalate_cons_cons, List.append_assoc, List.mem_append,
            List.singleton_append, List.mem_cons] at h
          rcases h with h | h | h
          · exact .inr ⟨g, List.mem_cons_self, h⟩
          · exact .inl h
          · refine (ih h).imp_right fun ⟨g₀, hg, hx⟩ => ?_
            exact ⟨g₀, List.mem_cons_of_mem _ hg, hx⟩

/-- Groups of up to `k` elements. -/
theorem length_intercalate_le (h : ∀ g ∈ gs, g.length ≤ k) :
    ([c].intercalate gs).length ≤ (k + 1) * gs.length - 1 := by
  induction gs with
  | nil => exact Nat.zero_le _
  | cons g gs ih =>
      have hg := h g List.mem_cons_self
      have hgs := ih fun g' hg' => h g' (List.mem_cons_of_mem _ hg')
      cases gs with
      | nil =>
          rw [List.intercalate_singleton, List.length_singleton]
          omega
      | cons g' gs =>
          simp only [List.intercalate_cons_cons, List.length_append, List.length_cons,
            Nat.mul_add] at hgs ⊢
          simp only [List.length_nil]
          omega

end Groups

end Text
