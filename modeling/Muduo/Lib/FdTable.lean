/-
# `Muduo.Lib.FdTable` — the descriptor table of a process

A table with `limit` entries, each free or with an owner.  `alloc` takes the lowest
entry that is free and fails on a full table, `release` frees an entry.

    owner (alloc o)      the old owners, and `o` in an entry that was free
    owner (release fd)   the old owners, and `fd` free
    full                 `alloc` fails; not so after a `release` of an entry in use
-/
import Mathlib.Data.List.Range
import Mathlib.Logic.Function.Basic

/-- A descriptor table: the entries below `limit` are free or have an owner. -/
structure FdTable (ω : Type*) where
  limit : ℕ
  owner : ℕ → Option ω
  within : ∀ fd, owner fd ≠ none → fd < limit

namespace FdTable

variable {ω : Type*} {t t' : FdTable ω} {fd : ℕ} {o : ω}

/-- A table in which no entry is in use. -/
def empty (limit : ℕ) : FdTable ω :=
  { limit, owner := fun _ => none, within := fun _ h => absurd rfl h }

/-- The lowest entry that is free. -/
def lowest (t : FdTable ω) : Option ℕ :=
  (List.range t.limit).find? fun fd => (t.owner fd).isNone

def Full (t : FdTable ω) : Prop := t.lowest = none

instance (t : FdTable ω) : Decidable t.Full := inferInstanceAs (Decidable (_ = _))

theorem full_iff : t.Full ↔ ∀ fd < t.limit, t.owner fd ≠ none := by
  rw [Full, lowest, List.find?_eq_none]
  refine forall_congr' fun fd => ?_
  rw [List.mem_range, Option.isNone_iff_eq_none]

theorem lowest_eq_some : t.lowest = some fd → fd < t.limit ∧ t.owner fd = none := by
  intro h
  have hfree := List.find?_some (p := fun fd => (t.owner fd).isNone) h
  exact ⟨List.mem_range.mp (List.mem_of_find?_eq_some h), Option.isNone_iff_eq_none.mp hfree⟩

/-- Entry `fd` is given to `o`. -/
def give (t : FdTable ω) (fd : ℕ) (o : ω) (h : fd < t.limit) : FdTable ω where
  limit := t.limit
  owner := Function.update t.owner fd (some o)
  within := by
    intro f hf
    by_cases hfd : f = fd
    · exact hfd ▸ h
    · rw [Function.update_of_ne hfd] at hf
      exact t.within f hf

/-- `open(2)`, `accept(2)`, …: the lowest free entry. -/
def alloc (t : FdTable ω) (o : ω) : Option (ℕ × FdTable ω) :=
  match h : t.lowest with
  | some fd => some (fd, t.give fd o (lowest_eq_some h).1)
  | none => none

/-- `close(2)`. -/
def release (t : FdTable ω) (fd : ℕ) : FdTable ω where
  limit := t.limit
  owner := Function.update t.owner fd none
  within := by
    intro f hf
    by_cases hfd : f = fd
    · subst hfd
      rw [Function.update_self] at hf
      exact absurd rfl hf
    · rw [Function.update_of_ne hfd] at hf
      exact t.within f hf

theorem alloc_eq_none : t.alloc o = none ↔ t.Full := by
  unfold alloc
  split
  · next fd h => exact iff_of_false nofun fun hf => nomatch h.symm.trans hf
  · next h => exact iff_of_true rfl h

theorem alloc_eq_some : t.alloc o = some (fd, t') →
    t.owner fd = none ∧ t'.limit = t.limit ∧ t'.owner = Function.update t.owner fd (some o) := by
  intro h
  unfold alloc at h
  split at h
  · next fd' hl =>
      obtain ⟨rfl, rfl⟩ := Prod.mk.inj (Option.some.inj h)
      exact ⟨(lowest_eq_some hl).2, rfl, rfl⟩
  · exact nomatch h

theorem owner_alloc {f : ℕ} {o' : ω} (h : t.alloc o = some (fd, t')) :
    t'.owner f = some o' ↔ t.owner f = some o' ∨ f = fd ∧ o' = o := by
  obtain ⟨hfree, -, howner⟩ := alloc_eq_some h
  rw [howner]
  by_cases hf : f = fd
  · subst hf
    rw [Function.update_self, hfree, Option.some.injEq]
    exact ⟨fun he => .inr ⟨rfl, he.symm⟩, fun he => he.elim nofun fun he => he.2.symm⟩
  · rw [Function.update_of_ne hf]
    exact ⟨.inl, fun he => he.resolve_right fun he => hf he.1⟩

theorem owner_release {f : ℕ} : (t.release fd).owner f = some o ↔ t.owner f = some o ∧ f ≠ fd := by
  by_cases hf : f = fd
  · subst hf
    show Function.update t.owner f none f = _ ↔ _
    rw [Function.update_self]
    exact iff_of_false nofun fun he => he.2 rfl
  · show Function.update t.owner fd none f = _ ↔ _
    rw [Function.update_of_ne hf]
    exact ⟨fun he => ⟨he, hf⟩, fun he => he.1⟩

/-- After `close` there is room. -/
theorem not_full_release : t.owner fd ≠ none → ¬ (t.release fd).Full := by
  intro h hf
  have hlt : fd < (t.release fd).limit := t.within fd h
  refine full_iff.mp hf fd hlt ?_
  exact Function.update_self fd none t.owner

end FdTable
