/-
# `Muduo.Lib.CondVar` — condition variables over a table of threads

The state of each thread of a program is an entry of a list; `waits` says that
a thread is blocked on the condition variable and `wake` is what becomes of it.
`notify_one` wakes a thread that is blocked, which one is not determined, so
that the choice is an argument:

    notifyOne waits wake ts none        no thread is blocked
    notifyOne waits wake ts (some i)    thread i is woken

A wake-up and the step in which the thread goes on are separate: it still has
to get the mutex, and others may get it first.
-/
import Mathlib.Logic.Basic
import Mathlib.Data.List.Basic

namespace CondVar

variable {σ : Type*} {waits q : σ → Bool} {wake : σ → σ} {ts ts' : List σ} {i : ℕ} {x y : σ}

/-- `notify_one`. -/
def notifyOne (waits : σ → Bool) (wake : σ → σ) (ts : List σ) : Option ℕ → Option (List σ)
  | none => if ts.any waits then none else some ts
  | some i =>
      match ts[i]? with
      | some x => if waits x then some (ts.set i (wake x)) else none
      | none => none

/-- `notify_all`. -/
def notifyAll (waits : σ → Bool) (wake : σ → σ) (ts : List σ) : List σ :=
  ts.map fun x => if waits x then wake x else x

/-- `notify_one` wakes one blocked thread, unless there is none. -/
theorem notifyOne_cases {c : Option ℕ} (h : notifyOne waits wake ts c = some ts') :
    (ts.any waits = false ∧ ts' = ts) ∨
      ∃ i x, ts[i]? = some x ∧ waits x = true ∧ ts' = ts.set i (wake x) := by
  cases c with
  | none =>
      simp only [notifyOne] at h
      cases hany : ts.any waits with
      | true => simp [hany] at h
      | false =>
          simp only [hany, Bool.false_eq_true, if_false] at h
          exact .inl ⟨rfl, (Option.some.inj h).symm⟩
  | some i =>
      simp only [notifyOne] at h
      cases hx : ts[i]? with
      | none => simp [hx] at h
      | some x =>
          simp only [hx] at h
          by_cases hw : waits x = true
          · rw [if_pos hw] at h
            exact .inr ⟨i, x, hx, hw, (Option.some.inj h).symm⟩
          · simp [hw] at h

/-- Someone satisfies `q` after thread `i` has got the state `y`. -/
theorem any_set_self (hx : ts[i]? = some x) (hy : q y = true) : (ts.set i y).any q = true := by
  obtain ⟨hi, -⟩ := List.getElem?_eq_some_iff.mp hx
  exact List.any_eq_true.mpr ⟨y, List.mem_set hi y, hy⟩

theorem any_of_getElem? (hx : ts[i]? = some x) (hq : q x = true) : ts.any q = true :=
  List.any_eq_true.mpr ⟨x, List.mem_of_getElem? hx, hq⟩

/-- A thread that satisfies `q` as little as before does not change whether
someone does. -/
theorem any_set (hx : ts[i]? = some x) (hq : q y = q x) : (ts.set i y).any q = ts.any q := by
  obtain ⟨hi, rfl⟩ := List.getElem?_eq_some_iff.mp hx
  have hsplit : ts = ts.take i ++ ts[i] :: ts.drop (i + 1) := by
    rw [← List.drop_eq_getElem_cons hi, List.take_append_drop]
  calc (ts.set i y).any q
      = (ts.take i ++ y :: ts.drop (i + 1)).any q := by
        rw [List.set_eq_take_append_cons_drop, if_pos hi]
    _ = (ts.take i ++ ts[i] :: ts.drop (i + 1)).any q := by
        simp only [List.any_append, List.any_cons, hq]
    _ = ts.any q := by rw [← hsplit]

end CondVar
