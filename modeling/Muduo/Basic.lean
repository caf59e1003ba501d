/-
# `Muduo.Basic` — assertions and undefined behaviour

The model is a shallow embedding: a C++ function is a Lean function.  Where the
source asserts, dereferences a pointer or indexes a vector, the Lean function
returns an `Option`; `none` is an execution that has left defined behaviour (a
null pointer, an index out of range) or has aborted in a failed `assert`.  That
a function never returns `none` is a theorem and not a convention.

A `while` loop of the source is a recursion on a bound of its iterations
(`fuel`), and `none` when the bound is used up; that enough fuel was given is a
theorem too.
-/
import Mathlib.Data.Int.Notation
import Mathlib.Data.Option.Basic

namespace Muduo

/-- `assert(p)`. -/
def assert (p : Prop) [Decidable p] : Option Unit := if p then some () else none

@[simp] theorem assert_of {p : Prop} [Decidable p] (h : p) : assert p = some () := if_pos h

@[simp] theorem assert_eq_some_iff {p : Prop} [Decidable p] {u : Unit} :
    assert p = some u ↔ p := by
  unfold assert
  split <;> simp_all

/-- `guard(p)` in front of a step says when the step can be taken. -/
theorem guard_bind_eq_some_iff {α : Type} {p : Prop} [Decidable p] {o : Option α} {a : α} :
    ((guard p : Option Unit) >>= fun _ => o) = some a ↔ p ∧ o = some a := by
  by_cases hp : p <;> simp [guard, hp]

end Muduo
