/-
# `Muduo.Lib.Mailbox` — many senders and one reader

What a sender has sent is on its way first, then in the queue of the reader, then what
the reader is at, then it has been read.  The reader may send to itself: it goes past
its queue and is at it at once.

    label        who        what happens
    send i x     sender i   x is on its way, or what the reader is at
    read x       reader     it is done with x
    silent       any        something moves on, or nothing does

Whatever the order of the steps, what has been read and what is still under way can be
told apart by sender (`Attributed`): what is a sender's is what it has sent, in order,
with nothing lost and nothing twice.
-/
import Mathlib.Logic.Function.Basic
import Mathlib.Data.List.Basic

namespace Mailbox

open Function

variable {ι β : Type*} [DecidableEq ι]

structure Box (ι β : Type*) where
  outgoing : ι → List β
  queue : List β
  running : List β

inductive Label (ι β : Type*)
  | send (i : ι) (x : β)
  | read (x : β)
  | silent

/-- What a step adds to what sender `i` has sent. -/
def Label.sent (i : ι) : Label ι β → List β
  | .send j x => if j = i then [x] else []
  | .read _ | .silent => []

/-- What a step adds to what has been read. -/
def Label.done : Label ι β → List β
  | .read x => [x]
  | .send _ _ | .silent => []

/-- The steps; `own` is the reader. -/
inductive Step (own : ι) (m : Box ι β) : Label ι β → Box ι β → Prop
  | silent : Step own m .silent m
  | send (i : ι) (x : β) (hi : i ≠ own) (ho : m.outgoing i = []) :
      Step own m (.send i x) { m with outgoing := update m.outgoing i [x] }
  | direct (x : β) (hr : m.running = []) : Step own m (.send own x) { m with running := [x] }
  | post (i : ι) (x : β) (ho : m.outgoing i = [x]) :
      Step own m .silent
        { m with outgoing := update m.outgoing i [], queue := m.queue ++ [x] }
  | take (x : β) (rest : List β) (hr : m.running = []) (hq : m.queue = x :: rest) :
      Step own m .silent { m with running := [x], queue := rest }
  | read (x : β) (hr : m.running = [x]) : Step own m (.read x) { m with running := [] }

/-- What is sender `i`'s. -/
def mine (i : ι) (l : List (ι × β)) : List β := (l.filter (·.1 = i)).map Prod.snd

variable {own i j : ι} {x : β} {m m' : Box ι β} {l l' : List (ι × β)} {a : Label ι β}

theorem mine_append (i : ι) (l l' : List (ι × β)) : mine i (l ++ l') = mine i l ++ mine i l' := by
  rw [mine, List.filter_append, List.map_append]
  rfl

theorem mine_singleton (i j : ι) (x : β) : mine i [(j, x)] = if j = i then [x] else [] := by
  unfold mine
  by_cases h : j = i
  · rw [if_pos h, List.filter_singleton, decide_eq_true h]
    rfl
  · rw [if_neg h, List.filter_singleton, decide_eq_false h]
    rfl

theorem mine_of_others (h : ∀ p ∈ l, p.1 ≠ i) : mine i l = [] := by
  have hnil : l.filter (·.1 = i) = [] :=
    List.filter_eq_nil_iff.mpr fun p hp => by simpa using h p hp
  rw [mine, hnil]
  rfl

/-- What has been read or is being read (`front`) and what is queued (`back`), by sender: it
begins what the sender has sent, and what is on its way is the rest. -/
structure Attributed (own : ι) (sent : ι → List β) (done : List β) (m : Box ι β)
    (front back : List (ι × β)) : Prop where
  read : front.map Prod.snd = done ++ m.running
  queued : back.map Prod.snd = m.queue
  others : ∀ p ∈ back, p.1 ≠ own
  home : m.outgoing own = []
  order : ∀ i, mine i (front ++ back) ++ m.outgoing i = sent i

theorem attributed_nil (own : ι) :
    Attributed own (fun _ => ([] : List β)) [] ⟨fun _ => [], [], []⟩ [] [] :=
  ⟨rfl, rfl, nofun, rfl, fun _ => rfl⟩

theorem Attributed.step {sent : ι → List β} {done : List β}
    (h : Attributed own sent done m l l') (hst : Step own m a m') :
    ∃ front back, Attributed own (fun i => sent i ++ a.sent i) (done ++ a.done) m' front back := by
  cases hst with
  | silent =>
      refine ⟨l, l', ?_, h.queued, h.others, h.home, fun i => ?_⟩
      · rw [h.read, Label.done, List.append_nil]
      · rw [h.order, Label.sent, List.append_nil]
  | send i x hi ho =>
      refine ⟨l, l', ?_, h.queued, h.others, ?_, fun j => ?_⟩
      · rw [h.read, Label.done, List.append_nil]
      · exact (update_of_ne hi.symm _ _).trans h.home
      · show mine j (l ++ l') ++ update m.outgoing i [x] j = sent j ++ if i = j then [x] else []
        rw [← h.order j]
        by_cases hij : i = j
        · subst hij
          rw [update_self, if_pos rfl, ho, List.append_nil]
        · rw [update_of_ne (Ne.symm hij), if_neg hij, List.append_nil]
  | direct x hr =>
      have hfront := h.read
      rw [hr, List.append_nil] at hfront
      refine ⟨l ++ [(own, x)], l', ?_, h.queued, h.others, h.home, fun j => ?_⟩
      · rw [List.map_append, hfront, Label.done, List.append_nil]
        rfl
      · show mine j (l ++ [(own, x)] ++ l') ++ m.outgoing j = sent j ++ if own = j then [x] else []
        rw [← h.order j, mine_append, mine_append, mine_append, mine_singleton]
        by_cases hj : own = j
        · -- what is queued is not the reader's own
          subst hj
          rw [mine_of_others h.others, h.home, if_pos rfl]
          simp only [List.append_nil]
        · rw [if_neg hj, List.append_nil, List.append_nil]
  | post i x ho =>
      have hi : i ≠ own := by
        rintro rfl
        exact nomatch h.home.symm.trans ho
      refine ⟨l, l' ++ [(i, x)], ?_, ?_, fun p hp => ?_, ?_, fun j => ?_⟩
      · rw [h.read, Label.done, List.append_nil]
      · rw [List.map_append, h.queued]
        rfl
      · rcases List.mem_append.mp hp with hp | hp
        · exact h.others p hp
        · exact List.mem_singleton.mp hp ▸ hi
      · exact (update_of_ne hi.symm _ _).trans h.home
      · show mine j (l ++ (l' ++ [(i, x)])) ++ update m.outgoing i [] j = sent j ++ []
        rw [← h.order j, ← List.append_assoc, mine_append, mine_singleton, List.append_nil]
        by_cases hij : i = j
        · subst hij
          rw [update_self, if_pos rfl, ho, List.append_nil]
        · rw [update_of_ne (Ne.symm hij), if_neg hij, List.append_nil]
  | take x rest hr hq =>
      have hback := h.queued
      rw [hq] at hback
      obtain ⟨p, l', rfl, rfl, hrest⟩ := List.map_eq_cons_iff.mp hback
      have hfront := h.read
      rw [hr, List.append_nil] at hfront
      refine ⟨l ++ [p], l', ?_, hrest, fun q hq => h.others q (List.mem_cons_of_mem _ hq), h.home,
        fun j => ?_⟩
      · rw [List.map_append, hfront, Label.done, List.append_nil]
        rfl
      · rw [List.append_assoc]
        exact (h.order j).trans (List.append_nil _).symm
  | read x hr =>
      refine ⟨l, l', ?_, h.queued, h.others, h.home, fun i => ?_⟩
      · rw [h.read, hr, Label.done, List.append_nil]
      · rw [h.order, Label.sent, List.append_nil]

end Mailbox
