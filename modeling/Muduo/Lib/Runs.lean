/-
# `Muduo.Lib.Runs` — finite runs of a labelled step relation

A run is recorded with the state each action was taken from, so that a
condition on the steps of a run ("no step leaves a state where …") can be
stated about the record, and not about a relation that was strengthened to
make it true.

    Run step s tr t      tr leads from s to t

The two rules every safety proof uses are `Run.invariant` (a step lemma gives
a run lemma) and `Run.invariant_of` (the same when the step lemma needs a
condition, which then is asked of every step of the run).
-/
import Mathlib.Logic.Basic
import Mathlib.Data.List.Basic

namespace Runs

variable {σ α : Type*} {step : σ → α → σ → Prop}

/-- `Run step s tr t`: the actions of `tr`, each paired with the state it was
taken from, lead from `s` to `t`. -/
inductive Run (step : σ → α → σ → Prop) (s : σ) : List (σ × α) → σ → Prop
  | nil : Run step s [] s
  | snoc {tr : List (σ × α)} {t u : σ} {a : α} :
      Run step s tr t → step t a u → Run step s (tr ++ [(t, a)]) u

theorem Run.single {s t : σ} {a : α} (h : step s a t) : Run step s [(s, a)] t :=
  Run.snoc .nil h

theorem Run.append {s t u : σ} {tr tr' : List (σ × α)} (h : Run step s tr t)
    (h' : Run step t tr' u) : Run step s (tr ++ tr') u := by
  induction h' with
  | nil => simpa using h
  | snoc _ hs ih => simpa using ih.snoc hs

theorem Run.cons {s t u : σ} {a : α} {tr : List (σ × α)} (h : step s a t)
    (h' : Run step t tr u) : Run step s ((s, a) :: tr) u :=
  (Run.single h).append h'

/-- Where a list was cut at `c`, before its last entry was put in. -/
theorem snoc_eq_cut {α : Type*} {l pre post : List α} {e c : α} (h : l ++ [e] = pre ++ c :: post) :
    (post = [] ∧ e = c ∧ l = pre) ∨ ∃ rest, post = rest ++ [e] ∧ l = pre ++ c :: rest := by
  rcases List.eq_nil_or_concat' post with rfl | ⟨rest, last, rfl⟩
  · obtain ⟨hl, he⟩ := List.append_inj' h rfl
    exact .inl ⟨rfl, List.singleton_inj.mp he, hl⟩
  · rw [← List.cons_append, ← List.append_assoc] at h
    obtain ⟨hl, he⟩ := List.append_inj' h rfl
    exact .inr ⟨rest, by rw [List.singleton_inj.mp he], hl⟩

/-- A run is cut at one of its steps. -/
theorem Run.cut {s t u : σ} {a : α} {pre post : List (σ × α)}
    (h : Run step s (pre ++ (t, a) :: post) u) :
    ∃ v, Run step s pre t ∧ step t a v ∧ Run step v post u := by
  generalize htr : pre ++ (t, a) :: post = tr at h
  induction h generalizing post with
  | nil => exact absurd htr (List.append_ne_nil_of_right_ne_nil _ (List.cons_ne_nil _ _))
  | snoc hr hst ih =>
      rcases snoc_eq_cut htr.symm with ⟨rfl, hlast, rfl⟩ | ⟨rest, rfl, hrest⟩
      · obtain ⟨rfl, rfl⟩ := Prod.mk.inj hlast
        exact ⟨_, hr, hst, .nil⟩
      · obtain ⟨v, hpre, hstep, hpost⟩ := ih hrest.symm
        exact ⟨v, hpre, hstep, hpost.snoc hst⟩

/-- A condition on the steps of a run splits at its last step. -/
theorem forall_snoc {P : σ → α → Prop} {tr : List (σ × α)} {t : σ} {a : α} :
    (∀ p ∈ tr ++ [(t, a)], P p.1 p.2) ↔ (∀ p ∈ tr, P p.1 p.2) ∧ P t a := by
  simp [or_imp, forall_and]

/-- An invariant that relates the state to the steps taken so far: when every
step that meets `G` extends it, it holds of every run all of whose steps meet `G`. -/
theorem Run.invariant_trace {I : List (σ × α) → σ → Prop} {G : σ → α → Prop} {s t : σ}
    {tr : List (σ × α)} (h : Run step s tr t) (hok : ∀ p ∈ tr, G p.1 p.2) (hs : I [] s)
    (hstep : ∀ {tr t a u}, I tr t → G t a → step t a u → I (tr ++ [(t, a)]) u) : I tr t := by
  induction h with
  | nil => exact hs
  | snoc _ hst ih =>
      obtain ⟨hok, hlast⟩ := forall_snoc.mp hok
      exact hstep (ih hok) hlast hst

/-- What holds at the start and is kept by every step that meets `G` holds at
the end of every run all of whose steps meet `G`. -/
theorem Run.invariant_of {I : σ → Prop} {G : σ → α → Prop} {s t : σ}
    {tr : List (σ × α)} (h : Run step s tr t) (hok : ∀ p ∈ tr, G p.1 p.2) (hs : I s)
    (hstep : ∀ {t a u}, I t → G t a → step t a u → I u) : I t :=
  h.invariant_trace (I := fun _ => I) hok hs fun hi ho hst => hstep hi ho hst

/-- What holds at the start and is kept by every step holds at the end of every run. -/
theorem Run.invariant {I : σ → Prop} {s t : σ} {tr : List (σ × α)}
    (h : Run step s tr t) (hs : I s) (hstep : ∀ {t a u}, I t → step t a u → I u) : I t :=
  h.invariant_of (G := fun _ _ => True) (fun _ _ => trivial) hs
    fun hi _ hst => hstep hi hst

/-- What is known of a run is known of its steps. -/
theorem Run.restrict {C : σ → α → Prop} {s t : σ} {tr : List (σ × α)} (h : Run step s tr t)
    (hok : ∀ p ∈ tr, C p.1 p.2) : Run (fun s a t => C s a ∧ step s a t) s tr t := by
  induction h with
  | nil => exact .nil
  | snoc _ hst ih =>
      obtain ⟨hok, hlast⟩ := forall_snoc.mp hok
      exact (ih hok).snoc ⟨hlast, hst⟩

/-- When the steps that meet `G` are those that lead to `P`, from all states with the
invariant `Q`, which a step may need `P` to keep, a run whose steps all meet `G` is
exactly one with `P` throughout. -/
theorem Run.forall_iff_of_kept {P Q : σ → Prop} {G : σ → α → Prop} {s t : σ}
    {tr : List (σ × α)} (h : Run step s tr t) (hP : P s) (hQ : Q s)
    (hkeep : ∀ {t a u}, Q t → step t a u → P u → Q u)
    (hstep : ∀ {t a u}, Q t → step t a u → (G t a ↔ P u)) :
    (∀ p ∈ tr, G p.1 p.2) ↔ (∀ p ∈ tr, P p.1) ∧ P t := by
  suffices hboth : ((∀ p ∈ tr, G p.1 p.2) ↔ (∀ p ∈ tr, P p.1) ∧ P t) ∧
      ((∀ p ∈ tr, P p.1) ∧ P t → Q t) from hboth.1
  induction h with
  | nil =>
      refine ⟨⟨fun _ => ⟨fun _ hp => absurd hp List.not_mem_nil, hP⟩,
        fun _ _ hp => absurd hp List.not_mem_nil⟩, fun _ => hQ⟩
  | @snoc tr t u a hr hst ih =>
      obtain ⟨hiff, hq⟩ := ih
      rw [forall_snoc (P := G), forall_snoc (P := fun s _ => P s), hiff]
      refine ⟨⟨?_, ?_⟩, ?_⟩
      · rintro ⟨hp, hg⟩
        exact ⟨hp, (hstep (hq hp) hst).mp hg⟩
      · rintro ⟨hp, hu⟩
        exact ⟨hp, (hstep (hq hp) hst).mpr hu⟩
      · rintro ⟨hp, hu⟩
        exact hkeep (hq hp) hst hu

/-- When from the states of an invariant the steps that meet `G` are exactly those
that keep `P`, a run whose steps all meet `G` is exactly one with `P` throughout. -/
theorem Run.forall_iff_of_step {I P : σ → Prop} {G : σ → α → Prop} {s t : σ}
    {tr : List (σ × α)} (h : Run step s tr t) (hI : I s) (hP : P s)
    (hinv : ∀ {t a u}, I t → step t a u → I u)
    (hstep : ∀ {t a u}, I t → P t → step t a u → (G t a ↔ P u)) :
    (∀ p ∈ tr, G p.1 p.2) ↔ (∀ p ∈ tr, P p.1) ∧ P t :=
  h.forall_iff_of_kept (Q := fun s => I s ∧ P s) hP ⟨hI, hP⟩
    (fun hq hst hp => ⟨hinv hq.1 hst, hp⟩) fun hq hst => hstep hq.1 hq.2 hst

/-- Two conditions on steps that agree in the states of an invariant, which a step keeps if it
meets the first of them, agree on the steps of a run. -/
theorem Run.forall_congr_of {I : σ → Prop} {C G H : σ → α → Prop} {s t : σ} {tr : List (σ × α)}
    (h : Run step s tr t) (hok : ∀ p ∈ tr, C p.1 p.2) (hs : I s)
    (hinv : ∀ {t a u}, I t → C t a ∧ G t a → step t a u → I u)
    (hiff : ∀ {t a u}, I t → C t a → step t a u → (G t a ↔ H t a)) :
    (∀ p ∈ tr, G p.1 p.2) ↔ ∀ p ∈ tr, H p.1 p.2 := by
  induction h with
  | nil => exact iff_of_true nofun nofun
  | snoc hr hst ih =>
      obtain ⟨hok, hlast⟩ := forall_snoc.mp hok
      rw [forall_snoc (P := G), forall_snoc (P := H), ← ih hok]
      refine and_congr_right fun hg => hiff ?_ hlast hst
      exact hr.invariant_of (G := fun s a => C s a ∧ G s a)
        (fun p hp => ⟨hok p hp, hg p hp⟩) hs hinv

/-- Two conditions on steps that agree in the states of an invariant agree on the steps
of a run. -/
theorem Run.forall_congr {I : σ → Prop} {C G H : σ → α → Prop} {s t : σ} {tr : List (σ × α)}
    (h : Run step s tr t) (hok : ∀ p ∈ tr, C p.1 p.2) (hs : I s)
    (hinv : ∀ {t a u}, I t → C t a → step t a u → I u)
    (hiff : ∀ {t a u}, I t → C t a → step t a u → (G t a ↔ H t a)) :
    (∀ p ∈ tr, G p.1 p.2) ↔ ∀ p ∈ tr, H p.1 p.2 :=
  h.forall_congr_of hok hs (fun hi hc => hinv hi hc.1) hiff

/-- The steps that count are paid for: when each of them lowers the rank and no step
raises it until `D` holds for good, a run that ends before has no more of them than its
start has rank. -/
theorem Run.countP_add_rank_le {I D : σ → Prop} {G : σ → α → Prop} {r : σ → ℕ} {c : α → Bool}
    {s t : σ} {tr : List (σ × α)} (h : Run step s tr t) (hok : ∀ p ∈ tr, G p.1 p.2) (hs : I s)
    (hinv : ∀ {t a u}, I t → step t a u → I u)
    (hdone : ∀ {t a u}, I t → D t → step t a u → D u)
    (hstep : ∀ {t a u}, I t → ¬ D t → G t a → step t a u →
      D u ∨ (if c a then 1 else 0) + r u ≤ r t) :
    D t ∨ tr.countP (fun p => c p.2) + r t ≤ r s := by
  induction h with
  | nil => exact .inr (Nat.le_of_eq (Nat.zero_add _))
  | @snoc tr t u a hr hst ih =>
      obtain ⟨hok, hlast⟩ := forall_snoc.mp hok
      have ht : I t := hr.invariant hs hinv
      rcases Classical.em (D t) with hd | hd
      · exact .inl (hdone ht hd hst)
      · refine (hstep ht hd hlast hst).imp_right fun hlt => ?_
        have hle := (ih hok).resolve_left hd
        rw [List.countP_append, List.countP_singleton, Nat.add_assoc]
        exact Nat.le_trans (Nat.add_le_add_left hlt _) hle

/-- When a step leads to `P` exactly from a state with `P` and if it meets `G`, a run
ends with `P` exactly if all its steps meet `G`. -/
theorem Run.iff_forall_of_step {I P : σ → Prop} {G : σ → α → Prop} {s t : σ}
    {tr : List (σ × α)} (h : Run step s tr t) (hI : I s) (hP : P s)
    (hinv : ∀ {t a u}, I t → step t a u → I u)
    (hstep : ∀ {t a u}, I t → step t a u → (P u ↔ P t ∧ G t a)) :
    P t ↔ ∀ p ∈ tr, G p.1 p.2 := by
  induction h with
  | nil => exact iff_of_true hP fun _ hp => absurd hp List.not_mem_nil
  | snoc hr hst ih =>
      rw [hstep (hr.invariant hI hinv) hst, ih, forall_snoc (P := G)]

/-- Forward simulation: when every step is matched by a step with the same
action, every run is matched by a run with the same actions.  The step lemma may
use that the step meets `G`. -/
theorem Run.simulates {τ : Type*} {T : τ → α → τ → Prop} {R : σ → τ → Prop}
    {G : σ → α → Prop} {s t : σ} {s' : τ} {tr : List (σ × α)} (h : Run step s tr t)
    (hok : ∀ p ∈ tr, G p.1 p.2) (hs : R s s')
    (hstep : ∀ {t t' a u}, R t t' → G t a → step t a u → ∃ u', T t' a u' ∧ R u u') :
    ∃ tr' t', Run T s' tr' t' ∧ R t t' ∧ tr'.map Prod.snd = tr.map Prod.snd := by
  induction h with
  | nil => exact ⟨[], s', .nil, hs, rfl⟩
  | @snoc tr t u a _ hst ih =>
      obtain ⟨hok, hlast⟩ := forall_snoc.mp hok
      obtain ⟨tr', t', hr', hR, hlab⟩ := ih hok
      obtain ⟨u', hst', hR'⟩ := hstep hR hlast hst
      exact ⟨tr' ++ [(t', a)], u', hr'.snoc hst', hR', by simp [hlab]⟩

/-! ## Runs of an executable step function -/

/-- The step relation of a partial step function. -/
def stepOf (exec : σ → α → Option σ) (s : σ) (a : α) (t : σ) : Prop := exec s a = some t

/-- The run of a partial step function over a list of actions: the steps taken
and the state reached. -/
def runAll (exec : σ → α → Option σ) : σ → List α → Option (List (σ × α) × σ)
  | s, [] => some ([], s)
  | s, a :: as =>
      (exec s a).bind fun t => (runAll exec t as).map fun r => ((s, a) :: r.1, r.2)

/-- What `runAll` computes is a run. -/
theorem run_of_runAll {exec : σ → α → Option σ} :
    ∀ {as : List α} {s t : σ} {tr : List (σ × α)}, runAll exec s as = some (tr, t) →
      Run (stepOf exec) s tr t
  | [], s, t, tr, h => by
      simp only [runAll, Option.some.injEq, Prod.mk.injEq] at h
      obtain ⟨rfl, rfl⟩ := h
      exact .nil
  | a :: as, s, t, tr, h => by
      simp only [runAll, Option.bind_eq_some_iff, Option.map_eq_some_iff, Prod.mk.injEq,
        Prod.exists] at h
      obtain ⟨m, hm, tr', u, hu, rfl, rfl⟩ := h
      exact .cons hm (run_of_runAll hu)

/-- A computed run takes the actions it was given. -/
theorem actions_of_runAll {exec : σ → α → Option σ} :
    ∀ {as : List α} {s t : σ} {tr : List (σ × α)}, runAll exec s as = some (tr, t) →
      tr.map Prod.snd = as
  | [], s, t, tr, h => by
      simp only [runAll, Option.some.injEq, Prod.mk.injEq] at h
      obtain ⟨rfl, -⟩ := h
      rfl
  | a :: as, s, t, tr, h => by
      simp only [runAll, Option.bind_eq_some_iff, Option.map_eq_some_iff, Prod.mk.injEq,
        Prod.exists] at h
      obtain ⟨m, -, tr', u, hu, rfl, -⟩ := h
      rw [List.map_cons, actions_of_runAll hu]

/-- When a step function leaves of every state and action what another one makes of them,
so do its runs. -/
theorem runAll_map {τ β : Type*} {exec : σ → α → Option σ} {exec' : τ → β → Option τ} {f : σ → τ}
    {g : α → β} (h : ∀ s a, (exec s a).map f = exec' (f s) (g a)) (s : σ) (as : List α) :
    (runAll exec s as).map (fun r => (r.1.map fun p => (f p.1, g p.2), f r.2)) =
      runAll exec' (f s) (as.map g) := by
  induction as generalizing s with
  | nil => rfl
  | cons a as ih =>
      rw [List.map_cons, runAll, runAll, ← h s a]
      cases exec s a with
      | none => rfl
      | some t =>
          simp only [Option.bind_some, Option.map_some]
          rw [← ih t, Option.map_map, Option.map_map]
          rfl

/-- The step relation of a partial step function with outputs: the output is
part of the action. -/
def stepOut {β ω : Type*} (exec : σ → β → Option (σ × ω)) (s : σ) (a : β × ω) (t : σ) : Prop :=
  exec s a.1 = some (t, a.2)

/-- The run of a partial step function with outputs over a list of inputs. -/
def runOut {β ω : Type*} (exec : σ → β → Option (σ × ω)) :
    σ → List β → Option (List (σ × (β × ω)) × σ)
  | s, [] => some ([], s)
  | s, a :: as =>
      (exec s a).bind fun r => (runOut exec r.1 as).map fun q => ((s, (a, r.2)) :: q.1, q.2)

/-- What `runOut` computes is a run. -/
theorem run_of_runOut {β ω : Type*} {exec : σ → β → Option (σ × ω)} :
    ∀ {as : List β} {s t : σ} {tr : List (σ × (β × ω))}, runOut exec s as = some (tr, t) →
      Run (stepOut exec) s tr t
  | [], s, t, tr, h => by
      simp only [runOut, Option.some.injEq, Prod.mk.injEq] at h
      obtain ⟨rfl, rfl⟩ := h
      exact .nil
  | a :: as, s, t, tr, h => by
      simp only [runOut, Option.bind_eq_some_iff, Option.map_eq_some_iff, Prod.mk.injEq,
        Prod.exists] at h
      obtain ⟨m, o, hm, tr', u, hu, rfl, rfl⟩ := h
      exact .cons hm (run_of_runOut hu)

/-- A computed run exists, and what was checked of it holds. -/
theorem exists_computed {β γ : Type*} {o : Option (β × γ)} {P : β → γ → Prop}
    (h : ∃ r ∈ o, P r.1 r.2) : ∃ x y, o = some (x, y) ∧ P x y := by
  obtain ⟨⟨x, y⟩, ho, hp⟩ := h
  exact ⟨x, y, ho, hp⟩

end Runs
