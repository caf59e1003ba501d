/-
# `Muduo.Server.LifeCycle` — from UP to DOWN, once

A connection is set up in the main loop and in its own, closed in its own, taken
out of `conns_` in the main loop and torn down in its own again.

    HandleNewConnection ─▶ StepIntoEstablished ─▶ HandleClose
                                                      │
    Channel::Remove ◀─ StepIntoDestroyed ◀─ RemoveConnectionInLoop

`Serves` is what every state of a server has that is alive, `Listed` what it has
besides as long as no two of its connections have one name: the names end in the
number of the connection, so that this lasts for 2 ^ 64 of them.
-/
import Mathlib.Data.List.Nodup
import Muduo.Lib.Text
import Muduo.Server.Effect

namespace Muduo

open Runs

/-! ## What Poll reports -/

/-- A mask in which POLLRDHUP and POLLPRI come only together with POLLIN leads to one close or
one read callback, not to both. -/
theorem countP_handlers {revents : BitVec 32}
    (h : revents &&& (POLLRDHUP ||| POLLPRI) ≠ 0 → revents &&& POLLIN ≠ 0) :
    (Channel.handlers revents).countP Handler.mayClose ≤ 1 := by
  have hread : revents &&& (POLLIN ||| POLLRDHUP ||| POLLPRI) ≠ 0 → revents &&& POLLIN ≠ 0 := by
    intro hr hin
    rw [BitVec.or_assoc, BitVec.and_or_distrib_left, hin] at hr
    exact h (by simpa using hr) hin
  unfold Channel.handlers
  by_cases hc : revents &&& POLLHUP ≠ 0 ∧ revents &&& POLLIN = 0
  · rw [if_pos hc, if_neg fun hr => hread hr hc.2]
    split <;> split <;> decide
  · rw [if_neg hc]
    split <;> split <;> split <;> decide

/-- Of the channels that are reported each is reported once. -/
theorem count_reportDues {active : List (ℕ × BitVec 32)} (hn : (active.map Prod.fst).Nodup)
    (c : ℕ) :
    (∀ x, (active.flatMap reportDues).count (c, x) = 0) ∨
      ∃ p ∈ active, p.1 = c ∧ ∀ x, (active.flatMap reportDues).count (c, x) =
        (List.replicate ((Channel.handlers p.2).countP Handler.mayClose) Due.event).count x := by
  induction active with
  | nil => exact .inl fun x => rfl
  | cons p active ih =>
      obtain ⟨hp, hn⟩ := List.nodup_cons.mp hn
      have hself : reportDues p = (List.replicate ((Channel.handlers p.2).countP Handler.mayClose)
          Due.event).map (Prod.mk p.1) := List.map_replicate.symm
      simp only [List.flatMap_cons, List.count_append, hself]
      by_cases hc : c = p.1
      · subst hc
        refine .inr ⟨p, List.mem_cons_self, rfl, fun x => ?_⟩
        have hrest : (active.flatMap reportDues).count (p.1, x) = 0 := by
          rcases ih hn with h0 | ⟨q, hq, he, -⟩
          · exact h0 x
          · exact absurd (List.mem_map.mpr ⟨q, hq, he⟩) hp
        rw [count_map_mk, hrest, Nat.add_zero]
      · rcases ih hn with h0 | ⟨q, hq, he, hcount⟩
        · exact .inl fun x => by rw [count_map_mk_ne _ hc, h0 x]
        · refine .inr ⟨q, List.mem_cons_of_mem _ hq, he, fun x => ?_⟩
          rw [count_map_mk_ne _ hc, Nat.zero_add, hcount x]

/-- Nothing but close and read callbacks comes of it. -/
theorem count_reportDues_ne (active : List (ℕ × BitVec 32)) (c : ℕ) {x : Due} (hx : x ≠ .event) :
    (active.flatMap reportDues).count (c, x) = 0 := by
  refine List.count_eq_zero.mpr fun h => ?_
  obtain ⟨p, -, h⟩ := List.mem_flatMap.mp h
  exact hx (Prod.mk.inj (List.eq_of_mem_replicate h)).2

/-! ## Names -/

/-- The name of a connection ends in its number. -/
theorem TcpServer.connName_inj {name ip ip' : List Char} {id id' : BitVec 64}
    (h : connName name ip id = connName name ip' id') : id = id' :=
  BitVec.eq_of_toNat_eq (Text.numbered_inj (c := '@') (by decide) h)

namespace TcpServer

variable {s s' : TcpServer} {a : ServerAct} {c : ℕ} {k : ServerConn} {ts : List ServerThread}

/-! ## While the server is alive -/

/-- What every state of a server has that is alive. -/
structure Serves (s : TcpServer) : Prop where
  phase : s.phase = .alive
  lives : ∀ (c : ℕ) (k : ServerConn), s.accepted[c]? = some k →
    Lives k.tcp k.log (dueTo s.threads c)
  keys : (s.conns.map Prod.fst).Nodup
  entry : ∀ p ∈ s.conns, ∃ k, s.accepted[p.2]? = some k ∧ k.name = p.1 ∧
    dueTo s.threads p.2 .destroyed = 0 ∧ k.log.count .down = 0
  fresh : s.stale = 0

theorem serves_init (name : List Char) (wc : Bool) (poolSize users : ℕ) :
    (init name wc poolSize users).Serves :=
  ⟨rfl, nofun, .nil, nofun, rfl⟩

/-- A table with distinct names keeps them when a name is assigned. -/
theorem nodup_assign {conns : List (List Char × ℕ)} (h : (conns.map Prod.fst).Nodup)
    (name : List Char) (c : ℕ) : ((assign conns name c).map Prod.fst).Nodup := by
  unfold assign
  split
  · have hsame : (conns.map fun p => if p.1 = name then (name, c) else p).map Prod.fst =
        conns.map Prod.fst := by
      rw [List.map_map]
      refine List.map_congr_left fun p _ => ?_
      show (if p.1 = name then (name, c) else p).1 = p.1
      split
      · next he => exact he.symm
      · rfl
    rw [hsame]
    exact h
  · next hnot =>
      rw [List.map_append]
      refine List.nodup_append.mpr ⟨h, List.pairwise_singleton _ _, fun x hx y hy he => ?_⟩
      rw [he, List.mem_singleton.mp hy] at hx
      exact hnot hx

/-- Connection `c'` after a connection was changed. -/
theorem getElem?_set_cases {l : List ServerConn} {c c' : ℕ} {k k' u : ServerConn}
    (hk : l[c]? = some k) (h : (l.set c k')[c']? = some u) :
    c' = c ∧ u = k' ∨ c' ≠ c ∧ l[c']? = some u := by
  by_cases hc : c' = c
  · subst hc
    rw [List.getElem?_set_self (List.getElem?_eq_some_iff.mp hk).1] at h
    exact .inl ⟨rfl, (Option.some.inj h).symm⟩
  · rw [List.getElem?_set_ne (Ne.symm hc)] at h
    exact .inr ⟨hc, h⟩

/-- Connection `c'` after one more was accepted. -/
theorem getElem?_concat_cases {l : List ServerConn} {c' : ℕ} {k u : ServerConn}
    (h : (l ++ [k])[c']? = some u) : c' = l.length ∧ u = k ∨ c' ≠ l.length ∧ l[c']? = some u := by
  rcases Nat.lt_or_ge c' l.length with hlt | hge
  · rw [List.getElem?_append_left hlt] at h
    exact .inr ⟨hlt.ne, h⟩
  · obtain ⟨hlt, -⟩ := List.getElem?_eq_some_iff.mp h
    rw [List.length_append, List.length_singleton] at hlt
    obtain rfl : c' = l.length := Nat.le_antisymm (Nat.le_of_lt_succ hlt) hge
    rw [List.getElem?_concat_length] at h
    exact .inl ⟨rfl, (Option.some.inj h).symm⟩

/-- No operation that is due fails. -/
theorem Serves.not_failed (h : s.Serves) {op : LifeOp} (hk : s.accepted[c]? = some k)
    (hfit : op.Fits k.tcp) (hd : Changes s.threads ts c op.uses []) : op.run k.tcp ≠ none := by
  intro hrun
  obtain ⟨tcp', effs, e, -⟩ := (h.lives c k hk).ran hfit fun x hx => hd.pos hx List.not_mem_nil
  exact nomatch hrun.symm.trans e

/-- The destructor comes to no connection. -/
theorem Serves.not_torn (h : s.Serves) (hh : s.Home) :
    ¬ Changes s.threads ts c [.torn] [.destroyed] := by
  intro hd
  have hpos := hd.pos (List.mem_singleton_self _) (by decide)
  rcases Nat.lt_or_ge c s.accepted.length with hc | hc
  · exact hpos.ne' (h.lives c _ (List.getElem?_eq_getElem hc)).untorn
  · exact hpos.ne' (hh.unborn hc .torn)

/-- Every connection goes on living. -/
theorem Serves.lives_effect (h : s.Serves) (hh : s.Home) (e : Effect s a s')
    (ha : ∀ order, a ≠ .destroy order) :
    ∀ (c : ℕ) (k : ServerConn), s'.accepted[c]? = some k →
      Lives k.tcp k.log (dueTo s'.threads c) := by
  cases e with
  | moved hd => exact fun c' u hu => (funext (hd c') : dueTo _ c' = _) ▸ h.lives c' u hu
  | @ran ts c k r op hk hfit hrun hdue hd hclose =>
      intro c' u hu
      rcases getElem?_set_cases hk hu with ⟨rfl, rfl⟩ | ⟨hc, hu⟩
      · obtain ⟨tcp', effs, e, hnext⟩ := (h.lives c' k hk).ran hfit hdue
        obtain rfl := Option.some.inj (hrun.symm.trans e)
        exact hnext _ hd.self
      · exact hd.other hc ▸ h.lives c' u hu
  | failed op hk hfit hrun hd => exact absurd hrun (h.not_failed hk hfit hd)
  | @loaded ts c k hk hs hd =>
      refine hd.keeps (P := fun k d => Lives k.tcp k.log d) h.lives fun u hu => ?_
      obtain rfl := Option.some.inj (hk.symm.trans hu)
      exact (h.lives c k hk).loaded hs hd.self
  | @erased ts c k hk hd =>
      have hpos := hd.pos (List.mem_singleton_self _) (by decide)
      exact hd.keeps (P := fun k d => Lives k.tcp k.log d) h.lives fun u hu =>
        (h.lives c u hu).removal hpos hd.self
  | @accepted ts connfd ipPort k idx ha' hp' hs hst hlog hname hd =>
      intro c' u hu
      rcases getElem?_concat_cases hu with ⟨rfl, rfl⟩ | ⟨hc, hu⟩
      · rw [hlog]
        refine lives_new hs hst fun x => ?_
        have hx := hd.self x
        rw [hh.unborn (Nat.le_refl _), Nat.zero_add] at hx
        rw [← Nat.add_zero (dueTo ts _ x)]
        refine hx.trans ?_
        cases x <;> rfl
      · exact hd.other hc ▸ h.lives c' u hu
  | @polled ts l active hnodup hrep hnone hd =>
      intro c' u hu
      rcases count_reportDues hnodup c' with h0 | ⟨p, hp, rfl, hcount⟩
      · have hsame : dueTo ts c' = dueTo s.threads c' :=
          funext fun x => (hd c' x).trans (by rw [h0 x, Nat.add_zero])
        exact hsame ▸ h.lives c' u hu
      · obtain ⟨hmask, k, hk, -, hon⟩ := hrep p hp
        obtain rfl := Option.some.inj (hk.symm.trans hu)
        exact (h.lives p.1 k hk).polled hon (countP_handlers hmask) (hnone p hp)
          fun x => (hd p.1 x).trans (by rw [hcount x])
  | destroyed order ha' => exact absurd ha' (ha order)
  | torn hd => exact absurd hd (h.not_torn hh)
  | gone hp => exact absurd h.phase hp

/-- A connection in the table has not been handed to `StepIntoDestroyed`. -/
theorem Serves.entry_effect (h : s.Serves) (hh : s.Home) (e : Effect s a s')
    (ha : ∀ order, a ≠ .destroy order) :
    ∀ p ∈ s'.conns, ∃ k, s'.accepted[p.2]? = some k ∧ k.name = p.1 ∧
      dueTo s'.threads p.2 .destroyed = 0 ∧ k.log.count .down = 0 := by
  intro p hp
  cases e with
  | moved hd =>
      obtain ⟨u, hu, hn, hdes, hdown⟩ := h.entry p hp
      exact ⟨u, hu, hn, (hd p.2 _).trans hdes, hdown⟩
  | @ran ts c k r op hk hfit hrun hdue hd hclose =>
      obtain ⟨u, hu, hn, hdes, hdown⟩ := h.entry p hp
      by_cases hc : p.2 = c
      · subst hc
        obtain rfl := Option.some.inj (hk.symm.trans hu)
        have hx := hd.self .destroyed
        rw [hdes, op.count_leaves r.2 (.inl rfl)] at hx
        obtain ⟨hdes', huses⟩ := Nat.add_eq_zero_iff.mp hx
        refine ⟨_, List.getElem?_set_self (List.getElem?_eq_some_iff.mp hk).1, hn, hdes', ?_⟩
        rw [List.count_append, hdown, op.count_down, huses]
      · exact ⟨u, (List.getElem?_set_ne (Ne.symm hc)).trans hu, hn,
          (congrFun (hd.other hc) _).trans hdes, hdown⟩
  | failed op hk hfit hrun hd => exact absurd hrun (h.not_failed hk hfit hd)
  | @loaded ts c k hk hs hd =>
      obtain ⟨u, hu, hn, hdes, hdown⟩ := h.entry p hp
      exact ⟨u, hu, hn, (hd.same (x := .destroyed) rfl p.2).trans hdes, hdown⟩
  | @erased ts c k hk hd =>
      obtain ⟨hp, hne⟩ := List.mem_filter.mp hp
      obtain ⟨u, hu, hn, hdes, hdown⟩ := h.entry p hp
      refine ⟨u, hu, hn, ?_, hdown⟩
      have hc : p.2 ≠ c := by
        intro hc
        rw [hc] at hu
        obtain rfl := Option.some.inj (hk.symm.trans hu)
        exact of_decide_eq_true hne hn.symm
      exact (congrFun (hd.other hc) _).trans hdes
  | @accepted ts connfd ipPort k idx ha' hp' hs hst hlog hname hd =>
      rcases mem_assign hp with rfl | ⟨hp, -⟩
      · refine ⟨k, List.getElem?_concat_length, rfl, ?_, ?_⟩
        · exact (hd.self .destroyed).trans (hh.unborn (Nat.le_refl _) .destroyed)
        · rw [hlog, List.count_nil]
      · obtain ⟨u, hu, hn, hdes, hdown⟩ := h.entry p hp
        have hlt := (List.getElem?_eq_some_iff.mp hu).1
        exact ⟨u, (List.getElem?_append_left hlt).trans hu, hn,
          (congrFun (hd.other hlt.ne) _).trans hdes, hdown⟩
  | @polled ts l active hnodup hrep hnone hd =>
      obtain ⟨u, hu, hn, hdes, hdown⟩ := h.entry p hp
      refine ⟨u, hu, hn, (hd p.2 _).trans ?_, hdown⟩
      rw [hdes, count_reportDues_ne active p.2 (x := .destroyed) nofun]
  | destroyed order ha' => exact absurd ha' (ha order)
  | torn hd => exact absurd hd (h.not_torn hh)
  | gone hp' => exact absurd h.phase hp'

theorem Serves.effect (h : s.Serves) (hh : s.Home) (e : Effect s a s')
    (ha : ∀ order, a ≠ .destroy order) : s'.Serves := by
  have hlives := h.lives_effect hh e ha
  have hentry := h.entry_effect hh e ha
  cases e with
  | moved | loaded | polled => exact ⟨h.phase, hlives, h.keys, hentry, h.fresh⟩
  | ran =>
      refine ⟨h.phase, hlives, h.keys, hentry, ?_⟩
      simp only [h.fresh, h.phase, reduceCtorEq, if_false]
  | failed op hk hfit hrun hd => exact absurd hrun (h.not_failed hk hfit hd)
  | erased hk hd =>
      refine ⟨h.phase, hlives, ?_, hentry, ?_⟩
      · exact h.keys.sublist (List.filter_sublist.map Prod.fst)
      · simp only [erase, h.fresh, h.phase, reduceCtorEq, if_false]
  | accepted connfd ipPort k idx =>
      exact ⟨h.phase, hlives, nodup_assign h.keys _ _, hentry, h.fresh⟩
  | destroyed order ha' => exact absurd ha' (ha order)
  | torn hd => exact absurd hd (h.not_torn hh)
  | gone hp' => exact absurd h.phase hp'

/-! ## The table of the connections -/

/-- The server is not destroyed, and fewer than 2 ^ 64 connections have been accepted when
one more is. -/
def Within (s : TcpServer) : ServerAct → Prop
  | .accept _ _ => s.accepted.length < 2 ^ 64
  | .destroy _ => False
  | _ => True

instance (s : TcpServer) : (a : ServerAct) → Decidable (s.Within a)
  | .accept _ _ => inferInstanceAs (Decidable (_ < _))
  | .destroy _ => inferInstanceAs (Decidable False)
  | .poll _ _ | .dispatch _ | .swap _ | .task _ | .advance _ _ | .send _ _ _ | .shutdown _ _
  | .retrieve _ _ _ | .setHighWater _ _ _ => inferInstanceAs (Decidable True)

/-- Every connection that is not torn down stands in the table under its name. -/
structure Listed (s : TcpServer) : Prop where
  ids : s.nextConnID = BitVec.ofNat 64 s.accepted.length
  bound : s.accepted.length ≤ 2 ^ 64
  names : ∀ (c : ℕ) (k : ServerConn), s.accepted[c]? = some k →
    ∃ ipPort, k.name = connName s.name ipPort (BitVec.ofNat 64 c)
  listed : ∀ (c : ℕ) (k : ServerConn), s.accepted[c]? = some k →
    dueTo s.threads c .destroyed = 0 → k.log.count .down = 0 → (k.name, c) ∈ s.conns
  erased : ∀ n ∈ s.erased, n = 1
  failed : s.failed = false

theorem listed_init (name : List Char) (wc : Bool) (poolSize users : ℕ) :
    (init name wc poolSize users).Listed :=
  ⟨rfl, Nat.zero_le _, nofun, nofun, nofun, rfl⟩

theorem mem_assign_self (conns : List (List Char × ℕ)) (name : List Char) (c : ℕ) :
    (name, c) ∈ assign conns name c := by
  unfold assign
  split
  · next h =>
      obtain ⟨p, hp, he⟩ := List.mem_map.mp h
      exact List.mem_map.mpr ⟨p, hp, if_pos he⟩
  · exact List.mem_append_right _ (List.mem_singleton_self _)

theorem mem_assign_of_ne {conns : List (List Char × ℕ)} {name : List Char} {p : List Char × ℕ}
    (hp : p ∈ conns) (hne : p.1 ≠ name) (c : ℕ) : p ∈ assign conns name c := by
  unfold assign
  split
  · exact List.mem_map.mpr ⟨p, hp, if_neg hne⟩
  · exact List.mem_append_left _ hp

/-- A key that is in the table is there once. -/
theorem length_filter_key {conns : List (List Char × ℕ)} (h : (conns.map Prod.fst).Nodup)
    {name : List Char} (hmem : (name, c) ∈ conns) :
    (conns.filter fun p => p.1 = name).length = 1 := by
  have hcount := List.count_eq_one_of_mem h (List.mem_map_of_mem hmem)
  rw [List.count, List.countP_map, List.countP_eq_length_filter] at hcount
  rw [← hcount]
  refine congrArg List.length (List.filter_congr fun p _ => ?_)
  exact (beq_eq_decide p.1 name).symm

/-- Two connections of one name are one. -/
theorem Listed.name_inj (h : s.Listed) {c' : ℕ} {u : ServerConn} (hk : s.accepted[c]? = some k)
    (hu : s.accepted[c']? = some u) (he : k.name = u.name) : c = c' := by
  obtain ⟨ip, hname⟩ := h.names c k hk
  obtain ⟨ip', hname'⟩ := h.names c' u hu
  have hid := congrArg BitVec.toNat (connName_inj (hname.symm.trans (he.trans hname')))
  have hc := (List.getElem?_eq_some_iff.mp hk).1.trans_le h.bound
  have hc' := (List.getElem?_eq_some_iff.mp hu).1.trans_le h.bound
  rwa [BitVec.toNat_ofNat, BitVec.toNat_ofNat, Nat.mod_eq_of_lt hc, Nat.mod_eq_of_lt hc'] at hid

/-- The name of the next connection is a new one. -/
theorem Listed.name_new (h : s.Listed) (hlen : s.accepted.length < 2 ^ 64) {ipPort : List Char}
    (hk : s.accepted[c]? = some k) : k.name ≠ connName s.name ipPort s.nextConnID := by
  intro he
  obtain ⟨ip, hname⟩ := h.names c k hk
  have hid := congrArg BitVec.toNat (connName_inj (hname.symm.trans he))
  have hc := (List.getElem?_eq_some_iff.mp hk).1
  rw [h.ids, BitVec.toNat_ofNat, BitVec.toNat_ofNat, Nat.mod_eq_of_lt (hc.trans hlen),
    Nat.mod_eq_of_lt hlen] at hid
  exact hc.ne hid

theorem Listed.effect (h : s.Listed) (hs : s.Serves) (hh : s.Home) (e : Effect s a s')
    (ha : s.Within a) : s'.Listed := by
  have hno : ∀ order, a ≠ .destroy order := fun order he => (he ▸ ha : s.Within (.destroy order))
  cases e with
  | moved hd =>
      exact { h with listed := fun c u hu hdes => h.listed c u hu ((hd c _).symm.trans hdes) }
  | @ran ts c k r op hk hfit hrun hdue hd hclose =>
      have hlen : ∀ u : ServerConn, (s.accepted.set c u).length = s.accepted.length :=
        fun _ => List.length_set
      refine ⟨h.ids.trans (congrArg _ (hlen _).symm), (hlen _).trans_le h.bound, fun c' u hu => ?_,
        fun c' u hu hdes hdown => ?_, h.erased, h.failed⟩
      · rcases getElem?_set_cases hk hu with ⟨rfl, rfl⟩ | ⟨-, hu⟩
        · exact h.names c' k hk
        · exact h.names c' u hu
      · rcases getElem?_set_cases hk hu with ⟨rfl, rfl⟩ | ⟨hc, hu⟩
        · rw [List.count_append, op.count_down] at hdown
          obtain ⟨hdown, huses⟩ := Nat.add_eq_zero_iff.mp hdown
          refine h.listed c' k hk ?_ hdown
          have hx := hd.self .destroyed
          rw [hdes, huses, op.count_leaves r.2 (.inl rfl)] at hx
          exact hx.symm
        · exact h.listed c' u hu ((congrFun (hd.other hc) _).symm.trans hdes) hdown
  | failed op hk hfit hrun hd => exact absurd hrun (hs.not_failed hk hfit hd)
  | @loaded ts c k hk hs hd =>
      refine { h with listed := fun c' u hu hdes hdown => h.listed c' u hu ?_ hdown }
      exact (hd.same (x := .destroyed) rfl c').symm.trans hdes
  | @erased ts c k hk hd =>
      have hlives := hs.lives c k hk
      have hpos := hd.pos (List.mem_singleton_self _) (by decide)
      have hclosing := hlives.closing
      have hevents := hlives.events
      have hone := length_filter_key hs.keys (h.listed c k hk (by omega) (by omega))
      refine ⟨h.ids, h.bound, h.names, fun c' u hu hdes hdown => ?_, fun n hn => ?_, ?_⟩
      · have hc : c' ≠ c := by
          rintro rfl
          have hx : dueTo ts c' .destroyed + 0 = dueTo s.threads c' .destroyed + 1 :=
            hd.self .destroyed
          have hdes : dueTo ts c' .destroyed = 0 := hdes
          omega
        refine List.mem_filter.mpr ⟨h.listed c' u hu ?_ hdown, decide_eq_true fun he => ?_⟩
        · exact (congrFun (hd.other hc) _).symm.trans hdes
        · exact hc (h.name_inj hu hk he)
      · rcases List.mem_append.mp hn with hn | hn
        · exact h.erased n hn
        · exact (List.mem_singleton.mp hn).trans hone
      · simp only [erase, h.failed, hone, ne_eq, not_true_eq_false, decide_false, Bool.or_false]
  | @accepted ts connfd ipPort k idx ha' hp' hst hsound hlog hname hd =>
      subst ha'
      refine ⟨?_, ?_, fun c' u hu => ?_, fun c' u hu hdes hdown => ?_, h.erased, h.failed⟩
      · show s.nextConnID + 1 = BitVec.ofNat 64 (s.accepted ++ [k]).length
        rw [h.ids, List.length_append, List.length_singleton, BitVec.ofNat_add]
        rfl
      · show (s.accepted ++ [k]).length ≤ 2 ^ 64
        rw [List.length_append]
        exact ha
      · rcases getElem?_concat_cases hu with ⟨rfl, rfl⟩ | ⟨-, hu⟩
        · exact ⟨ipPort, hname.trans (by rw [h.ids])⟩
        · exact h.names c' u hu
      · rcases getElem?_concat_cases hu with ⟨rfl, rfl⟩ | ⟨hc, hu⟩
        · exact mem_assign_self s.conns u.name s.accepted.length
        · have hmem := h.listed c' u hu ((congrFun (hd.other hc) _).symm.trans hdes) hdown
          exact mem_assign_of_ne hmem (hname ▸ h.name_new ha hu) s.accepted.length
  | @polled ts l active hnodup hrep hnone hd =>
      refine { h with listed := fun c' u hu hdes hdown => h.listed c' u hu ?_ hdown }
      have hx := (hd c' .destroyed).symm.trans hdes
      exact Nat.eq_zero_of_add_eq_zero_right hx
  | destroyed order ha' => exact absurd ha' (hno order)
  | torn hd => exact absurd hd (hs.not_torn hh)
  | gone hp' => exact absurd hs.phase hp'

/-! ## The life cycle -/

/-- `StepIntoEstablished` is due or has called `connectionCb_`, once; it comes first, and
`HandleClose`, `StepIntoDestroyed` and `Channel::Remove` come at most once; no message comes
after `StepIntoDestroyed` has called `connectionCb_`. -/
structure LifeCycle (s : TcpServer) (c : ℕ) (k : ServerConn) : Prop where
  up : dueTo s.threads c .established + k.log.count .up = 1
  first : k.log ≠ [] → k.log.head? = some .up
  down : k.log.count .down ≤ 1
  closed : k.log.count .close ≤ 1
  removed : k.log.count .removed ≤ 1
  silent : k.log.Pairwise fun e e' => e = .down → e' ≠ .message

theorem Serves.lifeCycle (h : s.Serves) (hk : s.accepted[c]? = some k) : s.LifeCycle c k := by
  have hl := h.lives c k hk
  have hclosing := hl.closing
  have hevents := hl.events
  have hremoving := hl.removing
  refine ⟨?_, fun hne => ?_, by omega, by omega, by omega, hl.silent⟩
  · by_cases hs : k.tcp.state = .connecting
    · obtain ⟨hlog, hd⟩ := hl.fresh hs
      rw [hd, hlog]
      rfl
    · obtain ⟨hd, -, hup⟩ := hl.begun hs
      rw [hd, hup]
  · by_cases hs : k.tcp.state = .connecting
    · exact absurd (hl.fresh hs).1 hne
    · exact (hl.begun hs).2.1

theorem serves_of_run {name : List Char} {wc : Bool} {poolSize users : ℕ}
    {tr : List (TcpServer × ServerAct)}
    (hr : Run (stepOf step) (init name wc poolSize users) tr s) (hok : ∀ p ∈ tr, Within p.1 p.2) :
    s.Home ∧ s.Serves ∧ s.Listed := by
  refine hr.invariant_of (I := fun s => s.Home ∧ s.Serves ∧ s.Listed) hok
    ⟨home_init name wc poolSize users, serves_init name wc poolSize users,
      listed_init name wc poolSize users⟩ ?_
  intro t a u ⟨hh, hs, hl⟩ hg hst
  have hst := steps_of_step hst
  have e := Effect.of_steps hh hst
  have hno : ∀ order, a ≠ .destroy order := fun order he => (he ▸ hg : t.Within (.destroy order))
  exact ⟨hh.step hst, hs.effect hh e hno, hl.effect hs hh e hg⟩

/-- Every connection of a server that is alive has its life cycle, whatever the order of the
steps; `RemoveConnectionInLoop` erases one entry each time, and no assertion fails. -/
theorem life_cycle {name : List Char} {wc : Bool} {poolSize users : ℕ}
    {tr : List (TcpServer × ServerAct)}
    (hr : Run (stepOf step) (init name wc poolSize users) tr s) (hok : ∀ p ∈ tr, Within p.1 p.2) :
    (∀ (c : ℕ) (k : ServerConn), s.accepted[c]? = some k → s.LifeCycle c k) ∧
      (s.conns.map Prod.fst).Nodup ∧ (∀ n ∈ s.erased, n = 1) ∧ s.failed = false := by
  obtain ⟨-, hs, hl⟩ := serves_of_run hr hok
  exact ⟨fun c k hk => hs.lifeCycle hk, hs.keys, hl.erased, hl.failed⟩

/-- System calls that bring nothing. -/
def nothing : SysResult := ⟨.wrote 0, Vector.replicate _ 0, .failed 11⟩

/-- A connection of loop 1 is accepted, another thread sends on it, the peer hangs up, and
the main loop and loop 1 take it down. -/
def hangUp : List ServerAct :=
  [.poll 0 [], .accept 7 ['h'], .advance 0 nothing,
    .poll 1 [], .swap 1, .task 1, .advance 1 nothing, .send 2 0 [1, 2, 3], .advance 1 nothing,
    .advance 2 nothing, .poll 1 [(0, POLLHUP)], .dispatch 1, .advance 1 nothing,
    .advance 1 nothing, .advance 1 nothing, .swap 1, .task 1, .advance 1 nothing,
    .swap 0, .task 0, .advance 0 nothing, .advance 0 nothing,
    .poll 1 [], .swap 1, .task 1, .advance 1 nothing, .advance 1 nothing, .advance 1 nothing]

theorem hangUp_lifeCycle : ∃ tr s k, runAll step (init ['s'] true 1 1) hangUp = some (tr, s) ∧
    s.accepted[0]? = some k ∧ k.log = [.up, .close, .down, .removed] ∧ s.LifeCycle 0 k ∧
      s.erased = [1] ∧ s.conns = [] ∧ s.failed = false := by
  obtain ⟨tr, s, hrun, hok, hlog, he, hc⟩ : ∃ tr s,
      runAll step (init ['s'] true 1 1) hangUp = some (tr, s) ∧ (∀ p ∈ tr, Within p.1 p.2) ∧
        (s.accepted[0]?).map ServerConn.log = some [.up, .close, .down, .removed] ∧
          s.erased = [1] ∧ s.conns = [] :=
    exists_computed (by decide +kernel)
  obtain ⟨k, hk, hlog⟩ := Option.map_eq_some_iff.mp hlog
  obtain ⟨hcycle, -, -, hfailed⟩ := life_cycle (run_of_runAll hrun) hok
  exact ⟨tr, s, k, hrun, hk, hlog, hcycle 0 k hk, he, hc, hfailed⟩

end TcpServer

end Muduo
