/-
# `Muduo.Server.Effect` — what a step does to the connections

The steps of the server, its loops and its connections as seen from what is due.
Most of them only move something from one place to another; one operation of one
connection uses up and leaves what the operation says; the rest is the server's.

    moved        nothing is due more or less
    ran          an operation of a connection
    failed       one whose assertion fails
    loaded       Send has found its connection connected
    erased       RemoveConnectionInLoop
    accepted     HandleNewConnection
    polled       Poll
    destroyed    the destructor is called
    torn         it turns to a connection
    gone         it has come to its end
-/
import Muduo.Server.Dues

namespace Muduo

namespace TcpServer

variable {s s' : TcpServer} {a : ServerAct} {i c : ℕ} {t : ServerThread} {ts : List ServerThread}

/-- Connection `c` is up. -/
def up (s : TcpServer) (c : ℕ) : Bool := (s.accepted[c]?).any fun k => k.tcp.IsUp

/-- The step calls `HandleClose`, and the connection is up. -/
def closing (s : TcpServer) : ServerAct → Bool
  | .advance i r =>
      match s.threads[i]?.bind fun t => t.stack.head? with
      | some (.handlers c (.close :: _)) => s.up c
      | some (.handlers c (.read :: _)) => s.up c && r.readv = .delivered []
      | _ => false
  | _ => false

inductive Effect (s : TcpServer) (a : ServerAct) : TcpServer → Prop
  | moved {ts : List ServerThread} (hd : ∀ c x, dueTo ts c x = dueTo s.threads c x) :
      Effect s a { s with threads := ts }
  | ran {ts : List ServerThread} {c : ℕ} {k : ServerConn} {r : TcpConnection × List ConnEffect}
      (op : LifeOp) (hk : s.accepted[c]? = some k) (hfit : op.Fits k.tcp)
      (hrun : op.run k.tcp = some r) (hdue : ∀ x ∈ op.uses, 0 < dueTo s.threads c x)
      (hd : Changes s.threads ts c op.uses (op.leaves r.2))
      (hclose : .removal ∈ op.leaves r.2 → s.closing a = true) :
      Effect s a
        { s with
          threads := ts
          accepted := s.accepted.set c
            { k with tcp := r.1, log := k.log ++ (op.event ++ r.2.flatMap ConnEffect.event) }
          stale := s.stale + if s.phase = .gone then r.2.count .onCloseCb else 0 }
  | failed {ts : List ServerThread} {c : ℕ} {k : ServerConn} (op : LifeOp)
      (hk : s.accepted[c]? = some k) (hfit : op.Fits k.tcp) (hrun : op.run k.tcp = none)
      (hd : Changes s.threads ts c op.uses []) : Effect s a { s with threads := ts, failed := true }
  | loaded {ts : List ServerThread} {c : ℕ} {k : ServerConn} (hk : s.accepted[c]? = some k)
      (hs : k.tcp.state = .connected) (hd : Changes s.threads ts c [] [.send]) :
      Effect s a { s with threads := ts }
  | erased {ts : List ServerThread} {c : ℕ} {k : ServerConn} (hk : s.accepted[c]? = some k)
      (hd : Changes s.threads ts c [.removal] [.destroyed]) :
      Effect s a { s.erase k.name with threads := ts }
  | accepted {ts : List ServerThread} (connfd : ℤ) (ipPort : List Char) (k : ServerConn) (idx : ℕ)
      (ha : a = .accept connfd ipPort) (hp : s.phase = .alive) (hs : k.tcp.Sound)
      (hst : k.tcp.state = .connecting) (hlog : k.log = [])
      (hname : k.name = connName s.name ipPort s.nextConnID)
      (hd : Changes s.threads ts s.accepted.length [] [.established]) :
      Effect s a
        { s with
          nextConnID := s.nextConnID + 1
          nextLoopIdx := idx
          accepted := s.accepted ++ [k]
          conns := assign s.conns k.name s.accepted.length
          threads := ts }
  | polled {ts : List ServerThread} (l : ℕ) (active : List (ℕ × BitVec 32))
      (hnodup : (active.map Prod.fst).Nodup) (hrep : ∀ p ∈ active, s.Reported l p)
      (hnone : ∀ p ∈ active, dueTo s.threads p.1 .event = 0)
      (hd : ∀ c x, dueTo ts c x = dueTo s.threads c x + (active.flatMap reportDues).count (c, x)) :
      Effect s a { s with threads := ts }
  | destroyed {ts : List ServerThread} (order : List ℕ) (ha : a = .destroy order)
      (hp : s.phase = .alive) (hperm : order.Perm (s.conns.map Prod.snd))
      (hd : ∀ c x, dueTo ts c x =
        dueTo s.threads c x + (order.map fun c => (c, Due.torn)).count (c, x)) :
      Effect s a { s with threads := ts, phase := .destructing }
  | torn {ts : List ServerThread} {c : ℕ} (hd : Changes s.threads ts c [.torn] [.destroyed]) :
      Effect s a { s with threads := ts }
  | gone {ts : List ServerThread} (hp : s.phase ≠ .alive)
      (hd : ∀ c x, dueTo ts c x = dueTo s.threads c x) :
      Effect s a { s with threads := ts, phase := .gone, conns := [] }

namespace Effect

/-- A function of a connection, from threads in which what it uses up has been taken. -/
theorem onConn {k : ServerConn} (op : LifeOp) {after : List ServerFrame}
    {f : ServerConn → Option (TcpConnection × List ConnEffect)} (ht : ts[i]? = some t)
    (hk : s.accepted[c]? = some k) (hf : f k = op.run k.tcp) (hfit : op.Fits k.tcp)
    (hafter : after.flatMap ServerFrame.dues = op.after.map (Prod.mk c))
    (hd : Changes s.threads ts c op.uses [])
    (hclose : ∀ r, op.run k.tcp = some r → .removal ∈ op.leaves r.2 → s.closing a = true) :
    Effect s a ({ s with threads := ts }.onConn i c op.noted f after) := by
  cases hrun : op.run k.tcp with
  | none =>
      rw [onConn_none (s := { s with threads := ts }) hk (hf.trans hrun)]
      exact .failed op hk hfit hrun hd
  | some r =>
      rw [onConn_some (s := { s with threads := ts }) hk (hf.trans hrun), TcpServer.effects,
        LifeOp.calls_run hrun]
      refine .ran op hk hfit hrun (fun x hx => hd.pos hx List.not_mem_nil) (fun c' x => ?_)
        (hclose r hrun)
      have hpush := due_push ht (r.2.flatMap (ConnEffect.frames k.loop c) ++ after) c' x
      have hx := hd c' x
      rw [List.map_nil, List.count_nil] at hx
      rw [List.flatMap_append, dues_frames, hafter, ← List.map_append] at hpush
      show dueTo (ts.modify i _) c' x + _ = _ + ((op.leaves r.2).map (Prod.mk c)).count (c', x)
      rw [hpush, LifeOp.leaves]
      omega

/-- An operation in which `HandleClose` is not called. -/
theorem not_closes {tcp : TcpConnection} {op : LifeOp} (h : op.mayClose = false) :
    ∀ r, op.run tcp = some r → .removal ∈ op.leaves r.2 → s.closing a = true := by
  intro r hrun hmem
  obtain ⟨-, rfl | ⟨extrabuf, rfl⟩⟩ := LifeOp.closes_of_removal hrun hmem
  · exact nomatch h
  · exact nomatch h

theorem inLoop_eq {k : ServerConn} {f : TcpConnection → Option (TcpConnection × List ConnEffect)}
    (hl : k.loop = i) : inLoop i f k = f k.tcp := by
  simp only [inLoop, assert_of hl, Option.bind_eq_bind, Option.bind_some]

/-- A callback that is called. -/
theorem call {task : ServerTask} {r : SysResult} (ht : ts[i]? = some t) (hat : task.At s.loops i)
    (hans : s.Answered r (.call task))
    (hd : ∀ c x, dueTo ts c x + [task.due].count (c, x) = dueTo s.threads c x) :
    Effect s a ({ s with threads := ts }.call i r task) := by
  cases task with
  | stepIntoEstablished c =>
      obtain ⟨k, hk, hl⟩ := Home.exists_conn hat
      exact onConn .established ht hk (inLoop_eq hl) trivial rfl hd (not_closes rfl)
  | stepIntoDestroyed c =>
      obtain ⟨k, hk, hl⟩ := Home.exists_conn hat
      exact onConn .destroyed ht hk (inLoop_eq hl) trivial rfl hd (not_closes rfl)
  | removeConnectionInLoop c =>
      obtain ⟨rfl, hc⟩ := hat
      obtain ⟨k, hk⟩ := Home.exists_conn_of_lt hc
      rw [TcpServer.call, removeConnectionInLoop_eq (s := { s with threads := ts }) hk]
      refine .erased hk fun c' x => ?_
      have hpush := due_push ht [.runInLoop k.loop (.stepIntoDestroyed c)] c' x
      have hx := hd c' x
      show dueTo (ts.modify 0 _) c' x + [(c, Due.removal)].count (c', x) =
        _ + [(c, Due.destroyed)].count (c', x)
      rw [hpush, ← hx]
      exact Nat.add_right_comm _ _ _
  | sendInLoop c buf =>
      obtain ⟨k, hk, hl⟩ := Home.exists_conn hat
      exact onConn (.send buf r.write) ht hk (inLoop_eq hl) hans rfl hd
        (not_closes rfl)
  | shutdownInLoop c =>
      obtain ⟨k, hk, hl⟩ := Home.exists_conn hat
      exact onConn .shutdownInLoop ht hk (inLoop_eq hl) trivial rfl hd
        (not_closes rfl)
  | writeComplete c =>
      obtain ⟨k, hk, -⟩ := Home.exists_conn hat
      exact onConn .writeComplete ht hk rfl trivial rfl hd (not_closes rfl)
  | highWater c size =>
      obtain ⟨k, hk, -⟩ := Home.exists_conn hat
      exact onConn (.highWater size) ht hk rfl trivial rfl hd (not_closes rfl)

/-- What a dispatch loses with its first callback. -/
theorem dues_handlers (c : ℕ) (h : Handler) (hs : List Handler) :
    (ServerFrame.handlers c (h :: hs)).dues =
      (if h.mayClose then [(c, Due.event)] else []) ++ (ServerFrame.handlers c hs).dues := by
  cases h with
  | close | read =>
      simp [ServerFrame.dues, Handler.mayClose, List.countP_cons, List.replicate_succ]
  | error | write => simp [ServerFrame.dues, Handler.mayClose]

/-- One of the callbacks of a dispatch. -/
theorem handle {h : Handler} {hs : List Handler} {r : SysResult} (ht : ts[i]? = some t)
    (hat : s.loops[c]? = some i) (hans : s.Answered r (.handlers c (h :: hs)))
    (hd : ∀ c' x, dueTo ts c' x + (if h.mayClose then [(c, Due.event)] else []).count (c', x) =
      dueTo s.threads c' x)
    (hclose : s.up c = true → h = .close ∨ h = .read ∧ r.readv = .delivered [] →
      s.closing a = true) :
    Effect s a ({ s with threads := ts }.handle i c r h) := by
  obtain ⟨k, hk, hl⟩ := Home.exists_conn hat
  have hup : k.tcp.IsUp → s.up c = true := by
    intro hup
    rw [up, hk]
    exact decide_eq_true hup
  cases h with
  | close =>
      refine onConn .close ht hk (inLoop_eq hl) trivial rfl hd fun r' hrun hmem => ?_
      exact hclose (hup (LifeOp.closes_of_removal hrun hmem).1) (.inl rfl)
  | error => exact onConn .error ht hk (inLoop_eq hl) trivial rfl hd (not_closes rfl)
  | read =>
      refine onConn (.read r.extrabuf r.readv) ht hk (inLoop_eq hl) (hans k hk) rfl hd ?_
      intro r' hrun hmem
      obtain ⟨hu, h | ⟨extrabuf, h⟩⟩ := LifeOp.closes_of_removal hrun hmem
      · exact nomatch h
      · exact hclose (hup hu) (.inr ⟨rfl, (LifeOp.read.inj h).2⟩)
  | write =>
      exact onConn (.write r.write) ht hk (inLoop_eq hl) (hans k hk) rfl hd
        (not_closes rfl)

/-- The function that a thread is in. -/
theorem perform {f : ServerFrame} {stack : List ServerFrame} {r : SysResult} (h : s.Home)
    (ht : s.threads[i]? = some t) (hstack : t.stack = f :: stack) (hans : s.Answered r f) :
    Effect s (.advance i r) ((s.pop i).perform i r f) := by
  have hat := (h.at_ i t ht).stack f (hstack ▸ List.mem_cons_self)
  have ht' : (s.pop i).threads[i]? = some { t with stack := t.stack.tail } :=
    getElem?_onThread ht fun t => { t with stack := t.stack.tail }
  have hpop : ∀ c x, dueTo (s.pop i).threads c x + f.dues.count (c, x) = dueTo s.threads c x :=
    due_pop ht hstack
  cases f with
  | call task => exact call ht' hat hans hpop
  | runInLoop l task =>
      show Effect s (.advance i r)
        (if i = l then (s.pop i).push i [.call task] else (s.pop i).enqueue l task)
      split
      · exact .moved fun c x => (due_push ht' [.call task] c x).trans (hpop c x)
      · obtain ⟨u, hu⟩ := (h.pop i).exists_thread hat
        exact .moved fun c x => (due_enqueue hu task c x).trans (hpop c x)
  | enqueue l task =>
      obtain ⟨u, hu⟩ := (h.pop i).exists_thread hat
      exact .moved fun c x => (due_enqueue hu task c x).trans (hpop c x)
  | handlers c hs =>
      cases hs with
      | nil => exact .moved fun c x => hpop c x
      | cons hd hs =>
          have ht₁ := getElem?_onThread ht' fun t => { t with stack := [.handlers c hs] ++ t.stack }
          refine handle ht₁ hat hans (fun c' x => ?_) fun hup hcl => ?_
          · have hpush := due_push ht' [.handlers c hs] c' x
            have hx := hpop c' x
            rw [dues_handlers, List.count_append] at hx
            rw [List.flatMap_singleton] at hpush
            show dueTo ((s.pop i).threads.modify i _) c' x + _ = _
            rw [hpush]
            omega
          · simp only [closing, ht, hstack, Option.bind_some, List.head?_cons]
            rcases hcl with rfl | ⟨rfl, hr⟩
            · exact hup
            · exact Bool.and_eq_true_iff.mpr ⟨hup, decide_eq_true hr⟩
  | remove c =>
      obtain ⟨k, hk, -⟩ := Home.exists_conn hat
      exact onConn .remove ht' hk rfl trivial rfl hpop (not_closes rfl)
  | callback => exact .moved fun c x => hpop c x
  | destructor rest =>
      cases rest with
      | nil => exact .gone hat.1 fun c x => hpop c x
      | cons c rest =>
          have hc := hat.2 c List.mem_cons_self
          obtain ⟨k, hk⟩ := Home.exists_conn_of_lt hc
          rw [destructor_eq (s := s.pop i) hk]
          refine .torn (c := c) fun c' x => ?_
          have hpush :=
            due_push ht' [.runInLoop k.loop (.stepIntoDestroyed c), .destructor rest] c' x
          have hx : dueTo (s.pop i).threads c' x +
              ([(c, Due.torn)] ++ (ServerFrame.destructor rest).dues).count (c', x) =
            dueTo s.threads c' x := hpop c' x
          rw [show [ServerFrame.runInLoop k.loop (.stepIntoDestroyed c), .destructor rest].flatMap
            ServerFrame.dues = [(c, Due.destroyed)] ++ (ServerFrame.destructor rest).dues from
            congrArg _ (List.append_nil _), List.count_append] at hpush
          rw [List.count_append] at hx
          show dueTo ((s.pop i).threads.modify i _) c' x + [(c, Due.torn)].count (c', x) =
            _ + [(c, Due.destroyed)].count (c', x)
          rw [hpush]
          omega

/-- A thread that polls has no callback of its channels before it. -/
theorem no_event (h : s.Home) (ht : s.threads[i]? = some t) (hstack : t.stack = [])
    (hev : t.eventHandling = false) (hc : s.loops[c]? = some i) : dueTo s.threads c .event = 0 := by
  by_contra hne
  obtain ⟨j, u, hu, hmem⟩ := Shares.exists_of_count_pos (Nat.pos_of_ne_zero hne)
  obtain ⟨hj, hor⟩ := (h.at_ j u hu).event hmem
  obtain rfl := Option.some.inj (hc.symm.trans hj)
  obtain rfl := Option.some.inj (ht.symm.trans hu)
  exact hor.elim (fun hs => hs hstack) fun ha => ha ((h.at_ i t ht).calling hev)

theorem of_steps (h : s.Home) (hst : Steps s a s') : Effect s a s' := by
  cases hst with
  | accept connfd ipPort ht hp =>
      obtain ⟨k, idx, e, hs, hst, hlog, hname, -, -⟩ :=
        handleNewConnection_spec h.index connfd ipPort
      rw [e]
      refine .accepted connfd ipPort k idx rfl hp hs hst hlog hname fun c x => ?_
      exact due_push ht [.runInLoop k.loop (.stepIntoEstablished s.accepted.length)] c x
  | poll l active ht hstack hev hbatch hnodup hrep =>
      refine .polled l active hnodup hrep (fun p hp => ?_) fun c x => ?_
      · obtain ⟨-, k, hk, hl, -⟩ := hrep p hp
        exact no_event h ht hstack hev (hl ▸ Home.loops_conn hk)
      · have hmod := due_modify ht (fun t => { t with eventHandling := true, active }) c x
        have hnil := (h.at_ l _ ht).calling hev
        simp only [ServerThread.dues, hnil, List.count_append, List.flatMap_nil,
          List.count_nil] at hmod
        show dueTo (s.threads.modify l _) c x = _
        omega
  | dispatch l c revents active ht hstack hev hactive =>
      refine .moved fun c' x => ?_
      have hmod := due_modify ht (fun t =>
        { t with active, stack := [.handlers c (Channel.handlers revents)] }) c' x
      simp only [ServerThread.dues, hstack, hactive, List.flatMap_cons, List.flatMap_nil,
        List.count_append, List.count_nil, reportDues] at hmod
      show dueTo (s.threads.modify l _) c' x = _
      omega
  | swap l ht hev hactive =>
      refine .moved fun c x => ?_
      have hmod := due_modify ht (fun t =>
        { t with eventHandling := false, batch := t.queue, queue := [] }) c x
      have hnil := (h.at_ l _ ht).handling hev
      simp only [ServerThread.dues, hnil, List.count_append, List.map_nil, List.count_nil] at hmod
      show dueTo (s.threads.modify l _) c x = _
      omega
  | @task t l task batch ht hstack hbatch =>
      refine .moved fun c x => ?_
      have hmod := due_modify ht (fun t => { t with batch, stack := [.call task] }) c x
      have hcons : (t.batch.map ServerTask.due).count (c, x) =
          [task.due].count (c, x) + (batch.map ServerTask.due).count (c, x) := by
        rw [hbatch]
        show ([task.due] ++ batch.map ServerTask.due).count (c, x) = _
        rw [List.count_append]
      simp only [ServerThread.dues, hstack, List.flatMap_nil, List.flatMap_singleton,
        List.count_append, List.count_nil, hcons] at hmod
      show dueTo (s.threads.modify l _) c x = _
      have hone : (ServerFrame.call task).dues.count (c, x) = [task.due].count (c, x) := rfl
      omega
  | advance i r f stack ht hstack hans => exact perform h ht hstack hans
  | send i c buf ht hk hs =>
      refine .loaded hk hs fun c' x => ?_
      refine (due_push ht _ c' x).trans ?_
      split <;> rfl
  | refused => exact .moved fun c x => rfl
  | shutdown i c ht hk =>
      exact onConn .shutdown ht hk rfl trivial rfl (fun c' x => rfl) (not_closes rfl)
  | retrieve i c n ht hk hn =>
      exact onConn (.retrieve n) ht hk rfl hn rfl (fun c' x => rfl) (not_closes rfl)
  | setHighWater i c mark ht hk =>
      exact onConn (.setHighWater mark) ht hk rfl trivial rfl (fun c' x => rfl)
        (not_closes rfl)
  | destroy order ht hp hperm =>
      refine .destroyed order rfl hp hperm fun c x => ?_
      have hpush := due_push ht [.destructor order] c x
      rwa [List.flatMap_singleton] at hpush

end Effect

end TcpServer

end Muduo
