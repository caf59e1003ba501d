/-
# `Muduo.Server.Project` — a server as its connections see it

Of all that a server, its loops and its users do, connection `c` is touched by the
functions of `LifeOp` alone, one at a time.  `opOf` reads off a step which one that
is; taken along a run these are the history of the connection.

    a run of the server              Run (stepOf step) (init …) tr s
      │ history c
      ▼
    a run of one connection          Run (stepOut LifeOp.run) tcp tr' k.tcp

The state that connection `c` is in, and its log of callbacks, are those that its
history alone leads to (`refines_connection`), so that what is known of one connection
is known of every connection of a server, whatever the other threads and connections do
meanwhile: the bytes that its kernel has taken and those of its output buffer are the
payloads that were sent, in order (`stream_of_history`).
-/
import Muduo.Server.LifeCycle

namespace Muduo

open Runs

/-! ## One connection -/

namespace LifeOp

/-- The payload that an operation adds to the stream. -/
def payload : LifeOp → List Byte
  | .send buf _ => buf
  | _ => []

/-- The callbacks that an operation makes. -/
def called (tcp : TcpConnection) (op : LifeOp) : List ConnEvent :=
  (op.run tcp).elim [] fun r => op.noted ++ r.2.flatMap (ConnEffect.calls r.1)

theorem called_run {tcp : TcpConnection} {op : LifeOp} {r : TcpConnection × List ConnEffect}
    (h : op.run tcp = some r) :
    op.called tcp = op.noted ++ r.2.flatMap (ConnEffect.calls r.1) := by
  rw [called, h]
  rfl

/-- A direct write does not find the connection closed by the peer. -/
def PeerOpen : LifeOp → Prop
  | .send _ w => w.PeerOpen
  | _ => True

instance : (op : LifeOp) → Decidable op.PeerOpen
  | .send _ w => inferInstanceAs (Decidable w.PeerOpen)
  | .established | .destroyed | .remove | .close | .error | .read _ _ | .write _ | .shutdown
  | .shutdownInLoop | .writeComplete | .highWater _ | .retrieve _ | .setHighWater _ =>
      inferInstanceAs (Decidable True)

end LifeOp

namespace TcpConnection

variable {c c' : TcpConnection} {taken pending payloads : List Byte} {effs : List ConnEffect}
  {op : LifeOp}

theorem carries_new {sockfd : ℤ} {wc hw : Bool} {mark : ℕ}
    (h : new sockfd wc hw mark = some c) : Carries c [] [] [] := by
  obtain ⟨b, e, hb⟩ := Buffer.new_spec kInitialSize
  simp only [new, e, Option.bind_eq_bind, Option.bind_some] at h
  obtain rfl := Option.some.inj h
  exact ⟨⟨[], hb⟩, hb, fun _ => rfl, fun _ => by simp⟩

/-- What leaves the output and the interest in writing of a connection alone carries on. -/
theorem Carries.keep (k : Carries c taken pending payloads)
    (hin : ∃ q, c'.inputBuffer.Holds q) (hout : c'.outputBuffer = c.outputBuffer)
    (hw : c'.state ≠ .disconnected → c'.chan.isWriting = c.chan.isWriting)
    (hs : c'.state ≠ .disconnected → c.state ≠ .disconnected)
    (heffs : effs.flatMap ConnEffect.taken = []) (hp : op.payload = []) :
    ∃ pending', Carries c' (taken ++ effs.flatMap ConnEffect.taken) pending'
      (payloads ++ op.payload) := by
  rw [heffs, hp, List.append_nil, List.append_nil]
  exact ⟨pending, hin, hout ▸ k.output, fun h => k.stream (hs h),
    fun h => (hw h) ▸ k.writing (hs h)⟩

/-- An operation of a connection that is one of those of `ConnOp`. -/
theorem Carries.conn (k : Carries c taken pending payloads) (cop : ConnOp) (hv : c.Valid cop)
    (h : c.exec cop = some (c', effs)) (hp : op.payload = cop.payload) :
    ∃ pending', Carries c' (taken ++ effs.flatMap ConnEffect.taken) pending'
      (payloads ++ op.payload) := by
  obtain ⟨c'', effs', pending', e, k'⟩ := k.exec hv
  obtain ⟨rfl, rfl⟩ := Prod.mk.inj (Option.some.inj (h.symm.trans e))
  exact ⟨pending', hp ▸ k'⟩

/-- Whatever comes to a connection in its life adds its payload to the stream, and nothing
else. -/
theorem Carries.run (k : Carries c taken pending payloads) (hfit : op.Fits c)
    (hopen : op.PeerOpen) (h : op.run c = some (c', effs)) :
    ∃ pending', Carries c' (taken ++ effs.flatMap ConnEffect.taken) pending'
      (payloads ++ op.payload) := by
  cases op with
  | established =>
      obtain ⟨_, hs, h⟩ := Option.bind_eq_some_iff.mp h
      have hs := assert_eq_some_iff.mp hs
      obtain ⟨rfl, rfl⟩ := Prod.mk.inj (Option.some.inj h)
      exact k.keep k.input rfl (fun _ => Channel.isWriting_enableReading _)
        (fun _ hd => nomatch hs.symm.trans hd) rfl rfl
  | destroyed =>
      have h : c.stepIntoDestroyed = (c', effs) := Option.some.inj h
      unfold stepIntoDestroyed at h
      split at h
      · obtain ⟨rfl, rfl⟩ := Prod.mk.inj h
        exact k.keep k.input rfl (fun hd => absurd rfl hd) (fun hd => absurd rfl hd) rfl rfl
      · obtain ⟨rfl, rfl⟩ := Prod.mk.inj h
        exact k.keep k.input rfl (fun _ => rfl) id rfl rfl
  | remove =>
      obtain ⟨_, -, h⟩ := Option.bind_eq_some_iff.mp h
      obtain ⟨rfl, rfl⟩ := Prod.mk.inj (Option.some.inj h)
      exact k.keep k.input rfl (fun _ => rfl) id rfl rfl
  | close => exact k.conn .handleClose (isUp_of_handleClose h) h rfl
  | error => exact k.conn .handleError trivial h rfl
  | read extrabuf r =>
      refine k.conn (.handleRead extrabuf r) ?_ h rfl
      cases r with
      | failed errno => exact trivial
      | delivered data =>
          refine ⟨hfit, fun h0 => ?_⟩
          obtain ⟨⟨b, ret⟩, hb, h⟩ := Option.bind_eq_some_iff.mp h
          obtain rfl := readFd_result hb
          dsimp only at h
          rw [if_pos h0] at h
          have hup : IsUp { c with inputBuffer := b } := isUp_of_handleClose h
          exact hup
  | write w => exact k.conn (.handleWrite w) hfit h rfl
  | send buf w => exact k.conn (.sendInLoop buf w) ⟨hfit, hopen⟩ h rfl
  | shutdown => exact k.conn .shutdown trivial h rfl
  | shutdownInLoop => exact k.conn .shutdownInLoop trivial h rfl
  | retrieve n =>
      obtain ⟨b, hb, h⟩ := Option.bind_eq_some_iff.mp h
      obtain ⟨rfl, rfl⟩ := Prod.mk.inj (Option.some.inj h)
      obtain ⟨q, hq⟩ := k.input
      obtain ⟨b', e, hb'⟩ := Buffer.retrieve_spec hq (hfit.trans_eq hq.length.symm)
      obtain rfl := Option.some.inj (hb.symm.trans e)
      exact k.keep ⟨_, hb'⟩ rfl (fun _ => rfl) id rfl rfl
  | writeComplete | highWater size | setHighWater mark =>
      obtain ⟨rfl, rfl⟩ := Prod.mk.inj (Option.some.inj h)
      exact k.keep k.input rfl (fun _ => rfl) id rfl rfl

end TcpConnection

/-- The bytes that the kernel has taken in a run of one connection. -/
def LifeOp.taken (tr : List (TcpConnection × (LifeOp × List ConnEffect))) : List Byte :=
  tr.flatMap fun p => p.2.2.flatMap ConnEffect.taken

/-! ## Which operation a step is -/

/-- What one of the callbacks of `HandleEventsWithGuard` is to its connection. -/
def Handler.op (r : SysResult) : Handler → LifeOp
  | .close => .close
  | .error => .error
  | .read => .read r.extrabuf r.readv
  | .write => .write r.write

def ServerTask.op (r : SysResult) : ServerTask → Option (ℕ × LifeOp)
  | .stepIntoEstablished c => some (c, .established)
  | .stepIntoDestroyed c => some (c, .destroyed)
  | .removeConnectionInLoop _ => none
  | .sendInLoop c buf => some (c, .send buf r.write)
  | .shutdownInLoop c => some (c, .shutdownInLoop)
  | .writeComplete c => some (c, .writeComplete)
  | .highWater c size => some (c, .highWater size)

def ServerFrame.op (r : SysResult) : ServerFrame → Option (ℕ × LifeOp)
  | .call t => t.op r
  | .handlers c (h :: _) => some (c, h.op r)
  | .remove c => some (c, .remove)
  | .handlers _ [] | .runInLoop _ _ | .enqueue _ _ | .callback | .destructor _ => none

namespace TcpServer

variable {s s' : TcpServer} {a : ServerAct} {i c : ℕ} {t : ServerThread} {k : ServerConn}

/-- The operation that a step is, and its connection. -/
def opOf (s : TcpServer) : ServerAct → Option (ℕ × LifeOp)
  | .advance i r => do
      let t ← s.threads[i]?
      let f ← t.stack.head?
      f.op r
  | .shutdown _ c => some (c, .shutdown)
  | .retrieve _ c n => some (c, .retrieve n)
  | .setHighWater _ c mark => some (c, .setHighWater mark)
  | .accept _ _ | .poll _ _ | .dispatch _ | .swap _ | .task _ | .send _ _ _ | .destroy _ => none

/-- The operation of connection `c` that a step is. -/
def opFor (c : ℕ) (s : TcpServer) (a : ServerAct) : Option LifeOp :=
  (s.opOf a).bind fun q => if q.1 = c then some q.2 else none

/-- What a run does to connection `c`. -/
def history (c : ℕ) (tr : List (TcpServer × ServerAct)) : List LifeOp :=
  tr.filterMap fun p => opFor c p.1 p.2

/-- What a step does to the connections, from the operation that it is. -/
inductive Projects (s s' : TcpServer) : Option (ℕ × LifeOp) → Prop
  | same (h : s'.accepted = s.accepted) : Projects s s' none
  | grown (k : ServerConn) (connfd : ℤ) (h : s'.accepted = s.accepted ++ [k])
      (hlog : k.log = [])
      (hnew : TcpConnection.new connfd s.writeCompleteCb false 0 = some k.tcp) :
      Projects s s' none
  | ran {c : ℕ} {k : ServerConn} {r : TcpConnection × List ConnEffect} (op : LifeOp)
      (hk : s.accepted[c]? = some k) (hfit : op.Fits k.tcp) (hrun : op.run k.tcp = some r)
      (h : s'.accepted =
        s.accepted.set c { k with tcp := r.1, log := k.log ++ op.called k.tcp }) :
      Projects s s' (some (c, op))

/-- A function of a connection, as long as no assertion fails. -/
theorem Projects.onConn (op : LifeOp) {u : TcpServer} {after : List ServerFrame}
    {f : ServerConn → Option (TcpConnection × List ConnEffect)}
    (hu : u.accepted = s.accepted) (hk : s.accepted[c]? = some k) (hf : f k = op.run k.tcp)
    (hfit : op.Fits k.tcp) (hok : (u.onConn i c op.noted f after).failed = false) :
    Projects s (u.onConn i c op.noted f after) (some (c, op)) := by
  have hk' : u.accepted[c]? = some k := hu ▸ hk
  cases hrun : op.run k.tcp with
  | none =>
      rw [onConn_none hk' (hf.trans hrun)] at hok
      exact nomatch hok
  | some r =>
      rw [onConn_some hk' (hf.trans hrun)]
      refine .ran op hk hfit hrun ?_
      rw [LifeOp.called_run hrun, ← hu]
      rfl

theorem Projects.call {u : TcpServer} {r : SysResult} {task : ServerTask}
    (hu : u.accepted = s.accepted) (hat : task.At s.loops i) (hans : s.Answered r (.call task))
    (hok : (u.call i r task).failed = false) : Projects s (u.call i r task) (task.op r) := by
  cases task with
  | removeConnectionInLoop c =>
      obtain ⟨rfl, hc⟩ := hat
      obtain ⟨k, hk⟩ := Home.exists_conn_of_lt hc
      rw [TcpServer.call, removeConnectionInLoop_eq (hu ▸ hk : u.accepted[c]? = some k)]
      exact .same hu
  | stepIntoEstablished c =>
      obtain ⟨k, hk, hl⟩ := Home.exists_conn hat
      exact .onConn .established hu hk (Effect.inLoop_eq hl) trivial hok
  | stepIntoDestroyed c =>
      obtain ⟨k, hk, hl⟩ := Home.exists_conn hat
      exact .onConn .destroyed hu hk (Effect.inLoop_eq hl) trivial hok
  | sendInLoop c buf =>
      obtain ⟨k, hk, hl⟩ := Home.exists_conn hat
      exact .onConn (.send buf r.write) hu hk (Effect.inLoop_eq hl) hans hok
  | shutdownInLoop c =>
      obtain ⟨k, hk, hl⟩ := Home.exists_conn hat
      exact .onConn .shutdownInLoop hu hk (Effect.inLoop_eq hl) trivial hok
  | writeComplete c =>
      obtain ⟨k, hk, -⟩ := Home.exists_conn hat
      exact .onConn .writeComplete hu hk rfl trivial hok
  | highWater c size =>
      obtain ⟨k, hk, -⟩ := Home.exists_conn hat
      exact .onConn (.highWater size) hu hk rfl trivial hok

theorem Projects.handle {u : TcpServer} {r : SysResult} {h : Handler} {hs : List Handler}
    (hu : u.accepted = s.accepted) (hat : s.loops[c]? = some i)
    (hans : s.Answered r (.handlers c (h :: hs))) (hok : (u.handle i c r h).failed = false) :
    Projects s (u.handle i c r h) (some (c, h.op r)) := by
  obtain ⟨k, hk, hl⟩ := Home.exists_conn hat
  cases h with
  | close => exact .onConn .close hu hk (Effect.inLoop_eq hl) trivial hok
  | error => exact .onConn .error hu hk (Effect.inLoop_eq hl) trivial hok
  | read => exact .onConn (.read r.extrabuf r.readv) hu hk (Effect.inLoop_eq hl) (hans k hk) hok
  | write => exact .onConn (.write r.write) hu hk (Effect.inLoop_eq hl) (hans k hk) hok

theorem projects_of_steps (hh : s.Home) (hst : Steps s a s') (hok : s'.failed = false) :
    Projects s s' (s.opOf a) := by
  cases hst with
  | accept connfd ipPort ht hp =>
      obtain ⟨l, idx, hnext, -⟩ := getNextLoop_spec hh.index
      obtain ⟨tcp, hnew, -⟩ := TcpConnection.sound_new connfd s.writeCompleteCb false 0
      simp only [handleNewConnection, hnext, hnew, Option.bind_eq_bind, Option.bind_some, check,
        Option.getD_some]
      exact .grown _ connfd rfl rfl hnew
  | poll | dispatch | swap | task | send | refused | destroy => exact .same rfl
  | shutdown i c ht hk => exact .onConn .shutdown rfl hk rfl trivial hok
  | retrieve i c n ht hk hn => exact .onConn (.retrieve n) rfl hk rfl hn hok
  | setHighWater i c mark ht hk => exact .onConn (.setHighWater mark) rfl hk rfl trivial hok
  | @advance t i r f stack ht hstack hans =>
      have hat := (hh.at_ i t ht).stack f (hstack ▸ List.mem_cons_self)
      have hop : s.opOf (.advance i r) = f.op r := by
        simp only [opOf, ht, hstack, List.head?_cons, Option.bind_eq_bind, Option.bind_some]
      rw [hop]
      cases f with
      | call task => exact .call (u := s.pop i) rfl hat hans hok
      | runInLoop l task =>
          show Projects s (if i = l then _ else _) none
          split
          · exact .same rfl
          · exact .same rfl
      | enqueue l task => exact .same rfl
      | handlers c hs =>
          cases hs with
          | nil => exact .same rfl
          | cons h hs => exact .handle (u := (s.pop i).push i [.handlers c hs]) rfl hat hans hok
      | remove c =>
          obtain ⟨k, hk, -⟩ := Home.exists_conn hat
          exact .onConn .remove (u := s.pop i) rfl hk rfl trivial hok
      | callback => exact .same rfl
      | destructor rest =>
          cases rest with
          | nil => exact .same rfl
          | cons c rest =>
              obtain ⟨k, hk⟩ := Home.exists_conn_of_lt (hat.2 c List.mem_cons_self)
              rw [destructor_eq (s := s.pop i) hk]
              exact .same rfl

/-! ## Runs -/

theorem history_snoc {c : ℕ} {tr : List (TcpServer × ServerAct)} (h : opFor c s a = none) :
    history c (tr ++ [(s, a)]) = history c tr := by
  simp only [history, List.filterMap_append, List.filterMap_cons, h, List.filterMap_nil,
    List.append_nil]

theorem history_snoc_some {c : ℕ} {op : LifeOp} {tr : List (TcpServer × ServerAct)}
    (h : opFor c s a = some op) : history c (tr ++ [(s, a)]) = history c tr ++ [op] := by
  simp only [history, List.filterMap_append, List.filterMap_cons, h, List.filterMap_nil]

/-- Connection `c` has been constructed, and its history has led it to where it is and has made
the callbacks of its log. -/
def Followed (wc : Bool) (tr : List (TcpServer × ServerAct)) (c : ℕ) (k : ServerConn) : Prop :=
  ∃ connfd tcp tr', TcpConnection.new connfd wc false 0 = some tcp ∧
    Run (stepOut LifeOp.run) tcp tr' k.tcp ∧ tr'.map (fun p => p.2.1) = history c tr ∧
      k.log = tr'.flatMap (fun p => p.2.1.called p.1) ∧ ∀ p ∈ tr', p.2.1.Fits p.1

/-- Every connection has been followed since it was accepted. -/
structure Projected (wc : Bool) (tr : List (TcpServer × ServerAct)) (s : TcpServer) : Prop where
  cb : s.writeCompleteCb = wc
  unborn : ∀ c, s.accepted.length ≤ c → history c tr = []
  born : ∀ (c : ℕ) (k : ServerConn), s.accepted[c]? = some k → Followed wc tr c k

theorem writeCompleteCb_step (hh : s.Home) (hst : Steps s a s') :
    s'.writeCompleteCb = s.writeCompleteCb := by
  cases Effect.of_steps hh hst with
  | moved | ran | failed | loaded | erased | accepted | polled | destroyed | torn | gone => rfl

theorem Projected.step {wc : Bool} {tr : List (TcpServer × ServerAct)} (h : Projected wc tr s)
    (hh : s.Home) (hst : Steps s a s') (hok : s'.failed = false) :
    Projected wc (tr ++ [(s, a)]) s' := by
  have hcb := (writeCompleteCb_step hh hst).trans h.cb
  have hp := projects_of_steps hh hst hok
  generalize ho : s.opOf a = o at hp
  have hnone : o = none → ∀ c, opFor c s a = none := by
    rintro rfl c
    rw [opFor, ho]
    rfl
  have hkeep : ∀ {c k}, opFor c s a = none → Followed wc tr c k →
      Followed wc (tr ++ [(s, a)]) c k := by
    rintro c k hc ⟨connfd, tcp, tr', hnew, hr, hops, hlog, hfit⟩
    exact ⟨connfd, tcp, tr', hnew, hr, hops.trans (history_snoc hc).symm, hlog, hfit⟩
  cases hp with
  | same he =>
      refine ⟨hcb, fun c hc => ?_, fun c k hk => ?_⟩
      · rw [history_snoc (hnone rfl c)]
        exact h.unborn c (he ▸ hc)
      · exact hkeep (hnone rfl c) (h.born c k (he ▸ hk))
  | grown k connfd he hlog hnew =>
      refine ⟨hcb, fun c hc => ?_, fun c u hu => ?_⟩
      · rw [he, List.length_append] at hc
        rw [history_snoc (hnone rfl c)]
        exact h.unborn c (by omega)
      · rw [he] at hu
        rcases getElem?_concat_cases hu with ⟨rfl, rfl⟩ | ⟨-, hu⟩
        · refine ⟨connfd, u.tcp, [], h.cb ▸ hnew, .nil, ?_, hlog, nofun⟩
          rw [history_snoc (hnone rfl _)]
          exact (h.unborn _ (Nat.le_refl _)).symm
        · exact hkeep (hnone rfl c) (h.born c u hu)
  | @ran c k r op hk hfit hrun he =>
      have hother : ∀ c', c' ≠ c → opFor c' s a = none := by
        intro c' hc
        rw [opFor, ho]
        exact if_neg hc.symm
      refine ⟨hcb, fun c' hc => ?_, fun c' u hu => ?_⟩
      · rw [he, List.length_set] at hc
        have hne : c' ≠ c := by
          rintro rfl
          exact absurd hk (by rw [List.getElem?_eq_none hc]; nofun)
        rw [history_snoc (hother c' hne)]
        exact h.unborn c' hc
      · rw [he] at hu
        rcases getElem?_set_cases hk hu with ⟨rfl, rfl⟩ | ⟨hc, hu⟩
        · obtain ⟨connfd, tcp, tr', hnew, hr, hops, hlog, hfits⟩ := h.born c' k hk
          have hop : opFor c' s a = some op := by
            rw [opFor, ho]
            exact if_pos rfl
          refine ⟨connfd, tcp, tr' ++ [(k.tcp, (op, r.2))], hnew, hr.snoc hrun, ?_, ?_, ?_⟩
          · rw [List.map_append, hops, history_snoc_some hop]
            rfl
          · rw [List.flatMap_append, ← hlog, List.flatMap_singleton]
          · intro p hp
            rcases List.mem_append.mp hp with hp | hp
            · exact hfits p hp
            · obtain rfl := List.mem_singleton.mp hp
              exact hfit
        · exact hkeep (hother c' hc) (h.born c' u hu)

theorem projected_of_run {name : List Char} {wc : Bool} {poolSize users : ℕ}
    {tr : List (TcpServer × ServerAct)}
    (hr : Run (stepOf step) (init name wc poolSize users) tr s)
    (hok : ∀ p ∈ tr, Within p.1 p.2) : Projected wc tr s := by
  refine (hr.invariant_trace (I := fun tr s => (s.Home ∧ s.Serves ∧ s.Listed) ∧ Projected wc tr s)
    hok ⟨⟨home_init name wc poolSize users, serves_init name wc poolSize users,
      listed_init name wc poolSize users⟩, rfl, fun _ _ => rfl, nofun⟩ ?_).2
  rintro tr t a u ⟨⟨hh, hs, hl⟩, hp⟩ hg hst
  have hst := steps_of_step hst
  have e := Effect.of_steps hh hst
  have hno : ∀ order, a ≠ .destroy order := fun order he => (he ▸ hg : t.Within (.destroy order))
  have hl' := hl.effect hs hh e hg
  exact ⟨⟨hh.step hst, hs.effect hh e hno, hl'⟩, hp.step hh hst hl'.failed⟩

/-- A server refines the machine of one connection: in every run each connection is where its
own history alone leads to, with the callbacks of its log, and no operation in it fails,
whatever the other threads and connections have done in between. -/
theorem refines_connection {name : List Char} {wc : Bool} {poolSize users : ℕ}
    {tr : List (TcpServer × ServerAct)}
    (hr : Run (stepOf step) (init name wc poolSize users) tr s) (hok : ∀ p ∈ tr, Within p.1 p.2)
    (hk : s.accepted[c]? = some k) : Followed wc tr c k :=
  (projected_of_run hr hok).born c k hk

theorem hangUp_followed : ∃ tr s k, runAll step (init ['s'] true 1 1) hangUp = some (tr, s) ∧
    s.accepted[0]? = some k ∧ k.log = [.up, .close, .down, .removed] ∧ Followed true tr 0 k := by
  obtain ⟨tr, s, hrun, hok, hlog⟩ : ∃ tr s,
      runAll step (init ['s'] true 1 1) hangUp = some (tr, s) ∧ (∀ p ∈ tr, Within p.1 p.2) ∧
        (s.accepted[0]?).map ServerConn.log = some [.up, .close, .down, .removed] :=
    exists_computed (by decide +kernel)
  obtain ⟨k, hk, hlog⟩ := Option.map_eq_some_iff.mp hlog
  exact ⟨tr, s, k, hrun, hk, hlog, refines_connection (run_of_runAll hrun) hok hk⟩

/-- What a run of one connection sends. -/
theorem carries_of_lifeRun {tcp tcp' : TcpConnection}
    {tr : List (TcpConnection × (LifeOp × List ConnEffect))} (h₀ : tcp.Carries [] [] [])
    (hr : Run (stepOut LifeOp.run) tcp tr tcp')
    (hok : ∀ p ∈ tr, p.2.1.Fits p.1 ∧ p.2.1.PeerOpen) :
    ∃ pending, tcp'.Carries (LifeOp.taken tr) pending (tr.flatMap fun p => p.2.1.payload) := by
  refine hr.invariant_trace (I := fun tr tcp => ∃ pending, tcp.Carries (LifeOp.taken tr) pending
    (tr.flatMap fun p => p.2.1.payload)) (G := fun tcp a => a.1.Fits tcp ∧ a.1.PeerOpen) hok
    ⟨[], h₀⟩ ?_
  rintro tr t ⟨op, effs⟩ u ⟨pending, k⟩ ⟨hfit, hopen⟩ hst
  obtain ⟨pending', k'⟩ := k.run hfit hopen hst
  exact ⟨pending', by simpa [LifeOp.taken] using k'⟩

/-- The stream of a connection of a server: as long as no direct write has found the connection
closed by the peer, what its kernel has taken and what its output buffer holds are together
the payloads that `SendInLoop` was called with, in the order of the calls. -/
theorem stream_of_history {name : List Char} {wc : Bool} {poolSize users : ℕ}
    {tr : List (TcpServer × ServerAct)}
    (hr : Run (stepOf step) (init name wc poolSize users) tr s) (hok : ∀ p ∈ tr, Within p.1 p.2)
    (hk : s.accepted[c]? = some k) (hopen : ∀ op ∈ history c tr, op.PeerOpen)
    (hs : k.tcp.state ≠ .disconnected) :
    ∃ connfd tcp tr', TcpConnection.new connfd wc false 0 = some tcp ∧
      Run (stepOut LifeOp.run) tcp tr' k.tcp ∧ tr'.map (fun p => p.2.1) = history c tr ∧
        LifeOp.taken tr' ++ k.tcp.outputBuffer.content =
          (history c tr).flatMap LifeOp.payload := by
  obtain ⟨connfd, tcp, tr', hnew, hr', hops, -, hfits⟩ := (projected_of_run hr hok).born c k hk
  obtain ⟨pending, hc⟩ := carries_of_lifeRun (TcpConnection.carries_new hnew) hr' fun p hp =>
    ⟨hfits p hp, hopen _ (hops ▸ List.mem_map_of_mem hp)⟩
  refine ⟨connfd, tcp, tr', hnew, hr', hops, ?_⟩
  rw [hc.output.content_eq, hc.stream hs, ← hops, List.flatMap_map]

end TcpServer

end Muduo
