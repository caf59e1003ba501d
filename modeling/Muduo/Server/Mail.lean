/-
# `Muduo.Server.Mail` — Send, from any thread

`Send` may be called in any thread.  In the loop of the connection it goes straight to
`SendInLoop`; from another thread the payload is copied and queued in the loop.  To the
library this is a mailbox with many senders and one reader (`Lib.Mailbox`):

    outgoing i     EnqueueEventLoop(SendInLoop), in the stack of thread i
    queue          SendInLoop, in the batch and in the queue of the loop
    running        SendInLoop, in the stack of the loop

At most the function that a thread is in has a payload in its hands (`Neat`), and a
step of the server is one step of the mailbox of each connection (`box_step`).
-/
import Muduo.Lib.Mailbox
import Muduo.Server.Project
import Muduo.Server.Release

namespace Muduo

open Function Mailbox Runs

/-! ## What a thread holds of the payloads -/

/-- The payload that a callback brings, and its connection. -/
def ServerTask.payload : ServerTask → Option (ℕ × List Byte)
  | .sendInLoop c buf => some (c, buf)
  | .stepIntoEstablished _ | .stepIntoDestroyed _ | .removeConnectionInLoop _ | .shutdownInLoop _
  | .writeComplete _ | .highWater _ _ => none

/-- The payload that it brings to connection `c`. -/
def ServerTask.sends (c : ℕ) (t : ServerTask) : List (List Byte) :=
  match t.payload with
  | some (c', buf) => if c' = c then [buf] else []
  | none => []

theorem ServerTask.exists_of_sends {c : ℕ} {t : ServerTask} (h : t.sends c ≠ []) :
    ∃ buf, t = .sendInLoop c buf := by
  cases t with
  | sendInLoop c' buf =>
      by_cases hc : c' = c
      · exact ⟨buf, hc ▸ rfl⟩
      · exact absurd (if_neg hc) h
  | stepIntoEstablished | stepIntoDestroyed | removeConnectionInLoop | shutdownInLoop
  | writeComplete | highWater => exact absurd rfl h

theorem ServerTask.sends_self (c : ℕ) (buf : List Byte) :
    (ServerTask.sendInLoop c buf).sends c = [buf] := if_pos rfl

/-- The payload of an operation. -/
def LifeOp.sent : LifeOp → Option (List Byte)
  | .send buf _ => some buf
  | _ => none

namespace ServerFrame

def payload : ServerFrame → Option (ℕ × List Byte)
  | .call t | .runInLoop _ t | .enqueue _ t => t.payload
  | .handlers _ _ | .remove _ | .callback | .destructor _ => none

/-- A payload that `SendInLoop` is called with. -/
def runs (c : ℕ) : ServerFrame → List (List Byte)
  | .call t => t.sends c
  | .runInLoop _ _ | .enqueue _ _ | .handlers _ _ | .remove _ | .callback | .destructor _ => []

/-- A payload that is on its way into a queue. -/
def posts (c : ℕ) : ServerFrame → List (List Byte)
  | .enqueue _ t => t.sends c
  | .call _ | .runInLoop _ _ | .handlers _ _ | .remove _ | .callback | .destructor _ => []

/-- The frame has nothing to do with payloads. -/
def Silent (f : ServerFrame) : Prop := f.payload = none

theorem Silent.runs {f : ServerFrame} (h : f.Silent) (c : ℕ) : f.runs c = [] := by
  cases f with
  | call t =>
      have hp : t.payload = none := h
      rw [ServerFrame.runs, ServerTask.sends, hp]
  | runInLoop | enqueue | handlers | remove | callback | destructor => rfl

/-- Nor has the operation that it is. -/
theorem Silent.op {f : ServerFrame} (h : f.Silent) {r : SysResult} {c : ℕ} {op : LifeOp}
    (ho : f.op r = some (c, op)) : op.sent = none := by
  cases f with
  | call t =>
      cases t with
      | sendInLoop => exact nomatch h
      | removeConnectionInLoop => exact nomatch ho
      | stepIntoEstablished | stepIntoDestroyed | shutdownInLoop | writeComplete | highWater =>
          obtain ⟨-, rfl⟩ := Prod.mk.inj (Option.some.inj ho)
          rfl
  | handlers c' hs =>
      cases hs with
      | nil => exact nomatch ho
      | cons hd hs =>
          obtain ⟨-, rfl⟩ := Prod.mk.inj (Option.some.inj ho)
          cases hd with
          | close | error | read | write => rfl
  | remove c' =>
      obtain ⟨-, rfl⟩ := Prod.mk.inj (Option.some.inj ho)
      rfl
  | runInLoop | enqueue | callback | destructor => exact nomatch ho

theorem Silent.posts {f : ServerFrame} (h : f.Silent) (c : ℕ) : f.posts c = [] := by
  cases f with
  | enqueue l t =>
      have hp : t.payload = none := h
      rw [ServerFrame.posts, ServerTask.sends, hp]
  | runInLoop | call | handlers | remove | callback | destructor => rfl

end ServerFrame

namespace ServerThread

/-- What `SendInLoop` is called with, what is on its way, and what is queued. -/
structure Mail where
  running : List (List Byte)
  outgoing : List (List Byte)
  queue : List (List Byte)

def mail (c : ℕ) (t : ServerThread) : Mail where
  running := t.stack.flatMap (ServerFrame.runs c)
  outgoing := t.stack.flatMap (ServerFrame.posts c)
  queue := (t.batch ++ t.queue).flatMap (ServerTask.sends c)

/-- Only the function that the thread is in may have to do with payloads, and payloads are not
handed to `RunInEventLoop`. -/
structure Neat (t : ServerThread) : Prop where
  tail : ∀ f ∈ t.stack.tail, f.Silent
  direct : ∀ l task, .runInLoop l task ∈ t.stack → task.payload = none

theorem runs_of_silent {fs : List ServerFrame} (h : ∀ f ∈ fs, f.Silent) (c : ℕ) :
    fs.flatMap (ServerFrame.runs c) = [] :=
  List.flatMap_eq_nil_iff.mpr fun f hf => (h f hf).runs c

theorem posts_of_silent {fs : List ServerFrame} (h : ∀ f ∈ fs, f.Silent) (c : ℕ) :
    fs.flatMap (ServerFrame.posts c) = [] :=
  List.flatMap_eq_nil_iff.mpr fun f hf => (h f hf).posts c

theorem neat_of_silent {t : ServerThread} (h : ∀ f ∈ t.stack, f.Silent) : t.Neat where
  tail := fun f hf => h f (List.mem_of_mem_tail hf)
  direct := fun _ _ hmem => h _ hmem

theorem Neat.rest {t : ServerThread} {f : ServerFrame} {stack : List ServerFrame} (h : t.Neat)
    (hstack : t.stack = f :: stack) : ∀ f ∈ stack, f.Silent := by
  have htail := h.tail
  rwa [hstack] at htail

/-- In the user's code no payload is under way. -/
theorem Neat.silent_of_inUser {t : ServerThread} (h : t.Neat) (hu : t.InUser) :
    ∀ f ∈ t.stack, f.Silent := by
  rcases hu with hnil | hhead
  · rw [hnil]
    exact nofun
  · obtain ⟨stack, hstack⟩ := List.head?_eq_some_iff.mp hhead
    have htail := h.tail
    rw [hstack] at htail ⊢
    intro f hf
    rcases List.mem_cons.mp hf with rfl | hf
    · exact rfl
    · exact htail f hf

end ServerThread

theorem silent_singleton {f : ServerFrame} (h : f.Silent) : ∀ g ∈ [f], g.Silent :=
  fun _ hg => List.mem_singleton.mp hg ▸ h

/-- What an effect leaves its thread with has nothing to do with payloads. -/
theorem silent_frames (loop c : ℕ) (effs : List ConnEffect) :
    ∀ f ∈ effs.flatMap (ConnEffect.frames loop c), f.Silent := by
  intro f hf
  obtain ⟨e, -, hf⟩ := List.mem_flatMap.mp hf
  cases e with
  | queueWriteComplete | queueHighWater | runShutdownInLoop | onCloseCb | connectionCb
  | onMessageCb =>
      obtain rfl := List.mem_singleton.mp hf
      exact rfl
  | write | shutdownWrite | logError => exact nomatch hf

namespace TcpServer

variable {s s' u : TcpServer} {a : ServerAct} {i c l : ℕ} {t : ServerThread} {k : ServerConn}

/-! ## The mailbox of a connection -/

/-- The mailbox of connection `c`, whose loop is `l`. -/
def box (s : TcpServer) (l c : ℕ) : Box ℕ (List Byte) where
  outgoing := fun i => ((s.threads[i]?).map fun t => (t.mail c).outgoing).getD []
  queue := ((s.threads[l]?).map fun t => (t.mail c).queue).getD []
  running := ((s.threads[l]?).map fun t => (t.mail c).running).getD []

/-- All threads are in order. -/
def Neat (s : TcpServer) : Prop :=
  ∀ (i : ℕ) (t : ServerThread), s.threads[i]? = some t → t.Neat

theorem box_congr (h : s'.threads = s.threads) (l c : ℕ) : s'.box l c = s.box l c := by
  unfold box
  rw [h]

/-- The mailbox after thread `i` has changed. -/
theorem box_onThread (ht : s.threads[i]? = some t) (f : ServerThread → ServerThread) (l c : ℕ) :
    (s.onThread i f).box l c =
      { outgoing := update (s.box l c).outgoing i ((f t).mail c).outgoing
        queue := if i = l then ((f t).mail c).queue else (s.box l c).queue
        running := if i = l then ((f t).mail c).running else (s.box l c).running } := by
  have hself : (s.onThread i f).threads[i]? = some (f t) := getElem?_onThread ht f
  have hne : ∀ j, i ≠ j → (s.onThread i f).threads[j]? = s.threads[j]? :=
    fun j hj => List.getElem?_modify_ne _ _ hj
  unfold box
  congr 1
  · funext j
    by_cases hj : i = j
    · subst hj
      rw [hself, update_self]
      rfl
    · rw [hne j hj, update_of_ne (Ne.symm hj)]
  · split
    · next hl =>
        subst hl
        rw [hself]
        rfl
    · next hl => rw [hne l hl]
  · split
    · next hl =>
        subst hl
        rw [hself]
        rfl
    · next hl => rw [hne l hl]

/-- A change to a thread that leaves its payloads alone. -/
theorem box_same (ht : s.threads[i]? = some t) {f : ServerThread → ServerThread}
    (hf : (f t).mail c = t.mail c) (l : ℕ) : (s.onThread i f).box l c = s.box l c := by
  have hout : (s.box l c).outgoing i = (t.mail c).outgoing := by
    show ((s.threads[i]?).map fun t => (t.mail c).outgoing).getD [] = _
    rw [ht]
    rfl
  rw [box_onThread ht, hf, ← hout, update_eq_self]
  by_cases hl : i = l
  · subst hl
    rw [if_pos rfl, if_pos rfl]
    unfold box
    rw [ht]
    rfl
  · rw [if_neg hl, if_neg hl]

theorem Neat.onThread (h : s.Neat) (ht : s.threads[i]? = some t)
    {f : ServerThread → ServerThread} (hf : (f t).Neat) : (s.onThread i f).Neat := by
  intro j t' ht'
  rcases onThread_cases ht ht' with ⟨-, rfl⟩ | ht'
  · exact hf
  · exact h j t' ht'

/-- Thread `i` has been given functions that have nothing to do with payloads. -/
def Pushes (s : TcpServer) (i : ℕ) (s' : TcpServer) : Prop :=
  ∃ fs : List ServerFrame, (∀ f ∈ fs, f.Silent) ∧ s'.threads = (s.push i fs).threads

namespace Pushes

theorem same (h : s'.threads = s.threads) : s.Pushes i s' := by
  refine ⟨[], List.forall_mem_nil _, h.trans ?_⟩
  show s.threads = s.threads.modify i fun t => t
  exact (List.modify_id i s.threads).symm

theorem onConn {ev : List ConnEvent} {after : List ServerFrame}
    {f : ServerConn → Option (TcpConnection × List ConnEffect)} (ha : ∀ f ∈ after, f.Silent) :
    s.Pushes i (s.onConn i c ev f after) := by
  cases hk : s.accepted[c]? with
  | none =>
      rw [TcpServer.onConn, hk]
      exact same rfl
  | some k =>
      cases hr : f k with
      | none =>
          rw [onConn_none hk hr]
          exact same rfl
      | some r =>
          rw [onConn_some hk hr]
          refine ⟨_, fun f hf => ?_, rfl⟩
          exact (List.mem_append.mp hf).elim (silent_frames _ _ _ f) (ha f)

theorem call {r : SysResult} {task : ServerTask} (hat : task.At s.loops i) :
    s.Pushes i (s.call i r task) := by
  cases task with
  | removeConnectionInLoop c =>
      obtain ⟨rfl, hc⟩ := hat
      obtain ⟨k, hk⟩ := Home.exists_conn_of_lt hc
      rw [TcpServer.call, removeConnectionInLoop_eq hk]
      exact ⟨[.runInLoop k.loop (.stepIntoDestroyed c)], silent_singleton rfl, rfl⟩
  | stepIntoEstablished | sendInLoop | shutdownInLoop => exact onConn (List.forall_mem_nil _)
  | stepIntoDestroyed | writeComplete | highWater =>
      exact onConn (silent_singleton rfl)

theorem handle {r : SysResult} {h : Handler} : s.Pushes i (s.handle i c r h) := by
  cases h with
  | close | error | read | write => exact onConn (List.forall_mem_nil _)

end Pushes

/-- A function that has nothing to do with payloads, or calls `SendInLoop`, has come back. -/
theorem box_popped {f : ServerFrame} {stack : List ServerFrame} (ht : s.threads[i]? = some t)
    (hn : t.Neat) (hstack : t.stack = f :: stack) (hp : (s.pop i).Pushes i s') (l c : ℕ) :
    s'.box l c =
      { outgoing := update (s.box l c).outgoing i []
        queue := (s.box l c).queue
        running := if i = l then [] else (s.box l c).running } := by
  obtain ⟨fs, hfs, he⟩ := hp
  have htail := hn.tail
  rw [hstack] at htail
  have hthreads : s'.threads =
      (s.onThread i fun t => { t with stack := fs ++ t.stack.tail }).threads :=
    he.trans (List.modify_modify_eq ..)
  have hqueue : i = l → (s.box l c).queue = (t.mail c).queue := by
    rintro rfl
    unfold box
    rw [ht]
    rfl
  have hruns : (fs ++ t.stack.tail).flatMap (ServerFrame.runs c) = [] := by
    rw [hstack]
    exact ServerThread.runs_of_silent
      (fun g hg => (List.mem_append.mp hg).elim (hfs g) (htail g)) c
  have hposts : (fs ++ t.stack.tail).flatMap (ServerFrame.posts c) = [] := by
    rw [hstack]
    exact ServerThread.posts_of_silent
      (fun g hg => (List.mem_append.mp hg).elim (hfs g) (htail g)) c
  rw [box_congr hthreads, box_onThread ht]
  have hmail : ({ t with stack := fs ++ t.stack.tail } : ServerThread).mail c =
      ⟨[], [], (t.mail c).queue⟩ := by
    rw [ServerThread.mail, hruns, hposts]
    rfl
  rw [hmail]
  congr 1
  split
  · next hl => exact (hqueue hl).symm
  · rfl

/-! ## A step of the server is a step of the mailbox -/

/-- The payload of a `Send` that finds connection `c` connected, and its thread. -/
def sendOf (c : ℕ) (s : TcpServer) : ServerAct → Option (ℕ × List Byte)
  | .send i c' buf =>
      if c' = c ∧ (s.accepted[c']?).any (fun k => k.tcp.state = .connected) then some (i, buf)
      else none
  | _ => none

/-- What a step is to the mailbox of connection `c`. -/
def label (c : ℕ) (s : TcpServer) (a : ServerAct) : Label ℕ (List Byte) :=
  match sendOf c s a, (opFor c s a).bind LifeOp.sent with
  | some (i, buf), _ => .send i buf
  | none, some buf => .read buf
  | none, none => .silent

theorem label_of_none (hs : sendOf c s a = none) (ho : (opFor c s a).bind LifeOp.sent = none) :
    label c s a = .silent := by
  rw [label, hs, ho]

theorem opFor_advance {f : ServerFrame} {stack : List ServerFrame} {r : SysResult}
    (ht : s.threads[i]? = some t) (hstack : t.stack = f :: stack) :
    opFor c s (.advance i r) = (f.op r).bind fun q => if q.1 = c then some q.2 else none := by
  simp only [opFor, opOf, ht, hstack, List.head?_cons, Option.bind_eq_bind, Option.bind_some]

theorem label_advance_silent {f : ServerFrame} {stack : List ServerFrame} {r : SysResult}
    (ht : s.threads[i]? = some t) (hstack : t.stack = f :: stack) (hf : f.Silent) :
    label c s (.advance i r) = .silent := by
  refine label_of_none rfl ?_
  rw [opFor_advance ht hstack]
  cases ho : f.op r with
  | none => rfl
  | some q =>
      obtain ⟨c', op⟩ := q
      have hsent := hf.op ho
      by_cases hc : c' = c
      · simp only [Option.bind_some, if_pos hc, hsent]
      · simp only [Option.bind_some, if_neg hc, Option.bind_none]

/-- New functions that have nothing to do with payloads. -/
theorem box_pushed (ht : s.threads[i]? = some t) (hp : s.Pushes i s') (l c : ℕ) :
    s'.box l c = s.box l c := by
  obtain ⟨fs, hfs, he⟩ := hp
  rw [box_congr he]
  refine box_same ht ?_ l
  rw [ServerThread.mail, List.flatMap_append, List.flatMap_append,
    ServerThread.runs_of_silent hfs, ServerThread.posts_of_silent hfs]
  rfl

theorem neat_pushed (hn : s.Neat) (ht : s.threads[i]? = some t) (hs : ∀ f ∈ t.stack, f.Silent)
    (hp : s.Pushes i s') : s'.Neat := by
  obtain ⟨fs, hfs, he⟩ := hp
  intro j t' ht'
  rw [he] at ht'
  rcases onThread_cases ht ht' with ⟨-, rfl⟩ | ht'
  · refine ServerThread.neat_of_silent fun f hf => ?_
    exact (List.mem_append.mp hf).elim (hfs f) (hs f)
  · exact hn j t' ht'

theorem box_enqueue (ht : s.threads[i]? = some t) (task : ServerTask) (l c : ℕ) :
    (s.enqueue i task).box l c =
      { s.box l c with
        queue := if i = l then (s.box l c).queue ++ task.sends c else (s.box l c).queue } := by
  have hout : (s.box l c).outgoing i = (t.mail c).outgoing := by
    show ((s.threads[i]?).map fun t => (t.mail c).outgoing).getD [] = _
    rw [ht]
    rfl
  have hmail : ({ t with queue := t.queue ++ [task] } : ServerThread).mail c =
      { t.mail c with queue := (t.mail c).queue ++ task.sends c } := by
    unfold ServerThread.mail
    congr 1
    rw [← List.append_assoc, List.flatMap_append, List.flatMap_singleton]
  show (s.onThread i _).box l c = _
  rw [box_onThread ht, hmail, ← hout, update_eq_self]
  by_cases hl : i = l
  · subst hl
    simp only [if_pos]
    unfold box
    rw [ht]
    rfl
  · simp only [if_neg hl]

/-- What the function that a thread is in has to do with the mailbox. -/
theorem box_head {f : ServerFrame} {stack : List ServerFrame} (ht : s.threads[i]? = some t)
    (hn : t.Neat) (hstack : t.stack = f :: stack) (l c : ℕ) :
    (s.box l c).outgoing i = f.posts c ∧ (i = l → (s.box l c).running = f.runs c) := by
  have htail := hn.rest hstack
  constructor
  · show ((s.threads[i]?).map fun t => (t.mail c).outgoing).getD [] = _
    rw [ht]
    show t.stack.flatMap (ServerFrame.posts c) = _
    rw [hstack, List.flatMap_cons, ServerThread.posts_of_silent htail, List.append_nil]
  · rintro rfl
    show ((s.threads[i]?).map fun t => (t.mail c).running).getD [] = _
    rw [ht]
    show t.stack.flatMap (ServerFrame.runs c) = _
    rw [hstack, List.flatMap_cons, ServerThread.runs_of_silent htail, List.append_nil]

/-- One that has nothing to do with it. -/
theorem box_popped_same {f : ServerFrame} {stack : List ServerFrame} (ht : s.threads[i]? = some t)
    (hn : t.Neat) (hstack : t.stack = f :: stack) (hp : (s.pop i).Pushes i s') {l c : ℕ}
    (hruns : f.runs c = []) (hposts : f.posts c = []) : s'.box l c = s.box l c := by
  obtain ⟨hout, hrun⟩ := box_head ht hn hstack l c
  have hsame : update (s.box l c).outgoing i [] = (s.box l c).outgoing :=
    (congrArg _ (hout.trans hposts).symm).trans (update_eq_self i _)
  rw [box_popped ht hn hstack hp, hsame]
  by_cases hl : i = l
  · rw [if_pos hl, ← hruns, ← hrun hl]
  · rw [if_neg hl]

theorem send_inv {buf : List Byte} (h : s.step (.send i c buf) = some s') :
    ∃ t k, s.threads[i]? = some t ∧ t.InUser ∧ s.accepted[c]? = some k ∧
      (k.tcp.state = .connected ∧ s' = s.push i [if i = k.loop then .call (.sendInLoop c buf)
          else .enqueue k.loop (.sendInLoop c buf)] ∨
        k.tcp.state ≠ .connected ∧ s' = s) := by
  obtain ⟨t, ht, h⟩ := Option.bind_eq_some_iff.mp h
  obtain ⟨hu, h⟩ := guard_bind_eq_some_iff.mp h
  obtain ⟨k, hk, h⟩ := Option.bind_eq_some_iff.mp h
  refine ⟨t, k, ht, hu, hk, ?_⟩
  split at h
  · next hs => exact .inl ⟨hs, (Option.some.inj h).symm⟩
  · next hs => exact .inr ⟨hs, (Option.some.inj h).symm⟩

/-- The functions of a connection that a user may call in a callback and outside of all. -/
theorem pushes_of_user (h : s.step a = some s')
    (ha : (∃ i c, a = .shutdown i c) ∨ (∃ i c n, a = .retrieve i c n) ∨
      ∃ i c mark, a = .setHighWater i c mark) :
    ∃ i t, s.threads[i]? = some t ∧ t.InUser ∧ s.Pushes i s' := by
  rcases ha with ⟨i, c, rfl⟩ | ⟨i, c, n, rfl⟩ | ⟨i, c, mark, rfl⟩
  · obtain ⟨t, ht, h⟩ := Option.bind_eq_some_iff.mp h
    obtain ⟨⟨hu, -⟩, h⟩ := guard_bind_eq_some_iff.mp h
    exact ⟨i, t, ht, hu, Option.some.inj h ▸ .onConn (List.forall_mem_nil _)⟩
  · obtain ⟨t, ht, h⟩ := Option.bind_eq_some_iff.mp h
    obtain ⟨k, -, h⟩ := Option.bind_eq_some_iff.mp h
    obtain ⟨⟨hu, -⟩, h⟩ := guard_bind_eq_some_iff.mp h
    exact ⟨i, t, ht, hu, Option.some.inj h ▸ .onConn (List.forall_mem_nil _)⟩
  · obtain ⟨t, ht, h⟩ := Option.bind_eq_some_iff.mp h
    obtain ⟨k, -, h⟩ := Option.bind_eq_some_iff.mp h
    obtain ⟨⟨hu, -⟩, h⟩ := guard_bind_eq_some_iff.mp h
    exact ⟨i, t, ht, hu, Option.some.inj h ▸ .onConn (List.forall_mem_nil _)⟩

theorem pushes_accept {connfd : ℤ} {ipPort : List Char} (hh : s.Home)
    (h : s.step (.accept connfd ipPort) = some s') :
    ∃ t, s.threads[0]? = some t ∧ t.stack = [] ∧ s.Pushes 0 s' := by
  obtain ⟨t, ht, h⟩ := Option.bind_eq_some_iff.mp h
  obtain ⟨⟨hstack, -⟩, h⟩ := guard_bind_eq_some_iff.mp h
  obtain ⟨k, idx, e, -⟩ := handleNewConnection_spec hh.index connfd ipPort
  refine ⟨t, ht, hstack, [.runInLoop k.loop (.stepIntoEstablished s.accepted.length)],
    silent_singleton rfl, ?_⟩
  rw [← Option.some.inj h, e]
  rfl

/-- What `advance` does to the threads when it is not at an `enqueue`. -/
theorem pushes_perform (hh : s.Home) (hn : s.Neat) {f : ServerFrame} {stack : List ServerFrame}
    (r : SysResult) (ht : s.threads[i]? = some t) (hstack : t.stack = f :: stack) :
    (s.pop i).Pushes i ((s.pop i).perform i r f) ∧
        (f.Silent ∨ ∃ c buf, f = .call (.sendInLoop c buf)) ∨
      ∃ l task, (f = .enqueue l task ∨ f = .runInLoop l task ∧ task.payload = none) ∧
        task.At s.loops l ∧ (s.pop i).perform i r f = (s.pop i).enqueue l task := by
  have hat := (hh.at_ i t ht).stack f (hstack ▸ List.mem_cons_self)
  cases f with
  | call task =>
      refine .inl ⟨.call hat, ?_⟩
      cases task with
      | sendInLoop c buf => exact .inr ⟨c, buf, rfl⟩
      | stepIntoEstablished | stepIntoDestroyed | removeConnectionInLoop | shutdownInLoop
      | writeComplete | highWater => exact .inl rfl
  | runInLoop l task =>
      have hpay := (hn i t ht).direct l task (hstack ▸ List.mem_cons_self)
      by_cases hl : i = l
      · refine .inl ⟨⟨[.call task], silent_singleton hpay, ?_⟩, .inl hpay⟩
        rw [perform, if_pos hl]
      · exact .inr ⟨l, task, .inr ⟨rfl, hpay⟩, hat, if_neg hl⟩
  | enqueue l task => exact .inr ⟨l, task, .inl rfl, hat, rfl⟩
  | handlers c hs =>
      refine .inl ⟨?_, .inl rfl⟩
      cases hs with
      | nil => exact .same rfl
      | cons h hs =>
          obtain ⟨fs, hfs, he⟩ : ((s.pop i).push i [.handlers c hs]).Pushes i
              (((s.pop i).push i [.handlers c hs]).handle i c r h) := .handle
          refine ⟨fs ++ [.handlers c hs], fun f hf => ?_, he.trans ?_⟩
          · rcases List.mem_append.mp hf with hf | hf
            · exact hfs f hf
            · exact List.mem_singleton.mp hf ▸ rfl
          · refine (List.modify_modify_eq ..).trans ?_
            refine congrArg (List.modify (s.pop i).threads i) (funext fun t => ?_)
            show ({ t with stack := fs ++ ([.handlers c hs] ++ t.stack) } : ServerThread) = _
            rw [← List.append_assoc]
  | remove c => exact .inl ⟨.onConn (List.forall_mem_nil _), .inl rfl⟩
  | callback => exact .inl ⟨.same rfl, .inl rfl⟩
  | destructor rest =>
      refine .inl ⟨?_, .inl rfl⟩
      cases rest with
      | nil => exact .same rfl
      | cons c rest =>
          obtain ⟨k, hk⟩ := Home.exists_conn_of_lt (hat.2 c List.mem_cons_self)
          rw [destructor_eq (s := s.pop i) hk]
          refine ⟨[.runInLoop k.loop (.stepIntoDestroyed c), .destructor rest], fun f hf => ?_, rfl⟩
          rcases List.mem_cons.mp hf with rfl | hf
          · rfl
          · exact List.mem_singleton.mp hf ▸ rfl

theorem Neat.keep (hn : s.Neat) (ht : s.threads[i]? = some t) {f : ServerThread → ServerThread}
    (hf : (f t).stack = t.stack) : (s.onThread i f).Neat := by
  refine hn.onThread ht ⟨?_, ?_⟩
  · rw [hf]
    exact (hn i t ht).tail
  · rw [hf]
    exact (hn i t ht).direct

/-- The threads stay in order. -/
theorem Neat.step (hn : s.Neat) (hh : s.Home) (h : s.step a = some s')
    (ha : ∀ order, a ≠ .destroy order) : s'.Neat := by
  cases a with
  | accept connfd ipPort =>
      obtain ⟨t, ht, hstack, hp⟩ := pushes_accept hh h
      exact neat_pushed hn ht (by rw [hstack]; exact nofun) hp
  | poll l active =>
      cases steps_of_step h with
      | poll _ _ ht => exact hn.keep ht rfl
  | dispatch l =>
      cases steps_of_step h with
      | dispatch _ c revents _ ht =>
          exact hn.onThread ht (ServerThread.neat_of_silent (silent_singleton rfl))
  | swap l =>
      cases steps_of_step h with
      | swap _ ht => exact hn.keep ht rfl
  | task l =>
      cases steps_of_step h with
      | task _ task batch ht =>
          refine hn.onThread ht ⟨nofun, fun l' task' hmem => ?_⟩
          exact nomatch List.mem_singleton.mp hmem
  | advance i r =>
      cases steps_of_step h with
      | @advance t _ _ f stack ht hstack hans =>
          have hrest := (hn i t ht).rest hstack
          have hsil : ∀ f ∈ t.stack.tail, f.Silent := by
            rw [hstack]
            exact hrest
          have ht' : (s.pop i).threads[i]? = some { t with stack := t.stack.tail } :=
            getElem?_onThread ht fun t => { t with stack := t.stack.tail }
          have hpop : (s.pop i).Neat := hn.onThread ht (ServerThread.neat_of_silent hsil)
          rcases pushes_perform hh hn r ht hstack with ⟨hp, -⟩ | ⟨l, task, -, hat, he⟩
          · exact neat_pushed hpop ht' hsil hp
          · obtain ⟨u, hu⟩ := (hh.pop i).exists_thread hat
            rw [he]
            exact hpop.keep hu rfl
  | send i c buf =>
      obtain ⟨t, k, ht, hu, hk, ⟨-, rfl⟩ | ⟨-, rfl⟩⟩ := send_inv h
      · have hsil := (hn i t ht).silent_of_inUser hu
        refine hn.onThread ht ⟨hsil, fun l task hmem => ?_⟩
        rcases List.mem_cons.mp hmem with he | hmem
        · split at he
          · exact nomatch he
          · exact nomatch he
        · exact hsil _ hmem
      · exact hn
  | shutdown i c =>
      obtain ⟨i, t, ht, hu, hp⟩ := pushes_of_user h (.inl ⟨i, c, rfl⟩)
      exact neat_pushed hn ht ((hn i t ht).silent_of_inUser hu) hp
  | retrieve i c n =>
      obtain ⟨i, t, ht, hu, hp⟩ := pushes_of_user h (.inr (.inl ⟨i, c, n, rfl⟩))
      exact neat_pushed hn ht ((hn i t ht).silent_of_inUser hu) hp
  | setHighWater i c mark =>
      obtain ⟨i, t, ht, hu, hp⟩ := pushes_of_user h (.inr (.inr ⟨i, c, mark, rfl⟩))
      exact neat_pushed hn ht ((hn i t ht).silent_of_inUser hu) hp
  | destroy order => exact absurd rfl (ha order)

/-- `SendInLoop` is called with a payload that was queued. -/
theorem box_task {task : ServerTask} {batch : List ServerTask} (ht : s.threads[i]? = some t)
    (hstack : t.stack = []) (hbatch : t.batch = task :: batch)
    (hat : task.At s.loops i) (hl : ∀ l', s.loops[c]? = some l' → l' = l) :
    Mailbox.Step l (s.box l c) .silent
      ((s.onThread i fun t => { t with batch, stack := [.call task] }).box l c) := by
  have hmail : ({ t with batch, stack := [.call task] } : ServerThread).mail c =
      ⟨task.sends c, [], (batch ++ t.queue).flatMap (ServerTask.sends c)⟩ := by
    rw [ServerThread.mail, List.flatMap_singleton, List.flatMap_singleton]
    rfl
  have hold : t.mail c =
      ⟨[], [], task.sends c ++ (batch ++ t.queue).flatMap (ServerTask.sends c)⟩ := by
    rw [ServerThread.mail, hstack, hbatch]
    rfl
  by_cases hnil : task.sends c = []
  · -- it brings nothing to this connection
    rw [box_same ht (by rw [hmail, hold, hnil]; rfl)]
    exact .silent
  · obtain ⟨buf, rfl⟩ := ServerTask.exists_of_sends hnil
    obtain rfl := hl i hat
    have hbox : s.box i c = { outgoing := (s.box i c).outgoing, queue := (t.mail c).queue,
                              running := (t.mail c).running } := by
      unfold box
      rw [ht]
      rfl
    have hout : (s.box i c).outgoing i = [] := by
      show ((s.threads[i]?).map fun t => (t.mail c).outgoing).getD [] = _
      rw [ht]
      exact congrArg ServerThread.Mail.outgoing hold
    have hsame : update (s.box i c).outgoing i [] = (s.box i c).outgoing :=
      (congrArg _ hout.symm).trans (update_eq_self i _)
    rw [box_onThread ht, if_pos rfl, if_pos rfl, hmail, hsame, hbox, hold,
      ServerTask.sends_self]
    exact .take buf _ rfl rfl

/-- `SendInLoop` is called. -/
theorem box_call {stack : List ServerFrame} {r : SysResult} {c' : ℕ} {buf : List Byte}
    (hn : t.Neat) (ht : s.threads[i]? = some t)
    (hstack : t.stack = .call (.sendInLoop c' buf) :: stack)
    (hat : s.loops[c']? = some i) (hp : (s.pop i).Pushes i s')
    (hl : ∀ l', s.loops[c]? = some l' → l' = l) :
    Mailbox.Step l (s.box l c) (label c s (.advance i r)) (s'.box l c) := by
  have hop := opFor_advance (c := c) (r := r) ht hstack
  by_cases hc : c' = c
  · subst hc
    obtain rfl := hl i hat
    obtain ⟨hout, hrun⟩ := box_head ht hn hstack i c'
    have hlabel : label c' s (.advance i r) = .read buf := by
      have hfor : opFor c' s (.advance i r) = some (.send buf r.write) := hop.trans (if_pos rfl)
      rw [label, hfor]
      rfl
    have hsame : update (s.box i c').outgoing i [] = (s.box i c').outgoing :=
      (congrArg _ hout.symm).trans (update_eq_self i _)
    rw [hlabel, box_popped ht hn hstack hp, if_pos rfl, hsame]
    exact .read buf ((hrun rfl).trans (ServerTask.sends_self c' buf))
  · have hlabel : label c s (.advance i r) = .silent :=
      label_of_none rfl (by
        rw [hop, ServerFrame.op, ServerTask.op, Option.bind_some, if_neg hc]
        rfl)
    rw [hlabel, box_popped_same ht hn hstack hp (if_neg hc) rfl]
    exact .silent

/-- A payload goes into the queue of its loop. -/
theorem box_posted {f : ServerFrame} {stack : List ServerFrame} {j : ℕ} {task : ServerTask}
    (hh : s.Home) (hn : t.Neat) (ht : s.threads[i]? = some t) (hstack : t.stack = f :: stack)
    (hf : f = .enqueue j task ∨ f = .runInLoop j task ∧ task.payload = none)
    (hat : task.At s.loops j) (hl : ∀ l', s.loops[c]? = some l' → l' = l) :
    Mailbox.Step l (s.box l c) .silent (((s.pop i).enqueue j task).box l c) := by
  have hp : (s.pop i).Pushes i (s.pop i) := .same rfl
  have hruns : f.runs c = [] := by
    rcases hf with rfl | ⟨rfl, -⟩
    · rfl
    · rfl
  obtain ⟨u, hu⟩ := (hh.pop i).exists_thread hat
  obtain ⟨hout, hrun⟩ := box_head ht hn hstack l c
  by_cases hnil : task.sends c = []
  · have hposts : f.posts c = [] := by
      rcases hf with rfl | ⟨rfl, -⟩
      · exact hnil
      · rfl
    rw [box_enqueue hu, box_popped_same ht hn hstack hp hruns hposts, hnil, List.append_nil,
      ite_self]
    exact .silent
  · obtain ⟨buf, rfl⟩ := ServerTask.exists_of_sends hnil
    obtain rfl := hl j hat
    have hf : f = .enqueue j (.sendInLoop c buf) := hf.resolve_right fun h => nomatch h.2
    subst hf
    have hkept : (if i = j then [] else (s.box j c).running) = (s.box j c).running := by
      split
      · next hi => exact (hrun hi).symm
      · rfl
    rw [box_enqueue hu, if_pos rfl, box_popped ht hn hstack hp, hkept, ServerTask.sends_self]
    exact .post i buf (hout.trans (ServerTask.sends_self c buf))

/-- `Send` is called. -/
theorem box_send {c' : ℕ} {buf : List Byte} (ht : s.threads[i]? = some t)
    (hsil : ∀ f ∈ t.stack, f.Silent) (hk : s.accepted[c']? = some k)
    (hs : k.tcp.state = .connected) (hl : ∀ l', s.loops[c]? = some l' → l' = l) :
    Mailbox.Step l (s.box l c) (label c s (.send i c' buf))
      ((s.push i [if i = k.loop then .call (.sendInLoop c' buf)
        else .enqueue k.loop (.sendInLoop c' buf)]).box l c) := by
  have hruns := ServerThread.runs_of_silent hsil c
  have hposts := ServerThread.posts_of_silent hsil c
  have hout : (s.box l c).outgoing i = [] := by
    show ((s.threads[i]?).map fun t => (t.mail c).outgoing).getD [] = _
    rw [ht]
    exact hposts
  by_cases hc : c' = c
  · subst hc
    have hlabel : label c' s (.send i c' buf) = .send i buf := by
      have hsend : sendOf c' s (.send i c' buf) = some (i, buf) := by
        refine if_pos ⟨rfl, ?_⟩
        rw [hk]
        exact decide_eq_true hs
      rw [label, hsend]
    obtain rfl := hl k.loop (Home.loops_conn hk)
    rw [hlabel]
    by_cases hi : i = k.loop
    · subst hi
      have hrun : (s.box k.loop c').running = [] := by
        show ((s.threads[k.loop]?).map fun t => (t.mail c').running).getD [] = _
        rw [ht]
        exact hruns
      have hqueue : (s.box k.loop c').queue = (t.mail c').queue := by
        show ((s.threads[k.loop]?).map fun t => (t.mail c').queue).getD [] = _
        rw [ht]
        rfl
      have hsame : update (s.box k.loop c').outgoing k.loop [] = (s.box k.loop c').outgoing :=
        (congrArg _ hout.symm).trans (update_eq_self _ _)
      have hmail : ({ t with stack := [.call (.sendInLoop c' buf)] ++ t.stack } : ServerThread).mail
          c' = ⟨[buf], [], (t.mail c').queue⟩ := by
        rw [ServerThread.mail, List.flatMap_append, List.flatMap_append, hruns, hposts]
        exact congrArg (fun l => ServerThread.Mail.mk l [] _)
          ((List.append_nil _).trans ((List.append_nil _).trans (ServerTask.sends_self c' buf)))
      rw [if_pos rfl]
      show Mailbox.Step _ _ _ ((s.onThread k.loop _).box k.loop c')
      rw [box_onThread ht, if_pos rfl, if_pos rfl, hmail, hsame, ← hqueue]
      exact .direct buf hrun
    · have hmail : ({ t with stack := [.enqueue k.loop (.sendInLoop c' buf)] ++ t.stack } :
          ServerThread).mail c' = { t.mail c' with outgoing := [buf] } := by
        rw [ServerThread.mail, List.flatMap_append, List.flatMap_append, hposts]
        exact congrArg (fun l => ServerThread.Mail.mk _ l _)
          ((List.append_nil _).trans ((List.append_nil _).trans (ServerTask.sends_self c' buf)))
      rw [if_neg hi]
      show Mailbox.Step _ _ _ ((s.onThread i _).box k.loop c')
      rw [box_onThread ht, if_neg hi, if_neg hi, hmail]
      exact .send i buf hi hout
  · have hnil : (ServerTask.sendInLoop c' buf).sends c = [] := if_neg hc
    have hlabel : label c s (.send i c' buf) = .silent :=
      label_of_none (if_neg fun h => hc h.1) rfl
    rw [hlabel]
    have hbox : ∀ f : ServerFrame, f.runs c = [] → f.posts c = [] →
        (s.push i [f]).box l c = s.box l c := by
      intro f hr hp
      refine box_same ht ?_ l
      rw [ServerThread.mail, List.flatMap_append, List.flatMap_append, List.flatMap_singleton,
        List.flatMap_singleton, hr, hp]
      rfl
    split
    · rw [hbox (.call (.sendInLoop c' buf)) hnil rfl]
      exact .silent
    · rw [hbox (.enqueue k.loop (.sendInLoop c' buf)) rfl hnil]
      exact .silent

/-- An operation that brings no payload. -/
theorem opFor_quiet {c' : ℕ} {op : LifeOp} (ho : s.opOf a = some (c', op)) (hs : op.sent = none) :
    (opFor c s a).bind LifeOp.sent = none := by
  rw [opFor, ho, Option.bind_some]
  split
  · exact hs
  · rfl

/-- A step of the server is a step of the mailbox of each connection. -/
theorem box_step (hn : s.Neat) (hh : s.Home) (h : s.step a = some s')
    (ha : ∀ order, a ≠ .destroy order) (hl : ∀ l', s.loops[c]? = some l' → l' = l) :
    Mailbox.Step l (s.box l c) (label c s a) (s'.box l c) := by
  have hsilent : label c s a = .silent → s'.box l c = s.box l c →
      Mailbox.Step l (s.box l c) (label c s a) (s'.box l c) := by
    intro hlabel hbox
    rw [hlabel, hbox]
    exact .silent
  cases a with
  | accept connfd ipPort =>
      obtain ⟨t, ht, -, hp⟩ := pushes_accept hh h
      exact hsilent rfl (box_pushed ht hp l c)
  | poll j active =>
      cases steps_of_step h with
      | poll _ _ ht => exact hsilent rfl (box_same ht rfl l)
  | dispatch j =>
      cases steps_of_step h with
      | @dispatch t _ c' revents active ht hstack =>
          refine hsilent rfl (box_same ht ?_ l)
          rw [ServerThread.mail, ServerThread.mail, hstack]
          rfl
  | swap j =>
      cases steps_of_step h with
      | @swap t _ ht hev =>
          refine hsilent rfl (box_same ht ?_ l)
          rw [ServerThread.mail, ServerThread.mail, (hh.at_ j t ht).handling hev, List.append_nil,
            List.nil_append]
  | task j =>
      cases steps_of_step h with
      | @task t _ task batch ht hstack hbatch =>
          have hat := (hh.at_ j t ht).batch task (hbatch ▸ List.mem_cons_self)
          exact box_task ht hstack hbatch hat hl
  | advance i r =>
      cases steps_of_step h with
      | @advance t _ _ f stack ht hstack hans =>
          have hneat := hn i t ht
          have hat := (hh.at_ i t ht).stack f (hstack ▸ List.mem_cons_self)
          rcases pushes_perform hh hn r ht hstack with
            ⟨hp, hsil | ⟨c', buf, rfl⟩⟩ | ⟨j, task, hf, hat', he⟩
          · exact hsilent (label_advance_silent ht hstack hsil)
              (box_popped_same ht hneat hstack hp (hsil.runs c) (hsil.posts c))
          · exact box_call hneat ht hstack hat hp hl
          · have hlabel : label c s (.advance i r) = .silent := by
              refine label_of_none rfl ?_
              rw [opFor_advance ht hstack]
              rcases hf with rfl | ⟨rfl, -⟩
              · rfl
              · rfl
            rw [hlabel, he]
            exact box_posted hh hneat ht hstack hf hat' hl
  | send i c' buf =>
      obtain ⟨t, k, ht, hu, hk, ⟨hs, rfl⟩ | ⟨hs, rfl⟩⟩ := send_inv h
      · exact box_send ht ((hn i t ht).silent_of_inUser hu) hk hs hl
      · refine hsilent (label_of_none (if_neg fun hc => hs ?_) rfl) rfl
        have hany := hc.2
        rw [hk] at hany
        exact of_decide_eq_true hany
  | shutdown i c' =>
      obtain ⟨i, t, ht, hu, hp⟩ := pushes_of_user h (.inl ⟨i, c', rfl⟩)
      exact hsilent (label_of_none rfl (opFor_quiet rfl rfl)) (box_pushed ht hp l c)
  | retrieve i c' n =>
      obtain ⟨i, t, ht, hu, hp⟩ := pushes_of_user h (.inr (.inl ⟨i, c', n, rfl⟩))
      exact hsilent (label_of_none rfl (opFor_quiet rfl rfl)) (box_pushed ht hp l c)
  | setHighWater i c' mark =>
      obtain ⟨i, t, ht, hu, hp⟩ := pushes_of_user h (.inr (.inr ⟨i, c', mark, rfl⟩))
      exact hsilent (label_of_none rfl (opFor_quiet rfl rfl)) (box_pushed ht hp l c)
  | destroy order => exact absurd rfl (ha order)

end TcpServer

end Muduo
