/-
# `Muduo.Server.Dues` — what is due to the connections, and where

Everything that is still to be called stands in some thread: in its stack, in
what is left of its channels, in its batch, in its queue.  Taken over all threads
this is what is due (`dueTo`); moving a callback from one place to another does not
change it.

`Home` says that each thing stands where it belongs: what is called or queued in a
loop is meant for that loop, so that no `AssertInLoopThread` fails and no
`EnqueueEventLoop` goes astray.  It holds in every run.

`Effect` is what a step does to the connections and to what is due: most steps
only move something, the others are one operation of one connection.
-/
import Mathlib.Data.List.Count
import Muduo.Lib.Shares
import Muduo.Server.Life

namespace Muduo

open Runs Shares

/-- The connection that a callback is for, and what it is to it. -/
def ServerTask.due : ServerTask → ℕ × Due
  | .stepIntoEstablished c => (c, .established)
  | .stepIntoDestroyed c => (c, .destroyed)
  | .removeConnectionInLoop c => (c, .removal)
  | .sendInLoop c _ => (c, .send)
  | .shutdownInLoop c => (c, .shutdown)
  | .writeComplete c | .highWater c _ => (c, .called)

/-- The callbacks in which `HandleClose` may be called. -/
def Handler.mayClose : Handler → Bool
  | .close | .read => true
  | .error | .write => false

def ServerFrame.dues : ServerFrame → List (ℕ × Due)
  | .call t | .runInLoop _ t | .enqueue _ t => [t.due]
  | .handlers c hs => List.replicate (hs.countP Handler.mayClose) (c, .event)
  | .remove c => [(c, .remove)]
  | .callback => []
  | .destructor rest => rest.map fun c => (c, .torn)

/-- What comes of a channel that was reported. -/
def reportDues (p : ℕ × BitVec 32) : List (ℕ × Due) :=
  (ServerFrame.handlers p.1 (Channel.handlers p.2)).dues

def ServerThread.dues (t : ServerThread) : List (ℕ × Due) :=
  t.stack.flatMap ServerFrame.dues ++ t.active.flatMap reportDues ++ t.batch.map ServerTask.due ++
    t.queue.map ServerTask.due

/-- How much of `x` is due to connection `c`. -/
def dueTo (ts : List ServerThread) (c : ℕ) (x : Due) : ℕ :=
  (ts.flatMap ServerThread.dues).count (c, x)

/-- Connection `c` uses up and leaves these; the other connections are left alone. -/
def Changes (ts ts' : List ServerThread) (c : ℕ) (uses leaves : List Due) : Prop :=
  ∀ c' x, dueTo ts' c' x + (uses.map (Prod.mk c)).count (c', x) =
    dueTo ts c' x + (leaves.map (Prod.mk c)).count (c', x)

section

variable {ts ts' : List ServerThread} {c : ℕ} {uses leaves : List Due}

theorem count_map_mk (l : List Due) (c : ℕ) (x : Due) :
    (l.map (Prod.mk c)).count (c, x) = l.count x :=
  List.count_map_of_injective l (Prod.mk c) (fun _ _ h => (Prod.mk.inj h).2) x

theorem count_map_mk_ne (l : List Due) {c c' : ℕ} (h : c' ≠ c) (x : Due) :
    (l.map (Prod.mk c)).count (c', x) = 0 := by
  refine List.count_eq_zero.mpr fun hmem => ?_
  obtain ⟨y, -, hy⟩ := List.mem_map.mp hmem
  exact h (Prod.mk.inj hy).1.symm

theorem Changes.self (h : Changes ts ts' c uses leaves) (x : Due) :
    dueTo ts' c x + uses.count x = dueTo ts c x + leaves.count x := by
  have hx := h c x
  rwa [count_map_mk, count_map_mk] at hx

theorem Changes.other (h : Changes ts ts' c uses leaves) {c' : ℕ} (hc : c' ≠ c) :
    dueTo ts' c' = dueTo ts c' := by
  funext x
  have hx := h c' x
  rwa [count_map_mk_ne _ hc, count_map_mk_ne _ hc] at hx

/-- What is used up and left in equal parts is due as before. -/
theorem Changes.same (h : Changes ts ts' c uses leaves) {x : Due}
    (hx : leaves.count x = uses.count x) (c' : ℕ) : dueTo ts' c' x = dueTo ts c' x := by
  by_cases hc : c' = c
  · subst hc
    have hs := h.self x
    omega
  · exact congrFun (h.other hc) x

/-- What holds of all connections goes on to do so when it does of the one. -/
theorem Changes.keeps {P : ServerConn → (Due → ℕ) → Prop} {l : List ServerConn}
    (h : Changes ts ts' c uses leaves)
    (hall : ∀ (c' : ℕ) (k : ServerConn), l[c']? = some k → P k (dueTo ts c'))
    (hone : ∀ k, l[c]? = some k → P k (dueTo ts' c)) :
    ∀ (c' : ℕ) (k : ServerConn), l[c']? = some k → P k (dueTo ts' c') := by
  intro c' k hk
  by_cases hc : c' = c
  · subst hc
    exact hone k hk
  · exact h.other hc ▸ hall c' k hk

/-- What is used up was due. -/
theorem Changes.pos (h : Changes ts ts' c uses leaves) {x : Due} (hx : x ∈ uses)
    (hl : x ∉ leaves) : 0 < dueTo ts c x := by
  have hs := h.self x
  have hu := List.count_pos_iff.mpr hx
  rw [List.count_eq_zero.mpr hl] at hs
  omega

end

/-- The effects leave in the threads what they leave due. -/
theorem dues_frames (loop c : ℕ) (effs : List ConnEffect) :
    (effs.flatMap (ConnEffect.frames loop c)).flatMap ServerFrame.dues =
      (effs.flatMap ConnEffect.due).map (Prod.mk c) := by
  induction effs with
  | nil => rfl
  | cons e effs ih =>
      rw [List.flatMap_cons, List.flatMap_append, ih, List.flatMap_cons, List.map_append]
      cases e with
      | queueWriteComplete | queueHighWater | runShutdownInLoop | onCloseCb | connectionCb
      | onMessageCb | write | shutdownWrite | logError => rfl

/-! ## What the steps of a thread do to what is due -/

section

variable {ts : List ServerThread} {i : ℕ} {t : ServerThread}

theorem due_modify (ht : ts[i]? = some t) (f : ServerThread → ServerThread) (c : ℕ) (x : Due) :
    dueTo (ts.modify i f) c x + t.dues.count (c, x) = dueTo ts c x + (f t).dues.count (c, x) :=
  count_modify ht f ServerThread.dues (c, x)

theorem due_push (ht : ts[i]? = some t) (fs : List ServerFrame) (c : ℕ) (x : Due) :
    dueTo (ts.modify i fun t => { t with stack := fs ++ t.stack }) c x =
      dueTo ts c x + (fs.flatMap ServerFrame.dues).count (c, x) := by
  have h := due_modify ht (fun t => { t with stack := fs ++ t.stack }) c x
  simp only [ServerThread.dues, List.flatMap_append, List.count_append] at h
  omega

theorem due_enqueue (ht : ts[i]? = some t) (task : ServerTask) (c : ℕ) (x : Due) :
    dueTo (ts.modify i fun t => { t with queue := t.queue ++ [task] }) c x =
      dueTo ts c x + [task.due].count (c, x) := by
  have h := due_modify ht (fun t => { t with queue := t.queue ++ [task] }) c x
  simp only [ServerThread.dues, List.map_append, List.map_cons, List.map_nil,
    List.count_append] at h
  omega

theorem due_pop {f : ServerFrame} {stack : List ServerFrame} (ht : ts[i]? = some t)
    (hstack : t.stack = f :: stack) (c : ℕ) (x : Due) :
    dueTo (ts.modify i fun t => { t with stack := t.stack.tail }) c x + f.dues.count (c, x) =
      dueTo ts c x := by
  have h := due_modify ht (fun t => { t with stack := t.stack.tail }) c x
  simp only [ServerThread.dues, hstack, List.tail_cons, List.flatMap_cons, List.count_append] at h
  omega

end

namespace TcpServer

variable {s s' : TcpServer} {a : ServerAct} {i c : ℕ} {t : ServerThread} {x : Due}

/-- A function of a connection that comes back. -/
theorem onConn_some {k : ServerConn} {r : TcpConnection × List ConnEffect} {ev : List ConnEvent}
    {f : ServerConn → Option (TcpConnection × List ConnEffect)} {after : List ServerFrame}
    (hk : s.accepted[c]? = some k) (hr : f k = some r) :
    s.onConn i c ev f after = s.effects i c k ev r after := by
  simp only [onConn, hk, hr, Option.bind_eq_bind, Option.bind_some, check, Option.getD_some]

/-- One whose assertion fails. -/
theorem onConn_none {k : ServerConn} {ev : List ConnEvent}
    {f : ServerConn → Option (TcpConnection × List ConnEffect)} {after : List ServerFrame}
    (hk : s.accepted[c]? = some k) (hr : f k = none) :
    s.onConn i c ev f after = { s with failed := true } := by
  simp only [onConn, hk, hr, Option.bind_eq_bind, Option.bind_some, Option.bind_none, check,
    Option.getD_none]

/-- `RemoveConnectionInLoop`, in its loop. -/
theorem removeConnectionInLoop_eq {k : ServerConn} (hk : s.accepted[c]? = some k) :
    s.removeConnectionInLoop 0 c =
      (s.erase k.name).push 0 [.runInLoop k.loop (.stepIntoDestroyed c)] := by
  simp only [removeConnectionInLoop, hk, assert_of, Option.bind_eq_bind, Option.bind_some, check,
    Option.getD_some]

/-- The destructor turns to the next connection. -/
theorem destructor_eq {k : ServerConn} {rest : List ℕ} {r : SysResult}
    (hk : s.accepted[c]? = some k) :
    s.perform i r (.destructor (c :: rest)) =
      s.push i [.runInLoop k.loop (.stepIntoDestroyed c), .destructor rest] := by
  simp only [perform, hk, Option.bind_eq_bind, Option.bind_some, check, Option.getD_some]

/-- `GetNextLoop` comes back with a loop of the pool, or with `loop_`. -/
theorem getNextLoop_spec (hi : s.poolSize = 0 ∨ s.nextLoopIdx < s.poolSize) :
    ∃ l idx, s.getNextLoop = some (l, idx) ∧ l ≤ s.poolSize ∧
      (s.poolSize = 0 ∨ idx < s.poolSize) := by
  unfold getNextLoop
  split
  · next h0 => exact ⟨0, _, rfl, Nat.zero_le _, .inl h0⟩
  · next hne =>
      have hlt := hi.resolve_left hne
      refine ⟨1 + s.nextLoopIdx, if s.nextLoopIdx + 1 ≥ s.poolSize then 0 else s.nextLoopIdx + 1,
        ?_, ?_, ?_⟩
      · simp only [assert_of hlt, Option.bind_eq_bind, Option.bind_some]
      · omega
      · right
        split <;> omega

/-- `HandleNewConnection` accepts a connection that is connecting. -/
theorem handleNewConnection_spec (hi : s.poolSize = 0 ∨ s.nextLoopIdx < s.poolSize) (connfd : ℤ)
    (ipPort : List Char) :
    ∃ (k : ServerConn) (idx : ℕ), s.handleNewConnection connfd ipPort =
        { s with nextConnID := s.nextConnID + 1, nextLoopIdx := idx,
                 accepted := s.accepted ++ [k],
                 conns := assign s.conns k.name s.accepted.length }.push 0
          [.runInLoop k.loop (.stepIntoEstablished s.accepted.length)] ∧
      k.tcp.Sound ∧ k.tcp.state = .connecting ∧ k.log = [] ∧
      k.name = connName s.name ipPort s.nextConnID ∧ k.loop ≤ s.poolSize ∧
      (s.poolSize = 0 ∨ idx < s.poolSize) := by
  obtain ⟨l, idx, hnext, hl, hidx⟩ := getNextLoop_spec hi
  obtain ⟨tcp, hnew, hs, hst⟩ := TcpConnection.sound_new connfd s.writeCompleteCb false 0
  refine ⟨⟨tcp, l, connName s.name ipPort s.nextConnID, []⟩, idx, ?_, hs, hst, rfl, rfl, hl, hidx⟩
  simp only [handleNewConnection, hnext, hnew, Option.bind_eq_bind, Option.bind_some, check,
    Option.getD_some]

theorem mem_assign {conns : List (List Char × ℕ)} {name : List Char} {p : List Char × ℕ}
    (h : p ∈ assign conns name c) : p = (name, c) ∨ p ∈ conns ∧ p.1 ≠ name := by
  unfold assign at h
  split at h
  · obtain ⟨q, hq, rfl⟩ := List.mem_map.mp h
    split
    · exact .inl rfl
    · next hne => exact .inr ⟨hq, hne⟩
  · next hnot =>
      rcases List.mem_append.mp h with h | h
      · exact .inr ⟨h, fun he => hnot (List.mem_map.mpr ⟨p, h, he⟩)⟩
      · exact .inl (List.mem_singleton.mp h)

/-- Thread `i` after a change to it. -/
theorem getElem?_onThread (ht : s.threads[i]? = some t) (f : ServerThread → ServerThread) :
    (s.onThread i f).threads[i]? = some (f t) := by
  rw [onThread, List.getElem?_modify_eq, ht]
  rfl

theorem length_onThread (s : TcpServer) (i : ℕ) (f : ServerThread → ServerThread) :
    (s.onThread i f).threads.length = s.threads.length :=
  List.length_modify ..

end TcpServer

/-! ## Everything is where it belongs -/

section

variable (loops : List ℕ) (phase : ServerPhase)

/-- The callback is for a connection that exists, and for loop `l`. -/
def ServerTask.At (l : ℕ) : ServerTask → Prop
  | .removeConnectionInLoop c => l = 0 ∧ c < loops.length
  | .stepIntoEstablished c | .stepIntoDestroyed c | .sendInLoop c _ | .shutdownInLoop c
  | .writeComplete c | .highWater c _ => loops[c]? = some l

def ServerFrame.At (i : ℕ) : ServerFrame → Prop
  | .call t => t.At loops i
  | .runInLoop l t | .enqueue l t => t.At loops l
  | .handlers c _ | .remove c => loops[c]? = some i
  | .callback => True
  | .destructor rest => phase ≠ .alive ∧ ∀ c ∈ rest, c < loops.length

/-- What thread `i` holds belongs there; it has either channels to handle or a batch. -/
structure ServerThread.At (i : ℕ) (t : ServerThread) : Prop where
  stack : ∀ f ∈ t.stack, f.At loops phase i
  active : ∀ p ∈ t.active, loops[p.1]? = some i
  batch : ∀ task ∈ t.batch, task.At loops i
  queue : ∀ task ∈ t.queue, task.At loops i
  calling : t.eventHandling = false → t.active = []
  handling : t.eventHandling = true → t.batch = []

end

/-- Whatever belonged somewhere does so with more connections and in a later phase. -/
theorem ServerThread.At.mono {loops loops' : List ℕ} {phase phase' : ServerPhase} {i : ℕ}
    {t : ServerThread} (h : t.At loops phase i)
    (hl : ∀ (c l : ℕ), loops[c]? = some l → loops'[c]? = some l)
    (hlen : loops.length ≤ loops'.length) (hp : phase ≠ .alive → phase' ≠ .alive) :
    t.At loops' phase' i := by
  have htask : ∀ {l : ℕ} {task : ServerTask}, task.At loops l → task.At loops' l := by
    intro l task ht
    cases task with
    | removeConnectionInLoop c => exact ⟨ht.1, ht.2.trans_le hlen⟩
    | stepIntoEstablished c | stepIntoDestroyed c | sendInLoop c buf | shutdownInLoop c
    | writeComplete c | highWater c size => exact hl _ _ ht
  refine ⟨fun f hf => ?_, fun p hp => hl _ _ (h.active p hp), fun k hk => htask (h.batch k hk),
    fun k hk => htask (h.queue k hk), h.calling, h.handling⟩
  have hat := h.stack f hf
  cases f with
  | call task | runInLoop l task | enqueue l task => exact htask hat
  | handlers c hs => exact hl _ _ hat
  | remove c => exact hl _ _ hat
  | callback => exact trivial
  | destructor rest => exact ⟨hp hat.1, fun c hc => (hat.2 c hc).trans_le hlen⟩

/-- What stands in a thread is due to a connection that exists. -/
theorem ServerThread.At.lt {loops : List ℕ} {phase : ServerPhase} {i c : ℕ} {x : Due}
    {t : ServerThread} (h : t.At loops phase i) (hc : (c, x) ∈ t.dues) : c < loops.length := by
  have hlt : ∀ {c l : ℕ}, loops[c]? = some l → c < loops.length :=
    fun h => (List.getElem?_eq_some_iff.mp h).1
  have htask : ∀ {l : ℕ} {task : ServerTask}, task.At loops l → task.due = (c, x) →
      c < loops.length := by
    intro l task ht he
    cases task with
    | removeConnectionInLoop c => exact (Prod.mk.inj he).1 ▸ ht.2
    | stepIntoEstablished c | stepIntoDestroyed c | sendInLoop c buf | shutdownInLoop c
    | writeComplete c | highWater c size => exact (Prod.mk.inj he).1 ▸ hlt ht
  rcases List.mem_append.mp hc with hc | hc
  · rcases List.mem_append.mp hc with hc | hc
    · rcases List.mem_append.mp hc with hc | hc
      · obtain ⟨f, hf, hc⟩ := List.mem_flatMap.mp hc
        have hat := h.stack f hf
        cases f with
        | call task | runInLoop l task | enqueue l task =>
            exact htask hat (List.mem_singleton.mp hc).symm
        | handlers c' hs => exact (Prod.mk.inj (List.eq_of_mem_replicate hc)).1 ▸ hlt hat
        | remove c' => exact (Prod.mk.inj (List.mem_singleton.mp hc)).1 ▸ hlt hat
        | callback => exact absurd hc List.not_mem_nil
        | destructor rest =>
            obtain ⟨c', hc', he⟩ := List.mem_map.mp hc
            exact (Prod.mk.inj he).1 ▸ hat.2 c' hc'
      · obtain ⟨p, hp, hc⟩ := List.mem_flatMap.mp hc
        exact (Prod.mk.inj (List.eq_of_mem_replicate hc)).1 ▸ hlt (h.active p hp)
    · obtain ⟨task, hk, he⟩ := List.mem_map.mp hc
      exact htask (h.batch task hk) he
  · obtain ⟨task, hk, he⟩ := List.mem_map.mp hc
    exact htask (h.queue task hk) he

/-- A close or read callback stands in the stack or among the channels of the thread of its
connection. -/
theorem ServerThread.At.event {loops : List ℕ} {phase : ServerPhase} {i c : ℕ} {t : ServerThread}
    (h : t.At loops phase i) (hc : (c, .event) ∈ t.dues) :
    loops[c]? = some i ∧ (t.stack ≠ [] ∨ t.active ≠ []) := by
  have htask : ∀ task : ServerTask, task.due ≠ (c, .event) := by
    intro task he
    cases task with
    | stepIntoEstablished | stepIntoDestroyed | removeConnectionInLoop | sendInLoop | shutdownInLoop
    | writeComplete | highWater => exact nomatch (Prod.mk.inj he).2
  rcases List.mem_append.mp hc with hc | hc
  · rcases List.mem_append.mp hc with hc | hc
    · rcases List.mem_append.mp hc with hc | hc
      · obtain ⟨f, hf, hc⟩ := List.mem_flatMap.mp hc
        refine ⟨?_, .inl (List.ne_nil_of_mem hf)⟩
        cases f with
        | call task | runInLoop l task | enqueue l task =>
            exact absurd (List.mem_singleton.mp hc).symm (htask task)
        | handlers c' hs => exact (Prod.mk.inj (List.eq_of_mem_replicate hc)).1 ▸ h.stack _ hf
        | remove c' => exact nomatch (Prod.mk.inj (List.mem_singleton.mp hc)).2
        | callback => exact absurd hc List.not_mem_nil
        | destructor rest =>
            obtain ⟨c', -, he⟩ := List.mem_map.mp hc
            exact nomatch (Prod.mk.inj he).2
      · obtain ⟨p, hp, hc⟩ := List.mem_flatMap.mp hc
        refine ⟨?_, .inr (List.ne_nil_of_mem hp)⟩
        exact (Prod.mk.inj (List.eq_of_mem_replicate hc)).1 ▸ h.active p hp
    · obtain ⟨task, -, he⟩ := List.mem_map.mp hc
      exact absurd he (htask task)
  · obtain ⟨task, -, he⟩ := List.mem_map.mp hc
    exact absurd he (htask task)

namespace TcpServer

variable {s s' : TcpServer} {a : ServerAct} {i c : ℕ} {t : ServerThread} {x : Due}

/-- The loops of the connections. -/
def loops (s : TcpServer) : List ℕ := s.accepted.map ServerConn.loop

structure Home (s : TcpServer) : Prop where
  threads : s.poolSize < s.threads.length
  index : s.poolSize = 0 ∨ s.nextLoopIdx < s.poolSize
  loops : ∀ l ∈ s.loops, l ≤ s.poolSize
  conns : ∀ p ∈ s.conns, p.2 < s.loops.length
  at_ : ∀ (i : ℕ) (t : ServerThread), s.threads[i]? = some t → t.At s.loops s.phase i

theorem home_init (name : List Char) (wc : Bool) (poolSize users : ℕ) :
    (init name wc poolSize users).Home where
  threads := by
    simp only [init, List.length_replicate]
    omega
  index := poolSize.eq_zero_or_pos
  loops := nofun
  conns := nofun
  at_ := fun i t ht => by
    obtain rfl := List.eq_of_mem_replicate (List.mem_of_getElem? ht)
    exact ⟨nofun, nofun, nofun, nofun, fun _ => rfl, nofun⟩

namespace Home

theorem onThread (h : s.Home) {f : ServerThread → ServerThread}
    (hf : ∀ t, s.threads[i]? = some t → (f t).At s.loops s.phase i) : (s.onThread i f).Home where
  threads := h.threads.trans_eq (length_onThread s i f).symm
  index := h.index
  loops := h.loops
  conns := h.conns
  at_ := by
    intro j u hu
    rw [TcpServer.onThread, List.getElem?_modify] at hu
    obtain ⟨t, ht, hu⟩ := Option.map_eq_some_iff.mp hu
    by_cases hij : i = j
    · subst hij
      rw [if_pos rfl] at hu
      exact hu ▸ hf t ht
    · rw [if_neg hij] at hu
      exact hu ▸ h.at_ j t ht

theorem push (h : s.Home) {fs : List ServerFrame} (hfs : ∀ f ∈ fs, f.At s.loops s.phase i) :
    (s.push i fs).Home :=
  h.onThread fun t ht => { h.at_ i t ht with
    stack := fun f hf => (List.mem_append.mp hf).elim (hfs f) ((h.at_ i t ht).stack f) }

theorem pop (h : s.Home) (i : ℕ) : (s.pop i).Home :=
  h.onThread fun t ht => { h.at_ i t ht with
    stack := fun f hf => (h.at_ i t ht).stack f (List.mem_of_mem_tail hf) }

theorem enqueue (h : s.Home) {l : ℕ} {task : ServerTask} (ht : task.At s.loops l) :
    (s.enqueue l task).Home :=
  h.onThread fun t hl => { h.at_ l t hl with
    queue := fun k hk => (List.mem_append.mp hk).elim ((h.at_ l t hl).queue k)
      fun hk => List.mem_singleton.mp hk ▸ ht }

/-- A connection that exists, by its loop. -/
theorem exists_conn {l : ℕ} (hc : s.loops[c]? = some l) :
    ∃ k, s.accepted[c]? = some k ∧ k.loop = l := by
  rw [TcpServer.loops, List.getElem?_map] at hc
  exact Option.map_eq_some_iff.mp hc

theorem exists_conn_of_lt (hc : c < s.loops.length) : ∃ k, s.accepted[c]? = some k := by
  rw [TcpServer.loops, List.length_map] at hc
  exact ⟨_, List.getElem?_eq_getElem hc⟩

theorem loops_conn {k : ServerConn} (hk : s.accepted[c]? = some k) : s.loops[c]? = some k.loop := by
  rw [TcpServer.loops, List.getElem?_map, hk]
  rfl

/-- A connection keeps its loop. -/
theorem loops_set {k u : ServerConn} (hk : s.accepted[c]? = some k) (hl : u.loop = k.loop) :
    (s.accepted.set c u).map ServerConn.loop = s.loops := by
  obtain ⟨hc, rfl⟩ := List.getElem?_eq_some_iff.mp hk
  rw [List.map_set, hl, TcpServer.loops]
  refine List.ext_getElem? fun j => ?_
  rw [List.getElem?_set]
  split
  · next hj =>
      subst hj
      rw [if_pos (by rwa [List.length_map]), List.getElem?_map, hk]
      rfl
  · rfl

/-- What an effect leaves its thread with belongs to the connection's loop. -/
theorem frames_at {k : ServerConn} (hk : s.accepted[c]? = some k) (e : ConnEffect) :
    ∀ f ∈ e.frames k.loop c, f.At s.loops s.phase i := by
  have hc := loops_conn hk
  intro f hf
  cases e with
  | write | shutdownWrite | logError => exact absurd hf List.not_mem_nil
  | queueWriteComplete | queueHighWater | runShutdownInLoop =>
      obtain rfl := List.mem_singleton.mp hf
      exact hc
  | onCloseCb =>
      obtain rfl := List.mem_singleton.mp hf
      exact ⟨rfl, (List.getElem?_eq_some_iff.mp hc).1⟩
  | connectionCb | onMessageCb =>
      obtain rfl := List.mem_singleton.mp hf
      exact trivial

theorem set (h : s.Home) {k u : ServerConn} (hk : s.accepted[c]? = some k) (hl : u.loop = k.loop)
    (stale : ℕ) : Home { s with accepted := s.accepted.set c u, stale } := by
  have hloops : { s with accepted := s.accepted.set c u, stale : TcpServer }.loops = s.loops :=
    loops_set hk hl
  exact ⟨h.threads, h.index, hloops ▸ h.loops, hloops ▸ h.conns, hloops ▸ h.at_⟩

theorem set_push (h : s.Home) {k u : ServerConn} {fs : List ServerFrame}
    (hk : s.accepted[c]? = some k) (hl : u.loop = k.loop) (stale : ℕ)
    (hfs : ∀ f ∈ fs, f.At s.loops s.phase i) :
    Home ({ s with accepted := s.accepted.set c u, stale }.push i fs) := by
  refine (h.set hk hl stale).push fun f hf => ?_
  show f.At ((s.accepted.set c u).map ServerConn.loop) s.phase i
  rw [loops_set hk hl]
  exact hfs f hf

theorem effects (h : s.Home) {k : ServerConn} {ev : List ConnEvent} {after : List ServerFrame}
    (hk : s.accepted[c]? = some k) (r : TcpConnection × List ConnEffect)
    (hafter : ∀ f ∈ after, f.At s.loops s.phase i) : (s.effects i c k ev r after).Home := by
  refine h.set_push
    (u := { k with tcp := r.1, log := k.log ++ (ev ++ r.2.flatMap (ConnEffect.calls r.1)) })
    hk rfl _ fun f hf => ?_
  rcases List.mem_append.mp hf with hf | hf
  · obtain ⟨e, -, hf⟩ := List.mem_flatMap.mp hf
    exact frames_at hk e f hf
  · exact hafter f hf

theorem erase (h : s.Home) (name : List Char) : (s.erase name).Home :=
  ⟨h.threads, h.index, h.loops, fun p hp => h.conns p (List.mem_of_mem_filter hp), h.at_⟩

theorem fail (h : s.Home) : Home { s with failed := true } :=
  ⟨h.threads, h.index, h.loops, h.conns, h.at_⟩

theorem onConn (h : s.Home) {k : ServerConn} {ev : List ConnEvent}
    {f : ServerConn → Option (TcpConnection × List ConnEffect)} {after : List ServerFrame}
    (hk : s.accepted[c]? = some k) (hafter : ∀ f ∈ after, f.At s.loops s.phase i) :
    (s.onConn i c ev f after).Home := by
  cases hr : f k with
  | none =>
      rw [onConn_none hk hr]
      exact h.fail
  | some r =>
      rw [onConn_some hk hr]
      exact h.effects hk r hafter

/-- A callback that is queued or called. -/
theorem call (h : s.Home) {task : ServerTask} (ht : task.At s.loops i) (r : SysResult) :
    (s.call i r task).Home := by
  cases task with
  | stepIntoEstablished c | sendInLoop c | shutdownInLoop c =>
      obtain ⟨k, hk, -⟩ := exists_conn ht
      exact h.onConn hk nofun
  | stepIntoDestroyed c =>
      obtain ⟨k, hk, -⟩ := exists_conn ht
      exact h.onConn hk fun f hf => List.mem_singleton.mp hf ▸ ht
  | writeComplete c | highWater c =>
      obtain ⟨k, hk, -⟩ := exists_conn ht
      exact h.onConn hk fun f hf => List.mem_singleton.mp hf ▸ trivial
  | removeConnectionInLoop c =>
      obtain ⟨rfl, hc⟩ := ht
      obtain ⟨k, hk⟩ := exists_conn_of_lt hc
      rw [TcpServer.call, removeConnectionInLoop_eq hk]
      exact (h.erase k.name).push fun f hf => List.mem_singleton.mp hf ▸ loops_conn hk

/-- One of the callbacks of a dispatch. -/
theorem handle (h : s.Home) (hc : s.loops[c]? = some i) (r : SysResult) (hd : Handler) :
    (s.handle i c r hd).Home := by
  obtain ⟨k, hk, -⟩ := exists_conn hc
  cases hd with
  | close | error | read | write => exact h.onConn hk nofun

/-- The function that a thread is in. -/
theorem perform (h : s.Home) {f : ServerFrame} (hf : f.At s.loops s.phase i) (r : SysResult) :
    (s.perform i r f).Home := by
  cases f with
  | call task => exact h.call hf r
  | runInLoop l task =>
      show Home (if i = l then s.push i [.call task] else s.enqueue l task)
      split
      · next hil =>
          subst hil
          refine h.push fun f hf' => ?_
          obtain rfl := List.mem_singleton.mp hf'
          exact hf
      · exact h.enqueue hf
  | enqueue l task => exact h.enqueue hf
  | handlers c hs =>
      cases hs with
      | nil => exact h
      | cons hd hs =>
          have hpush : (s.push i [.handlers c hs]).Home := by
            refine h.push fun f hf' => ?_
            obtain rfl := List.mem_singleton.mp hf'
            exact hf
          exact hpush.handle hf r hd
  | remove c =>
      obtain ⟨k, hk, -⟩ := exists_conn hf
      exact h.onConn hk nofun
  | callback => exact h
  | destructor rest =>
      cases rest with
      | nil =>
          refine ⟨h.threads, h.index, h.loops, nofun, fun j t ht => ?_⟩
          exact (h.at_ j t ht).mono (fun _ _ hc => hc) (Nat.le_refl _) fun _ => nofun
      | cons c rest =>
          have hc := hf.2 c List.mem_cons_self
          obtain ⟨k, hk⟩ := exists_conn_of_lt hc
          rw [destructor_eq hk]
          refine h.push fun f hf' => ?_
          rcases List.mem_cons.mp hf' with rfl | hf'
          · exact loops_conn hk
          · obtain rfl := List.mem_singleton.mp hf'
            exact ⟨hf.1, fun c' hc' => hf.2 c' (List.mem_cons_of_mem _ hc')⟩

theorem accept (h : s.Home) (connfd : ℤ) (ipPort : List Char) :
    (s.handleNewConnection connfd ipPort).Home := by
  obtain ⟨k, idx, e, -, -, -, -, hl, hidx⟩ := handleNewConnection_spec h.index connfd ipPort
  have hloops : (s.accepted ++ [k]).map ServerConn.loop = s.loops ++ [k.loop] := List.map_append
  have hlen : s.loops.length = s.accepted.length := List.length_map _
  rw [e]
  refine Home.push (s := { s with nextConnID := s.nextConnID + 1, nextLoopIdx := idx,
                                  accepted := s.accepted ++ [k],
                                  conns := assign s.conns k.name s.accepted.length })
    ⟨h.threads, hidx, ?_, ?_, ?_⟩ fun f hf => ?_
  · show ∀ l ∈ (s.accepted ++ [k]).map ServerConn.loop, l ≤ s.poolSize
    rw [hloops]
    intro l hl'
    rcases List.mem_append.mp hl' with hl' | hl'
    · exact h.loops l hl'
    · exact List.mem_singleton.mp hl' ▸ hl
  · show ∀ p ∈ assign s.conns k.name s.accepted.length,
      p.2 < ((s.accepted ++ [k]).map ServerConn.loop).length
    rw [hloops, List.length_append, List.length_singleton]
    intro p hp
    rcases mem_assign hp with rfl | ⟨hp, -⟩
    · exact hlen ▸ Nat.lt_succ_self _
    · exact (h.conns p hp).trans (Nat.lt_succ_self _)
  · intro i t ht
    show t.At ((s.accepted ++ [k]).map ServerConn.loop) s.phase i
    rw [hloops]
    refine (h.at_ i t ht).mono (fun c l hc => ?_) ?_ id
    · exact List.getElem?_append_left (List.getElem?_eq_some_iff.mp hc).1 ▸ hc
    · rw [List.length_append]
      exact Nat.le_add_right _ _
  · obtain rfl := List.mem_singleton.mp hf
    show ((s.accepted ++ [k]).map ServerConn.loop)[s.accepted.length]? = some k.loop
    rw [hloops, ← hlen, List.getElem?_concat_length]

theorem step (h : s.Home) (hst : Steps s a s') : s'.Home := by
  cases hst with
  | accept connfd ipPort ht hp => exact h.accept connfd ipPort
  | poll l active ht hstack hev hbatch hnodup hrep =>
      refine h.onThread fun t' ht' => ?_
      obtain rfl := Option.some.inj (ht.symm.trans ht')
      refine { h.at_ l _ ht with
        active := fun p hp => ?_
        calling := nofun
        handling := fun _ => hbatch }
      obtain ⟨-, k, hk, hl, -⟩ := hrep p hp
      exact hl ▸ loops_conn hk
  | dispatch l c revents active ht hstack hev hactive =>
      refine h.onThread fun t' ht' => ?_
      obtain rfl := Option.some.inj (ht.symm.trans ht')
      have hat := h.at_ l _ ht
      refine { hat with
        stack := fun f hf => by
          obtain rfl := List.mem_singleton.mp hf
          exact hat.active (c, revents) (hactive ▸ List.mem_cons_self)
        active := fun p hp => hat.active p (hactive ▸ List.mem_cons_of_mem _ hp)
        calling := fun hno => absurd (hev.symm.trans hno) nofun }
  | swap l ht hev hactive =>
      refine h.onThread fun t' ht' => ?_
      obtain rfl := Option.some.inj (ht.symm.trans ht')
      have hat := h.at_ l _ ht
      exact { hat with
        batch := hat.queue
        queue := nofun
        calling := fun _ => hactive
        handling := nofun }
  | task l task batch ht hstack hbatch =>
      refine h.onThread fun t' ht' => ?_
      obtain rfl := Option.some.inj (ht.symm.trans ht')
      have hat := h.at_ l _ ht
      refine { hat with
        stack := fun f hf => List.mem_singleton.mp hf ▸ hat.batch _ (hbatch ▸ List.mem_cons_self)
        batch := fun k hk => hat.batch k (hbatch ▸ List.mem_cons_of_mem _ hk)
        handling := fun hyes => ?_ }
      exact nomatch (hat.handling hyes).symm.trans hbatch
  | advance i r f stack ht hstack hans =>
      exact (h.pop i).perform ((h.at_ i _ ht).stack f (hstack ▸ List.mem_cons_self)) r
  | send i c buf ht hk hs =>
      refine h.push fun f hf => ?_
      obtain rfl := List.mem_singleton.mp hf
      split
      · next hi => exact hi ▸ loops_conn hk
      · exact loops_conn hk
  | refused => exact h
  | shutdown i c ht hk | retrieve i c n ht hk | setHighWater i c mark ht hk =>
      exact h.onConn hk nofun
  | destroy order ht hp hperm =>
      refine Home.push (s := { s with phase := .destructing })
        ⟨h.threads, h.index, h.loops, h.conns, fun i t ht => ?_⟩ fun f hf => ?_
      · exact (h.at_ i t ht).mono (fun _ _ hc => hc) (Nat.le_refl _) fun _ => nofun
      · obtain rfl := List.mem_singleton.mp hf
        refine ⟨nofun, fun c hc => ?_⟩
        obtain ⟨p, hp, rfl⟩ := List.mem_map.mp (hperm.mem_iff.mp hc)
        exact h.conns p hp

/-- The loop that a callback is for has a thread. -/
theorem exists_thread (h : s.Home) {l : ℕ} {task : ServerTask} (ht : task.At s.loops l) :
    ∃ t, s.threads[l]? = some t := by
  have hl : l ≤ s.poolSize := by
    cases task with
    | removeConnectionInLoop c => exact ht.1 ▸ Nat.zero_le _
    | stepIntoEstablished c | stepIntoDestroyed c | sendInLoop c buf | shutdownInLoop c
    | writeComplete c | highWater c size => exact h.loops l (List.mem_of_getElem? ht)
  exact ⟨_, List.getElem?_eq_getElem (hl.trans_lt h.threads)⟩

/-- Nothing is due to a connection that has not been accepted. -/
theorem unborn (h : s.Home) (hc : s.accepted.length ≤ c) (x : Due) : dueTo s.threads c x = 0 := by
  by_contra hne
  obtain ⟨i, t, ht, hmem⟩ := exists_of_count_pos (Nat.pos_of_ne_zero hne)
  have hlt := (h.at_ i t ht).lt hmem
  rw [TcpServer.loops, List.length_map] at hlt
  exact absurd hlt (Nat.not_lt.mpr hc)

end Home

end TcpServer

end Muduo
