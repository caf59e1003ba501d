/-
# `Muduo.Server.Order` — the order of what was sent

Along a run the mailbox of a connection keeps every payload that `Send` has accepted:
each comes to `SendInLoop` once, and those of one thread in the order of its calls.
What `SendInLoop` has been called with is the stream of the connection
(`stream_of_history`).  So the bytes on the wire are whole payloads, those of one thread
in its order, however the threads and the loops take turns.

    Send ─▶ outgoing i ─▶ queue ─▶ running ─▶ outputBuffer_ ─▶ kernel
            └────────── back ──────┘└────────── front ──────────┘
-/
import Muduo.Server.Mail

namespace Muduo

open Mailbox Runs

namespace TcpServer

variable {s s' : TcpServer} {a : ServerAct} {c l : ℕ} {k : ServerConn}

/-! ## Runs -/

/-- What thread `i` has sent on connection `c`: the payloads of the calls of `Send` that have
found it connected. -/
def sentBy (i c : ℕ) (tr : List (TcpServer × ServerAct)) : List (List Byte) :=
  tr.flatMap fun p =>
    match sendOf c p.1 p.2 with
    | some (j, buf) => if j = i then [buf] else []
    | none => []

/-- The payloads that `SendInLoop` has been called with. -/
def sentInLoop (c : ℕ) (tr : List (TcpServer × ServerAct)) : List (List Byte) :=
  (history c tr).filterMap LifeOp.sent

theorem sentBy_snoc (i c : ℕ) (tr : List (TcpServer × ServerAct)) (s : TcpServer)
    (a : ServerAct) : sentBy i c (tr ++ [(s, a)]) = sentBy i c tr ++ (label c s a).sent i := by
  rw [sentBy, List.flatMap_append, List.flatMap_singleton]
  refine congrArg (sentBy i c tr ++ ·) ?_
  unfold label
  cases sendOf c s a with
  | none =>
      cases (opFor c s a).bind LifeOp.sent with
      | none => rfl
      | some buf => rfl
  | some q => rfl

/-- `Send` itself does nothing to the connection. -/
theorem opFor_of_sendOf {q : ℕ × List Byte} (h : sendOf c s a = some q) : opFor c s a = none := by
  cases a with
  | send => rfl
  | _ => exact nomatch h

theorem sentInLoop_snoc (c : ℕ) (tr : List (TcpServer × ServerAct)) (s : TcpServer)
    (a : ServerAct) : sentInLoop c (tr ++ [(s, a)]) = sentInLoop c tr ++ (label c s a).done := by
  unfold label
  cases hs : sendOf c s a with
  | some q =>
      rw [sentInLoop, history_snoc (opFor_of_sendOf hs)]
      exact (List.append_nil _).symm
  | none =>
      cases ho : opFor c s a with
      | none =>
          rw [sentInLoop, history_snoc ho]
          exact (List.append_nil _).symm
      | some op =>
          rw [sentInLoop, history_snoc_some ho, List.filterMap_append]
          refine congrArg (sentInLoop c tr ++ ·) ?_
          cases op with
          | send buf w => rfl
          | _ => rfl

theorem flatMap_payload (ops : List LifeOp) :
    ops.flatMap LifeOp.payload = (ops.filterMap LifeOp.sent).flatten := by
  induction ops with
  | nil => rfl
  | cons op ops ih =>
      rw [List.flatMap_cons, ih]
      cases op with
      | send buf w => rfl
      | _ => rfl

/-- The payloads of every connection can be told apart by thread. -/
def Sorted (tr : List (TcpServer × ServerAct)) (s : TcpServer) : Prop :=
  ∀ c l, (∀ l', s.loops[c]? = some l' → l' = l) →
    ∃ front back, Attributed l (fun i => sentBy i c tr) (sentInLoop c tr) (s.box l c) front back

theorem neat_init (name : List Char) (wc : Bool) (poolSize users : ℕ) :
    (init name wc poolSize users).Neat := by
  intro i t ht
  obtain rfl := List.eq_of_mem_replicate (List.mem_of_getElem? ht)
  exact ServerThread.neat_of_silent nofun

theorem sorted_init (name : List Char) (wc : Bool) (poolSize users : ℕ) :
    Sorted [] (init name wc poolSize users) := by
  intro c l _
  have hmail : ∀ (β : Type) (g : ServerThread.Mail → List β) (i : ℕ), g ⟨[], [], []⟩ = [] →
      (((init name wc poolSize users).threads[i]?).map fun t => g (t.mail c)).getD [] = [] := by
    intro β g i hg
    cases ht : (init name wc poolSize users).threads[i]? with
    | none => rfl
    | some t =>
        obtain rfl := List.eq_of_mem_replicate (List.mem_of_getElem? ht)
        exact hg
  refine ⟨[], [], ?_⟩
  have hbox : (init name wc poolSize users).box l c = ⟨fun _ => [], [], []⟩ := by
    unfold box
    congr 1
    · exact funext fun i => hmail _ ServerThread.Mail.outgoing i rfl
    · exact hmail _ ServerThread.Mail.queue l rfl
    · exact hmail _ ServerThread.Mail.running l rfl
  rw [hbox]
  exact attributed_nil l

/-- A connection stays in its loop. -/
theorem loops_step (hh : s.Home) (hst : Steps s a s') (hc : s.loops[c]? = some l) :
    s'.loops[c]? = some l := by
  cases Effect.of_steps hh hst with
  | moved | failed | loaded | erased | polled | destroyed | torn | gone => exact hc
  | @ran ts c' k r op hk =>
      refine (congrArg (·[c]?) (Home.loops_set hk ?_)).trans hc
      rfl
  | accepted =>
      refine (congrArg (·[c]?) (List.map_append ..)).trans ?_
      exact (List.getElem?_append_left (List.getElem?_eq_some_iff.mp hc).1).trans hc

theorem Sorted.step {tr : List (TcpServer × ServerAct)} (h : Sorted tr s) (hn : s.Neat)
    (hh : s.Home) (hst : s.step a = some s') (ha : ∀ order, a ≠ .destroy order) :
    Sorted (tr ++ [(s, a)]) s' := by
  intro c l hl
  have hl' : ∀ l', s.loops[c]? = some l' → l' = l := by
    intro l' hc
    exact hl l' (loops_step hh (steps_of_step hst) hc)
  obtain ⟨front, back, hattr⟩ := h c l hl'
  obtain ⟨front', back', hattr'⟩ := hattr.step (box_step hn hh hst ha hl')
  refine ⟨front', back', ?_⟩
  have hsent : (fun i => sentBy i c (tr ++ [(s, a)])) =
      fun i => sentBy i c tr ++ (label c s a).sent i := funext fun i => sentBy_snoc i c tr s a
  rw [hsent, sentInLoop_snoc]
  exact hattr'

theorem sorted_of_run {name : List Char} {wc : Bool} {poolSize users : ℕ}
    {tr : List (TcpServer × ServerAct)}
    (hr : Run (stepOf step) (init name wc poolSize users) tr s) (hok : ∀ p ∈ tr, Within p.1 p.2) :
    Sorted tr s := by
  refine (hr.invariant_trace (I := fun tr s => s.Home ∧ s.Neat ∧ Sorted tr s) hok
    ⟨home_init name wc poolSize users, neat_init name wc poolSize users,
      sorted_init name wc poolSize users⟩ ?_).2.2
  rintro tr t a u ⟨hh, hn, hs⟩ hg hst
  have hno : ∀ order, a ≠ .destroy order := fun order he => (he ▸ hg : t.Within (.destroy order))
  exact ⟨hh.step (steps_of_step hst), hn.step hh hst hno, hs.step hn hh hst hno⟩

/-- What `Send` has been called with in any threads comes to the kernel whole and once, and
that of each thread in the order of its calls: what the kernel has taken, the output buffer
and the payload that `SendInLoop` is being called with are payloads of those calls (`front`),
those that are still queued follow (`back`), and for each thread these and what it is about
to queue are the payloads of its calls, in order.  Until a direct write finds the connection
closed by the peer, and until the connection is closed. -/
theorem stream_of_sends {name : List Char} {wc : Bool} {poolSize users : ℕ}
    {tr : List (TcpServer × ServerAct)}
    (hr : Run (stepOf step) (init name wc poolSize users) tr s) (hok : ∀ p ∈ tr, Within p.1 p.2)
    (hk : s.accepted[c]? = some k) (hopen : ∀ op ∈ history c tr, op.PeerOpen)
    (hs : k.tcp.state ≠ .disconnected) :
    ∃ (connfd : ℤ) (tcp : TcpConnection)
      (tr' : List (TcpConnection × (LifeOp × List ConnEffect))) (front back : List (ℕ × List Byte)),
      TcpConnection.new connfd wc false 0 = some tcp ∧ Run (stepOut LifeOp.run) tcp tr' k.tcp ∧
      tr'.map (fun p => p.2.1) = history c tr ∧
      LifeOp.taken tr' ++ k.tcp.outputBuffer.content ++ (s.box k.loop c).running.flatten =
        (front.map Prod.snd).flatten ∧
      back.map Prod.snd = (s.box k.loop c).queue ∧
      ∀ i, mine i (front ++ back) ++ (s.box k.loop c).outgoing i = sentBy i c tr := by
  obtain ⟨connfd, tcp, tr', hnew, hr', hops, hstream⟩ := stream_of_history hr hok hk hopen hs
  obtain ⟨front, back, h⟩ := sorted_of_run hr hok c k.loop fun l' hl' =>
    Option.some.inj (hl'.symm.trans (Home.loops_conn hk))
  refine ⟨connfd, tcp, tr', front, back, hnew, hr', hops, ?_, h.queued, h.order⟩
  rw [hstream, h.read, List.flatten_append, flatMap_payload]
  rfl

/-- System calls in which one byte is written. -/
def oneByte : SysResult := ⟨.wrote 1, Vector.replicate _ 0, .failed 11⟩

/-- Two threads send on one connection; the second is the first to queue its payload, and
sends once more. -/
def twoSenders : List ServerAct :=
  [.poll 0 [], .accept 7 ['h'], .advance 0 nothing,
    .poll 1 [], .swap 1, .task 1, .advance 1 nothing, .advance 1 nothing,
    .send 2 0 [1, 2, 3], .send 3 0 [4, 5], .advance 3 nothing, .advance 2 nothing, .send 3 0 [6],
    .poll 1 [], .swap 1, .task 1, .advance 1 oneByte]

theorem twoSenders_stream : ∃ tr s k tr' front back,
    runAll step (init ['s'] true 1 2) twoSenders = some (tr, s) ∧ s.accepted[0]? = some k ∧
      k.tcp.outputBuffer.content = [5] ∧ back.map Prod.snd = [[1, 2, 3]] ∧
        LifeOp.taken tr' ++ k.tcp.outputBuffer.content = (front.map Prod.snd).flatten ∧
          mine 3 (front ++ back) ++ [[6]] = [[4, 5], [6]] := by
  obtain ⟨tr, s, hrun, hok, hopen, hk, hrest⟩ : ∃ tr s,
      runAll step (init ['s'] true 1 2) twoSenders = some (tr, s) ∧
        (∀ p ∈ tr, Within p.1 p.2) ∧ (∀ op ∈ history 0 tr, op.PeerOpen) ∧
          (s.accepted[0]?).map (fun k => (k.tcp.state, k.loop, k.tcp.outputBuffer.content)) =
            some (.connected, 1, [5]) ∧
            (s.box 1 0).running = [] ∧ (s.box 1 0).queue = [[1, 2, 3]] ∧
              (s.box 1 0).outgoing 3 = [[6]] ∧ sentBy 3 0 tr = [[4, 5], [6]] :=
    exists_computed (by decide +kernel)
  obtain ⟨k, hk, he⟩ := Option.map_eq_some_iff.mp hk
  obtain ⟨hstate, hloop, hcontent⟩ := Prod.mk.inj he |>.imp_right Prod.mk.inj
  obtain ⟨hrunning, hqueue, hout, hsent⟩ := hrest
  obtain ⟨-, -, tr', front, back, -, -, -, hstream, hback, horder⟩ :=
    stream_of_sends (run_of_runAll hrun) hok hk hopen (by rw [hstate]; decide)
  have hthree := horder 3
  rw [hloop] at hstream hback hthree
  rw [hrunning, List.flatten_nil, List.append_nil] at hstream
  rw [hout, hsent] at hthree
  exact ⟨tr, s, k, tr', front, back, hrun, hk, hcontent, hback.trans hqueue, hstream, hthree⟩

end TcpServer

end Muduo
