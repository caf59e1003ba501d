/-
# `Muduo.Connection.Stream` — nothing sent is lost, doubled or reordered

A connection writes to its socket from two places, directly in `SendInLoop` and
from the output buffer in `HandleWrite`.  The stream it carries is what the
kernel has taken, followed by what is in the output buffer; every operation
leaves it as it is, and `SendInLoop` appends its payload to it.  What makes the
two places meet is that the channel is interested in writing exactly while the
output buffer holds something.
-/
import Muduo.Lib.Runs
import Muduo.Buffer.Queue
import Muduo.Connection.Model

namespace Muduo

open Runs Region

/-- What can happen to a connection in its loop. -/
inductive ConnOp
  | sendInLoop (payload : List Byte) (w : WriteResult)
  | handleWrite (w : WriteResult)
  | handleRead (extrabuf : Vector Byte Buffer.extrabufSize) (r : ReadvResult)
  | handleError
  | handleClose
  | shutdown
  | shutdownInLoop

namespace ConnOp

/-- The bytes an operation is asked to send. -/
def payload : ConnOp → List Byte
  | .sendInLoop p _ => p
  | _ => []

end ConnOp

/-- The bytes that the kernel took. -/
def ConnEffect.taken : ConnEffect → List Byte
  | .write data => data
  | _ => []

/-- A run of a connection: each action is an operation with its effects. -/
abbrev ConnTrace := List (TcpConnection × (ConnOp × List ConnEffect))

namespace ConnTrace

/-- The bytes the kernel took in a run. -/
def taken (tr : ConnTrace) : List Byte := tr.flatMap fun p => p.2.2.flatMap ConnEffect.taken

/-- The payloads of a run, in the order of their `SendInLoop` calls. -/
def payloads (tr : ConnTrace) : List Byte := tr.flatMap fun p => p.2.1.payload

end ConnTrace

namespace WriteResult

/-- `write(2)` of `len` bytes takes no more than these. -/
def AtMost (len : ℕ) : WriteResult → Prop
  | .wrote n => n ≤ len
  | .failed _ => True

/-- The peer has not closed the connection under a write. -/
def PeerOpen : WriteResult → Prop
  | .failed errno => errno ≠ .EPIPE ∧ errno ≠ .ECONNRESET
  | .wrote _ => True

instance (len : ℕ) : (w : WriteResult) → Decidable (AtMost len w)
  | .wrote _ => inferInstanceAs (Decidable (_ ≤ _))
  | .failed _ => inferInstanceAs (Decidable True)

instance : (w : WriteResult) → Decidable (PeerOpen w)
  | .wrote _ => inferInstanceAs (Decidable True)
  | .failed _ => inferInstanceAs (Decidable (_ ∧ _))

end WriteResult

namespace TcpConnection

/-- One operation, with its effects. -/
def exec (c : TcpConnection) : ConnOp → Option (TcpConnection × List ConnEffect)
  | .sendInLoop payload w => c.sendInLoop payload w
  | .handleWrite w => c.handleWrite w
  | .handleRead extrabuf r => c.handleRead extrabuf r
  | .handleError => some c.handleError
  | .handleClose => c.handleClose
  | .shutdown => some c.shutdown
  | .shutdownInLoop => some c.shutdownInLoop

/-- Neither closed nor still being set up. -/
def IsUp (c : TcpConnection) : Prop := c.state = .connected ∨ c.state = .disconnecting

instance (c : TcpConnection) : Decidable c.IsUp := inferInstanceAs (Decidable (_ ∨ _))

/-- The system calls keep to their documentation, a direct write does not find
the connection closed by the peer, and a connection is closed once: by
`HandleClose`, which a read of nothing leads to. -/
def Valid (c : TcpConnection) : ConnOp → Prop
  | .sendInLoop payload w => w.AtMost payload.length ∧ w.PeerOpen
  | .handleWrite w => w.AtMost c.outputBuffer.readableBytes
  | .handleRead extrabuf (.delivered data) =>
      data.length ≤ total (c.inputBuffer.iovecs extrabuf) ∧ (data.length = 0 → c.IsUp)
  | .handleClose => c.IsUp
  | _ => True

instance (c : TcpConnection) : (op : ConnOp) → Decidable (c.Valid op)
  | .sendInLoop _ _ | .handleRead _ (.delivered _) => inferInstanceAs (Decidable (_ ∧ _))
  | .handleWrite w => inferInstanceAs (Decidable (w.AtMost _))
  | .handleClose => inferInstanceAs (Decidable c.IsUp)
  | .handleRead _ (.failed _) | .handleError | .shutdown | .shutdownInLoop =>
      inferInstanceAs (Decidable True)

/-! ## The stream -/

/-- The stream of the connection is `payloads`, and the kernel has taken `taken`
of it; a closed connection carries nothing. -/
structure Carries (c : TcpConnection) (taken pending payloads : List Byte) : Prop where
  input : ∃ q, c.inputBuffer.Holds q
  output : c.outputBuffer.Holds pending
  stream : c.state ≠ .disconnected → taken ++ pending = payloads
  writing : c.state ≠ .disconnected → (c.chan.isWriting = true ↔ pending ≠ [])

variable {c : TcpConnection} {taken pending payloads : List Byte} {op : ConnOp}

/-- What construction and `StepIntoEstablished` make of a connection. -/
def established (sockfd : ℤ) (writeCompleteCb highWaterCb : Bool) (highWaterMark : ℕ) :
    TcpConnection :=
  let empty : Buffer :=
    ⟨List.replicate (kCheapPrepend + kInitialSize) 0, kCheapPrepend, kCheapPrepend⟩
  { chan := (Channel.new sockfd).enableReading, state := .connected, writeCompleteCb,
    highWaterCb, highWaterMark, inputBuffer := empty, outputBuffer := empty }

theorem stepIntoEstablished_new (sockfd : ℤ) (wc hw : Bool) (mark : ℕ) :
    (new sockfd wc hw mark).bind stepIntoEstablished =
      some (established sockfd wc hw mark, [.connectionCb]) := by
  simp [new, Buffer.new_eq, stepIntoEstablished, established]

theorem carries_established (sockfd : ℤ) (wc hw : Bool) (mark : ℕ) :
    Carries (established sockfd wc hw mark) [] [] [] := by
  obtain ⟨b, e, hb⟩ := Buffer.new_spec kInitialSize
  rw [Buffer.new_eq] at e
  obtain rfl := Option.some.inj e
  exact ⟨⟨[], hb⟩, hb, fun _ => rfl, fun _ => by simp [established]⟩

/-- The direct write passes on a prefix of the payload, and none of it unless
the output buffer is empty. -/
theorem writeDirectly_spec (k : Carries c taken pending payloads) {buf : List Byte}
    {w : WriteResult} (hn : w.AtMost buf.length) (hp : w.PeerOpen) :
    (c.writeDirectly buf w).faultError = false ∧
      (c.writeDirectly buf w).remaining = buf.length - (c.writeDirectly buf w).nwrote ∧
      (c.writeDirectly buf w).effects.flatMap ConnEffect.taken =
        buf.take (c.writeDirectly buf w).nwrote ∧
      (pending ≠ [] → (c.writeDirectly buf w).nwrote = 0) := by
  unfold writeDirectly
  by_cases hd : !c.chan.isWriting ∧ c.outputBuffer.readableBytes = 0
  · rw [if_pos hd]
    have hnil : pending = [] := List.length_eq_zero_iff.mp (k.output.length.trans hd.2)
    cases w with
    | wrote n =>
        refine ⟨rfl, rfl, ?_, fun hne => absurd hnil hne⟩
        simp only [List.flatMap_cons, ConnEffect.taken]
        split_ifs <;> simp [ConnEffect.taken]
    | failed errno =>
        exact ⟨decide_eq_false (not_or.mpr hp), rfl, rfl, fun _ => rfl⟩
  · rw [if_neg hd]
    exact ⟨rfl, rfl, rfl, fun _ => rfl⟩

theorem taken_queueHighWater (p : Prop) [Decidable p] (n : ℕ) :
    (if p then [ConnEffect.queueHighWater n] else []).flatMap ConnEffect.taken = [] := by
  split <;> rfl

theorem taken_queueWriteComplete (b : Bool) :
    (if b then [ConnEffect.queueWriteComplete] else []).flatMap ConnEffect.taken = [] := by
  cases b <;> rfl

theorem sendInLoop_spec (k : Carries c taken pending payloads) {buf : List Byte}
    {w : WriteResult} (hn : w.AtMost buf.length) (hp : w.PeerOpen) :
    ∃ c' effs pending', c.sendInLoop buf w = some (c', effs) ∧
      Carries c' (taken ++ effs.flatMap ConnEffect.taken) pending' (payloads ++ buf) := by
  unfold sendInLoop
  by_cases hs : c.state = .disconnected
  · rw [if_pos hs]
    exact ⟨c, [], pending, rfl, k.input, k.output, fun h => absurd hs h, fun h => absurd hs h⟩
  rw [if_neg hs]
  obtain ⟨hfault, hrem, heffs, hfirst⟩ := writeDirectly_spec k hn hp
  generalize c.writeDirectly buf w = d at hfault hrem heffs hfirst
  -- what was written directly and what was not make up the payload
  have hsplit : taken ++ buf.take d.nwrote ++ (pending ++ buf.drop d.nwrote) = payloads ++ buf := by
    rw [← k.stream hs]
    by_cases hq : pending = []
    · simp [hq]
    · simp [hfirst hq]
  have hle : d.remaining ≤ buf.length := hrem.trans_le (Nat.sub_le _ _)
  simp only [assert_of hle, hfault, Option.bind_eq_bind, Option.bind_some, Bool.not_false, true_and]
  by_cases hpos : d.remaining > 0
  · have htake : (buf.drop d.nwrote).take d.remaining = buf.drop d.nwrote := by
      rw [List.take_of_length_le]
      rw [List.length_drop, hrem]
    have hne : pending ++ buf.drop d.nwrote ≠ [] := by
      intro h
      have := congrArg List.length h
      simp only [List.length_append, List.length_drop, List.length_nil] at this
      omega
    obtain ⟨out, e, h⟩ := Buffer.append_spec k.output (buf.drop d.nwrote)
    rw [if_pos hpos, htake, e]
    refine ⟨_, _, _, rfl, k.input, h, fun _ => ?_, fun _ => ?_⟩
    · rw [List.flatMap_append, heffs, taken_queueHighWater, List.append_nil, hsplit]
    · cases hw : c.chan.isWriting <;> simp [hw, hne]
  · have hdrop : buf.drop d.nwrote = [] := by
      rw [List.drop_eq_nil_iff]
      omega
    rw [if_neg hpos]
    rw [hdrop, List.append_nil] at hsplit
    exact ⟨c, _, pending, rfl, k.input, k.output, fun _ => by rw [heffs, hsplit], k.writing⟩

theorem handleClose_spec (k : Carries c taken pending payloads) (hup : c.IsUp) :
    ∃ c' effs, c.handleClose = some (c', effs) ∧ effs.flatMap ConnEffect.taken = [] ∧
      Carries c' taken pending payloads := by
  unfold handleClose
  rw [assert_of (p := c.state = .connected ∨ c.state = .disconnecting) hup]
  exact ⟨_, _, rfl, rfl, k.input, k.output, fun h => absurd rfl h, fun h => absurd rfl h⟩

theorem handleRead_spec (k : Carries c taken pending payloads)
    {extrabuf : Vector Byte Buffer.extrabufSize} {r : ReadvResult}
    (hv : c.Valid (.handleRead extrabuf r)) :
    ∃ c' effs, c.handleRead extrabuf r = some (c', effs) ∧
      effs.flatMap ConnEffect.taken = [] ∧ Carries c' taken pending payloads := by
  obtain ⟨q, hq⟩ := k.input
  cases r with
  | failed errno => exact ⟨c, [.logError], rfl, rfl, k⟩
  | delivered data =>
      obtain ⟨b, e, h⟩ := Buffer.readFd_spec hq hv.1
      have k' : Carries { c with inputBuffer := b } taken pending payloads :=
        ⟨⟨_, h⟩, k.output, k.stream, k.writing⟩
      unfold handleRead
      simp only [e, Option.bind_eq_bind, Option.bind_some]
      by_cases h0 : data.length = 0
      · rw [if_pos h0]
        exact handleClose_spec k' (hv.2 h0)
      · rw [if_neg h0]
        exact ⟨_, _, rfl, rfl, k'⟩

theorem shutdownInLoop_spec (c : TcpConnection) :
    c.shutdownInLoop.1 = c ∧ c.shutdownInLoop.2.flatMap ConnEffect.taken = [] := by
  unfold shutdownInLoop
  split <;> exact ⟨rfl, rfl⟩

theorem shutdown_spec (k : Carries c taken pending payloads) :
    c.shutdown.2.flatMap ConnEffect.taken = [] ∧ Carries c.shutdown.1 taken pending payloads := by
  unfold shutdown
  split
  next hs =>
    have hne : c.state ≠ .disconnected := by
      rw [hs]
      decide
    exact ⟨rfl, k.input, k.output, fun _ => k.stream hne, fun _ => k.writing hne⟩
  next => exact ⟨rfl, k⟩

theorem handleWrite_spec (k : Carries c taken pending payloads) {w : WriteResult}
    (hn : w.AtMost c.outputBuffer.readableBytes) :
    ∃ c' effs pending', c.handleWrite w = some (c', effs) ∧
      Carries c' (taken ++ effs.flatMap ConnEffect.taken) pending' payloads := by
  unfold handleWrite
  by_cases hw : c.chan.isWriting
  · rw [if_pos hw]
    cases w with
    | failed errno =>
        refine ⟨c, [.write []], pending, rfl, ?_⟩
        simpa [ConnEffect.taken] using k
    | wrote n =>
        have hlen : n ≤ pending.length := hn.trans_eq k.output.length.symm
        obtain ⟨out, e, h⟩ := Buffer.retrieve_spec k.output hlen
        have hsplit : c.state ≠ .disconnected →
            taken ++ pending.take n ++ pending.drop n = payloads := fun hs => by
          rw [List.append_assoc, List.take_append_drop, k.stream hs]
        simp only [Buffer.bytesAt_spec k.output hlen, e, Option.bind_eq_bind, Option.bind_some]
        by_cases hempty : out.readableBytes = 0
        · -- the buffer has run empty, and the interest in writing ends
          have hnil : pending.drop n = [] := List.length_eq_zero_iff.mp (h.length.trans hempty)
          have k' : Carries { c with outputBuffer := out, chan := c.chan.disableWriting }
              (taken ++ pending.take n) (pending.drop n) payloads :=
            ⟨k.input, h, hsplit, fun _ => by simp [hnil]⟩
          rw [if_pos hempty]
          by_cases hs : c.state = .disconnecting
          · obtain ⟨hc, heffs⟩ := shutdownInLoop_spec
              { c with outputBuffer := out, chan := c.chan.disableWriting }
            rw [if_pos hs]
            refine ⟨_, _, pending.drop n, rfl, ?_⟩
            rw [List.flatMap_cons, List.flatMap_append, heffs, taken_queueWriteComplete]
            simpa [hc, ConnEffect.taken] using k'
          · rw [if_neg hs]
            refine ⟨_, _, pending.drop n, rfl, ?_⟩
            rw [List.flatMap_cons, taken_queueWriteComplete]
            simpa [ConnEffect.taken] using k'
        · have hne : pending.drop n ≠ [] := fun hnil =>
            hempty (h.length.symm.trans (congrArg List.length hnil))
          rw [if_neg hempty]
          refine ⟨_, _, pending.drop n, rfl, k.input, h, fun hs => ?_, fun _ => by simp [hw, hne]⟩
          simpa [ConnEffect.taken] using hsplit hs
  · rw [if_neg hw]
    exact ⟨c, [], pending, rfl, by simpa using k⟩

/-- One operation appends its payload to the stream, and nothing else. -/
theorem Carries.exec (k : Carries c taken pending payloads) (hv : c.Valid op) :
    ∃ c' effs pending', c.exec op = some (c', effs) ∧
      Carries c' (taken ++ effs.flatMap ConnEffect.taken) pending' (payloads ++ op.payload) := by
  cases op with
  | sendInLoop payload w => exact sendInLoop_spec k hv.1 hv.2
  | handleWrite w =>
      obtain ⟨c', effs, pending', e, k'⟩ := handleWrite_spec k hv
      exact ⟨c', effs, pending', e, by simpa [ConnOp.payload] using k'⟩
  | handleRead extrabuf r =>
      obtain ⟨c', effs, e, heffs, k'⟩ := handleRead_spec k hv
      exact ⟨c', effs, pending, e, by simpa [ConnOp.payload, heffs] using k'⟩
  | handleError =>
      exact ⟨c, [.logError], pending, rfl, by simpa [ConnOp.payload, ConnEffect.taken] using k⟩
  | handleClose =>
      obtain ⟨c', effs, e, heffs, k'⟩ := handleClose_spec k hv
      exact ⟨c', effs, pending, e, by simpa [ConnOp.payload, heffs] using k'⟩
  | shutdown =>
      obtain ⟨heffs, k'⟩ := shutdown_spec k
      exact ⟨c.shutdown.1, c.shutdown.2, pending, rfl, by simpa [ConnOp.payload, heffs] using k'⟩
  | shutdownInLoop =>
      obtain ⟨hc, heffs⟩ := shutdownInLoop_spec c
      refine ⟨c.shutdownInLoop.1, c.shutdownInLoop.2, pending, rfl, ?_⟩
      rw [hc, heffs]
      simpa [ConnOp.payload] using k

/-! ## Runs -/

theorem carries_of_run {c₀ c : TcpConnection} {tr : ConnTrace} (k₀ : Carries c₀ [] [] [])
    (hr : Run (stepOut exec) c₀ tr c) (hv : ∀ p ∈ tr, Valid p.1 p.2.1) :
    ∃ pending, Carries c (ConnTrace.taken tr) pending (ConnTrace.payloads tr) := by
  refine hr.invariant_trace
    (I := fun tr c => ∃ pending, Carries c (ConnTrace.taken tr) pending (ConnTrace.payloads tr))
    (G := fun c a => c.Valid a.1) hv ⟨[], k₀⟩ ?_
  rintro tr t ⟨op, effs⟩ u ⟨pending, k⟩ hv hst
  obtain ⟨u', effs', pending', e, k'⟩ := k.exec hv
  obtain ⟨rfl, rfl⟩ := Prod.mk.inj (Option.some.inj (e.symm.trans hst))
  exact ⟨pending', by simpa [ConnTrace.taken, ConnTrace.payloads] using k'⟩

/-- From `StepIntoEstablished` on and until it is closed, what the kernel has
taken followed by the readable bytes of the output buffer is what was sent, and
the channel is interested in writing exactly while the output buffer holds
something.  No operation fails on the way. -/
theorem stream_intact (sockfd : ℤ) (writeCompleteCb highWaterCb : Bool) (highWaterMark : ℕ) :
    ∃ c₀ effs, (new sockfd writeCompleteCb highWaterCb highWaterMark).bind stepIntoEstablished
        = some (c₀, effs) ∧
      ∀ {tr : ConnTrace} {c : TcpConnection}, Run (stepOut exec) c₀ tr c →
        (∀ p ∈ tr, Valid p.1 p.2.1) →
          (c.state ≠ .disconnected →
            ConnTrace.taken tr ++ c.outputBuffer.content = ConnTrace.payloads tr ∧
              (c.chan.isWriting = true ↔ c.outputBuffer.content ≠ [])) ∧
          ∀ op, Valid c op → ∃ c' effs', c.exec op = some (c', effs') := by
  refine ⟨_, _, stepIntoEstablished_new sockfd writeCompleteCb highWaterCb highWaterMark, ?_⟩
  intro tr c hr hv
  obtain ⟨pending, k⟩ := carries_of_run (carries_established _ _ _ _) hr hv
  refine ⟨fun hs => ?_, fun op hop => ?_⟩
  · rw [k.output.content_eq]
    exact ⟨k.stream hs, k.writing hs⟩
  · obtain ⟨c', effs', -, e, -⟩ := k.exec hop
    exact ⟨c', effs', e⟩

/-- A direct write that stops half way, a second payload behind the rest of the
first, a write that takes nothing, and one that empties the buffer after `Shutdown`. -/
def partialWrites : List ConnOp :=
  [.sendInLoop [1, 2, 3] (.wrote 1), .sendInLoop [4, 5] (.wrote 2), .handleWrite (.wrote 0),
    .handleWrite (.wrote 3), .shutdown, .shutdownInLoop, .handleWrite (.wrote 1)]

theorem partialWrites_intact :
    ∃ c₀ effs tr c, (new 5 true true 4).bind stepIntoEstablished = some (c₀, effs) ∧
      runOut exec c₀ partialWrites = some (tr, c) ∧ c.state = .disconnecting ∧
      ConnTrace.payloads tr = [1, 2, 3, 4, 5] ∧
      ConnTrace.taken tr ++ c.outputBuffer.content = ConnTrace.payloads tr := by
  obtain ⟨c₀, effs, e₀, h⟩ := stream_intact 5 true true 4
  have hc₀ : established 5 true true 4 = c₀ :=
    congrArg Prod.fst (Option.some.inj ((stepIntoEstablished_new 5 true true 4).symm.trans e₀))
  subst hc₀
  obtain ⟨tr, c, hrun, hv, hs, hp⟩ : ∃ tr c,
      runOut exec (established 5 true true 4) partialWrites = some (tr, c) ∧
        (∀ p ∈ tr, Valid p.1 p.2.1) ∧ c.state = .disconnecting ∧
        ConnTrace.payloads tr = [1, 2, 3, 4, 5] :=
    exists_computed (by decide +kernel)
  refine ⟨_, _, tr, c, e₀, hrun, hs, hp, ((h (run_of_runOut hrun) hv).1 ?_).1⟩
  rw [hs]
  decide

end TcpConnection

end Muduo
