/-
# `Muduo.Connection.Notices` — write complete and high water

Two of the user's callbacks are queued from the way out of a connection.

    writeCompleteCb_    when a direct write takes the whole payload, and when HandleWrite
                        empties the output buffer
    highWaterCb_        when a payload takes the output buffer to the mark or over it

A `SendInLoop` that finds nothing pending and the peer there begins a burst; the sends
that come while something is pending belong to it.  In every run there is one write
complete for each burst, once all of it is with the kernel, and between two high waters
the output buffer has fallen below the mark (`one_notice_a_burst`).
-/
import Muduo.Connection.Flow

namespace Muduo

open Runs

namespace ConnEffect

/-- `writeCompleteCb_` is queued. -/
def complete : ConnEffect → Bool
  | queueWriteComplete => true
  | write _ | queueHighWater _ | shutdownWrite | runShutdownInLoop | connectionCb | onMessageCb
  | onCloseCb | logError => false

/-- `highWaterCb_` is queued. -/
def high : ConnEffect → Bool
  | queueHighWater _ => true
  | write _ | queueWriteComplete | shutdownWrite | runShutdownInLoop | connectionCb | onMessageCb
  | onCloseCb | logError => false

end ConnEffect

/-- A direct write of `buf` that does not find the peer gone, nor fail with nothing to write. -/
def WriteResult.begins (buf : List Byte) : WriteResult → Bool
  | .wrote _ => true
  | .failed errno => buf ≠ [] ∧ errno ≠ .EPIPE ∧ errno ≠ .ECONNRESET

namespace LifeOp

/-- The user sets another mark. -/
def setsMark : LifeOp → Bool
  | .setHighWater _ => true
  | .established | .destroyed | .remove | .close | .error | .read _ _ | .write _ | .send _ _
  | .shutdown | .shutdownInLoop | .writeComplete | .highWater _ | .retrieve _ => false

/-- A `SendInLoop` that begins a burst. -/
def starts (c : TcpConnection) : LifeOp → Bool
  | .send buf w =>
      c.state ≠ .disconnected ∧ c.outputBuffer.readableBytes = 0 ∧ w.begins buf = true
  | _ => false

/-- A `HandleWrite` that takes the output buffer below the mark. -/
def falls (c : TcpConnection) : LifeOp → Bool
  | .write (.wrote n) =>
      c.chan.isWriting ∧ c.highWaterMark ≤ c.outputBuffer.readableBytes ∧
        c.outputBuffer.readableBytes - n < c.highWaterMark
  | _ => false

end LifeOp

namespace TcpConnection

variable {c c' : TcpConnection} {taken pending accepted buf : List Byte} {w : WriteResult}
  {effs : List ConnEffect} {op : LifeOp}

/-- A burst is under way. -/
def unsent (c : TcpConnection) : ℕ := if c.outputBuffer.readableBytes = 0 then 0 else 1

/-- The output buffer has reached the mark. -/
def above (c : TcpConnection) : ℕ := if c.highWaterMark ≤ c.outputBuffer.readableBytes then 1 else 0

/-- The two callbacks and the mark are as they were. -/
structure SameNotices (c c' : TcpConnection) : Prop where
  complete : c'.writeCompleteCb = c.writeCompleteCb
  high : c'.highWaterCb = c.highWaterCb
  mark : c'.highWaterMark = c.highWaterMark

/-- What an operation does to the two counts. -/
structure Notices (c c' : TcpConnection) (effs : List ConnEffect) (starts falls : Bool) :
    Prop where
  same : SameNotices c c'
  complete : effs.countP ConnEffect.complete + c'.unsent = c.unsent + (if starts then 1 else 0)
  high : effs.countP ConnEffect.high + c.above = c'.above + (if falls then 1 else 0)

/-- An operation that leaves the way out alone and queues nothing. -/
theorem notices_none (hsame : SameNotices c c') (hout : c'.outputBuffer = c.outputBuffer)
    (hc : effs.countP ConnEffect.complete = 0) (hh : effs.countP ConnEffect.high = 0) :
    Notices c c' effs false false := by
  refine ⟨hsame, ?_, ?_⟩
  · rw [hc, unsent, unsent, hout, Nat.zero_add]
    rfl
  · rw [hh, above, above, hout, hsame.mark, Nat.zero_add]
    rfl

theorem notices_rests (hop : ¬ op.Outward) (hset : op.setsMark = false)
    (hbegun : c.state ≠ .connecting) (h : op.run c = some (c', effs)) :
    Notices c c' effs false false := by
  have hout := (rests_run hop hbegun h).output
  cases op with
  | send | write => exact absurd trivial hop
  | setHighWater => exact Bool.noConfusion hset
  | established =>
      obtain ⟨_, hs, -⟩ := Option.bind_eq_some_iff.mp h
      exact absurd (assert_eq_some_iff.mp hs) hbegun
  | destroyed =>
      have h : c.stepIntoDestroyed = (c', effs) := Option.some.inj h
      unfold stepIntoDestroyed at h
      split at h
      · obtain ⟨rfl, rfl⟩ := Prod.mk.inj h
        exact notices_none ⟨rfl, rfl, rfl⟩ hout rfl rfl
      · obtain ⟨rfl, rfl⟩ := Prod.mk.inj h
        exact notices_none ⟨rfl, rfl, rfl⟩ hout rfl rfl
  | close | remove =>
      obtain ⟨_, -, h⟩ := Option.bind_eq_some_iff.mp h
      obtain ⟨rfl, rfl⟩ := Prod.mk.inj (Option.some.inj h)
      exact notices_none ⟨rfl, rfl, rfl⟩ hout rfl rfl
  | error | writeComplete | highWater =>
      obtain ⟨rfl, rfl⟩ := Prod.mk.inj (Option.some.inj h)
      exact notices_none ⟨rfl, rfl, rfl⟩ hout rfl rfl
  | read extrabuf r =>
      obtain ⟨⟨b, ret⟩, -, h⟩ := Option.bind_eq_some_iff.mp h
      cases ret with
      | error errno =>
          obtain ⟨rfl, rfl⟩ := Prod.mk.inj (Option.some.inj h)
          exact notices_none ⟨rfl, rfl, rfl⟩ hout rfl rfl
      | ok n =>
          dsimp only at h
          split at h
          · obtain ⟨_, -, h⟩ := Option.bind_eq_some_iff.mp h
            obtain ⟨rfl, rfl⟩ := Prod.mk.inj (Option.some.inj h)
            exact notices_none ⟨rfl, rfl, rfl⟩ hout rfl rfl
          · obtain ⟨rfl, rfl⟩ := Prod.mk.inj (Option.some.inj h)
            exact notices_none ⟨rfl, rfl, rfl⟩ hout rfl rfl
  | shutdown =>
      have h : c.shutdown = (c', effs) := Option.some.inj h
      unfold TcpConnection.shutdown at h
      split at h
      · obtain ⟨rfl, rfl⟩ := Prod.mk.inj h
        exact notices_none ⟨rfl, rfl, rfl⟩ hout rfl rfl
      · obtain ⟨rfl, rfl⟩ := Prod.mk.inj h
        exact notices_none ⟨rfl, rfl, rfl⟩ hout rfl rfl
  | shutdownInLoop =>
      have h : c.shutdownInLoop = (c', effs) := Option.some.inj h
      unfold TcpConnection.shutdownInLoop at h
      split at h
      · obtain ⟨rfl, rfl⟩ := Prod.mk.inj h
        exact notices_none ⟨rfl, rfl, rfl⟩ hout rfl rfl
      · obtain ⟨rfl, rfl⟩ := Prod.mk.inj h
        exact notices_none ⟨rfl, rfl, rfl⟩ hout rfl rfl
  | retrieve n =>
      obtain ⟨b, -, h⟩ := Option.bind_eq_some_iff.mp h
      obtain ⟨rfl, rfl⟩ := Prod.mk.inj (Option.some.inj h)
      exact notices_none ⟨rfl, rfl, rfl⟩ hout rfl rfl

/-! ## The way out -/

/-- What the direct write leaves of a payload. -/
theorem writeDirectly_notices (hw : c.chan.isWriting = true ↔ c.outputBuffer.readableBytes ≠ 0)
    (hcb : c.writeCompleteCb = true) (hfit : w.AtMost buf.length) :
    (c.writeDirectly buf w).effects.countP ConnEffect.high = 0 ∧
      (c.writeDirectly buf w).remaining + (c.writeDirectly buf w).nwrote = buf.length ∧
        ((c.writeDirectly buf w).effects.countP ConnEffect.complete +
          (if (c.writeDirectly buf w).faultError = true ∨ (c.writeDirectly buf w).remaining = 0
            then c.unsent else 1) =
          c.unsent +
            (if c.outputBuffer.readableBytes = 0 ∧ w.begins buf = true then 1 else 0)) := by
  by_cases hr : c.outputBuffer.readableBytes = 0
  · have hd : !c.chan.isWriting ∧ c.outputBuffer.readableBytes = 0 :=
      ⟨by simpa using fun hon => hw.mp hon hr, hr⟩
    have hunsent : c.unsent = 0 := if_pos hr
    unfold writeDirectly
    rw [if_pos hd, hunsent]
    cases w with
    | wrote n =>
        have hle : buf.length - n + n = buf.length := Nat.sub_add_cancel hfit
        refine ⟨?_, hle, ?_⟩
        · by_cases hrem : buf.length - n = 0
          · simp [hrem, hcb, ConnEffect.high]
          · simp [hrem, ConnEffect.high]
        · by_cases hrem : buf.length - n = 0
          · simp [hrem, hcb, hr, ConnEffect.complete, WriteResult.begins]
          · simp [hrem, hr, ConnEffect.complete, WriteResult.begins]
    | failed errno =>
        refine ⟨rfl, rfl, ?_⟩
        by_cases hpeer : errno = .EPIPE ∨ errno = .ECONNRESET
        · rcases hpeer with rfl | rfl
          · simp [hr, ConnEffect.complete, WriteResult.begins]
          · simp [hr, ConnEffect.complete, WriteResult.begins]
        · obtain ⟨hpipe, hreset⟩ := not_or.mp hpeer
          cases buf with
          | nil => simp [hpipe, hreset, hr, ConnEffect.complete, WriteResult.begins]
          | cons b buf => simp [hpipe, hreset, hr, ConnEffect.complete, WriteResult.begins]
  · have hd : ¬ (!c.chan.isWriting ∧ c.outputBuffer.readableBytes = 0) := fun hd => hr hd.2
    have hunsent : c.unsent = 1 := if_neg hr
    unfold writeDirectly
    rw [if_neg hd, hunsent]
    refine ⟨rfl, rfl, ?_⟩
    simp [hr]

theorem count_highWater (p : Prop) [Decidable p] (n : ℕ) :
    (if p then [ConnEffect.queueHighWater n] else []).countP ConnEffect.complete = 0 ∧
      (if p then [ConnEffect.queueHighWater n] else []).countP ConnEffect.high =
        if p then 1 else 0 := by
  split <;> exact ⟨rfl, rfl⟩

theorem notices_send (k : Flows c taken pending accepted) (hcb : c.writeCompleteCb = true)
    (hhigh : c.highWaterCb = true) (hfit : w.AtMost buf.length)
    (h : c.sendInLoop buf w = some (c', effs)) :
    Notices c c' effs (LifeOp.starts c (.send buf w)) false := by
  by_cases hs : c.state = .disconnected
  · rw [TcpConnection.sendInLoop, if_pos hs] at h
    obtain ⟨rfl, rfl⟩ := Prod.mk.inj (Option.some.inj h)
    have hstarts : LifeOp.starts c (.send buf w) = false := decide_eq_false fun hand => hand.1 hs
    rw [hstarts]
    exact notices_none ⟨rfl, rfl, rfl⟩ rfl rfl rfl
  have hw : c.chan.isWriting = true ↔ c.outputBuffer.readableBytes ≠ 0 := by
    rw [k.writing, ← k.output.length]
    exact (and_iff_right hs).trans (not_congr List.length_eq_zero_iff).symm
  obtain ⟨hnone, hrest, hcount⟩ := writeDirectly_notices hw hcb hfit
  have hstarts : (LifeOp.starts c (.send buf w) = true) ↔
      c.outputBuffer.readableBytes = 0 ∧ w.begins buf = true := by
    rw [LifeOp.starts, decide_eq_true_eq]
    exact and_iff_right hs
  rw [← if_congr hstarts rfl rfl] at hcount
  unfold TcpConnection.sendInLoop at h
  rw [if_neg hs] at h
  obtain ⟨_, -, h⟩ := Option.bind_eq_some_iff.mp h
  generalize c.writeDirectly buf w = d at hnone hrest hcount h
  split at h
  · next hmore =>
      obtain ⟨out, happ, h⟩ := Option.bind_eq_some_iff.mp h
      obtain ⟨rfl, rfl⟩ := Prod.mk.inj (Option.some.inj h)
      obtain ⟨out', e, hout⟩ := Buffer.append_spec k.output ((buf.drop d.nwrote).take d.remaining)
      obtain rfl := Option.some.inj (e.symm.trans happ)
      have hlen : out'.readableBytes = c.outputBuffer.readableBytes + d.remaining := by
        rw [← hout.length, ← k.output.length, List.length_append, List.length_take,
          List.length_drop]
        omega
      obtain ⟨hfault, hpos⟩ := hmore
      have hfault : d.faultError = false := by simpa using hfault
      have hnot : ¬ (d.faultError = true ∨ d.remaining = 0) :=
        not_or.mpr ⟨Bool.eq_false_iff.mp hfault, Nat.ne_of_gt hpos⟩
      rw [if_neg hnot] at hcount
      refine ⟨⟨rfl, rfl, rfl⟩, ?_, ?_⟩
      · have hunsent : ∀ chan, unsent { c with outputBuffer := out', chan := chan } = 1 := by
          intro chan
          refine if_neg ?_
          show out'.readableBytes ≠ 0
          omega
        rw [List.countP_append, (count_highWater _ _).1, hunsent]
        exact hcount
      · rw [List.countP_append, (count_highWater _ _).2, hnone, Nat.zero_add]
        simp only [above, hlen, hhigh, and_true, Bool.false_eq_true, if_false]
        split <;> split <;> split <;> omega
  · next hmore =>
      obtain ⟨rfl, rfl⟩ := Prod.mk.inj (Option.some.inj h)
      have hdone : d.faultError = true ∨ d.remaining = 0 := by
        by_contra hno
        obtain ⟨hf, hr⟩ := not_or.mp hno
        exact hmore ⟨by simpa using hf, Nat.pos_of_ne_zero hr⟩
      rw [if_pos hdone] at hcount
      refine ⟨⟨rfl, rfl, rfl⟩, hcount, ?_⟩
      rw [hnone, Nat.zero_add]
      rfl

/-- `HandleWrite` has taken `n` bytes out of the output buffer, and tells of it when that has
emptied it. -/
theorem notices_written {n : ℕ} {out : Buffer}
    (hw : c.chan.isWriting = true) (hr : c.outputBuffer.readableBytes ≠ 0)
    (hout : out.readableBytes = c.outputBuffer.readableBytes - n) (hsame : SameNotices c c')
    (hc' : c'.outputBuffer = out)
    (hc : effs.countP ConnEffect.complete = if out.readableBytes = 0 then 1 else 0)
    (hh : effs.countP ConnEffect.high = 0) :
    Notices c c' effs false (LifeOp.falls c (.write (.wrote n))) := by
  have hfalls : (LifeOp.falls c (.write (.wrote n)) = true) ↔
      c.highWaterMark ≤ c.outputBuffer.readableBytes ∧
        c.outputBuffer.readableBytes - n < c.highWaterMark := by
    rw [LifeOp.falls, decide_eq_true_eq]
    exact and_iff_right hw
  refine ⟨hsame, ?_, ?_⟩
  · rw [hc, unsent, unsent, hc', if_neg hr]
    split <;> rfl
  · rw [hh, above, above, hc', hsame.mark, hout, if_congr hfalls rfl rfl]
    split <;> split <;> split <;> omega

theorem notices_write (k : Flows c taken pending accepted) (hcb : c.writeCompleteCb = true)
    (hfit : w.AtMost c.outputBuffer.readableBytes) (h : c.handleWrite w = some (c', effs)) :
    Notices c c' effs false (LifeOp.falls c (.write w)) := by
  unfold TcpConnection.handleWrite at h
  by_cases hw : c.chan.isWriting = true
  · rw [if_pos hw] at h
    cases w with
    | failed errno =>
        obtain ⟨rfl, rfl⟩ := Prod.mk.inj (Option.some.inj h)
        exact notices_none ⟨rfl, rfl, rfl⟩ rfl rfl rfl
    | wrote n =>
        have hr : c.outputBuffer.readableBytes ≠ 0 := by
          rw [← k.output.length]
          exact fun hnil => (k.writing.mp hw).2 (List.length_eq_zero_iff.mp hnil)
        have hlen : n ≤ pending.length := hfit.trans_eq k.output.length.symm
        obtain ⟨out, e, hout⟩ := Buffer.retrieve_spec k.output hlen
        have hread : out.readableBytes = c.outputBuffer.readableBytes - n := by
          rw [← hout.length, List.length_drop, k.output.length]
        simp only [Buffer.bytesAt_spec k.output hlen, e, Option.bind_eq_bind,
          Option.bind_some] at h
        split at h
        · next hempty =>
            split at h
            · obtain ⟨rfl, rfl⟩ := Prod.mk.inj (Option.some.inj h)
              have hlast : ∀ c : TcpConnection,
                  c.shutdownInLoop.2.countP ConnEffect.complete = 0 ∧
                    c.shutdownInLoop.2.countP ConnEffect.high = 0 := by
                intro c
                unfold TcpConnection.shutdownInLoop
                split <;> exact ⟨rfl, rfl⟩
              refine notices_written hw hr hread ?_ ?_ ?_ ?_
              · rw [(shutdownInLoop_spec _).1]
                exact ⟨rfl, rfl, rfl⟩
              · rw [(shutdownInLoop_spec _).1]
              · rw [List.countP_cons, List.countP_append, (hlast _).1, if_pos hempty]
                rfl
              · rw [List.countP_cons, List.countP_append, (hlast _).2]
                rfl
            · obtain ⟨rfl, rfl⟩ := Prod.mk.inj (Option.some.inj h)
              refine notices_written hw hr hread ⟨rfl, rfl, rfl⟩ rfl ?_ ?_
              · rw [if_pos hempty]
                rfl
              · rfl
        · next hrest =>
            obtain ⟨rfl, rfl⟩ := Prod.mk.inj (Option.some.inj h)
            refine notices_written hw hr hread ⟨rfl, rfl, rfl⟩ rfl ?_ rfl
            rw [if_neg hrest]
            rfl
  · rw [if_neg hw] at h
    obtain ⟨rfl, rfl⟩ := Prod.mk.inj (Option.some.inj h)
    have hfalls : LifeOp.falls c (.write w) = false := by
      cases w with
      | failed errno => rfl
      | wrote n => exact decide_eq_false fun hand => hw hand.1
    rw [hfalls]
    exact notices_none ⟨rfl, rfl, rfl⟩ rfl rfl rfl

theorem notices_run (k : Flows c taken pending accepted) (hcb : c.writeCompleteCb = true)
    (hhigh : c.highWaterCb = true) (hset : op.setsMark = false) (hfit : op.Fits c)
    (h : op.run c = some (c', effs)) :
    Notices c c' effs (op.starts c) (op.falls c) := by
  cases op with
  | send buf w => exact notices_send k hcb hhigh hfit h
  | write w => exact notices_write k hcb hfit h
  | established | destroyed | remove | close | error | read | shutdown | shutdownInLoop
  | writeComplete | highWater | retrieve | setHighWater =>
      exact notices_rests id hset k.begun h

/-! ## Runs -/

/-- In every run of an established connection, closed at some time or not, `writeCompleteCb_` is
queued once for each burst, when its last byte has gone to the kernel, and `highWaterCb_` once for
each time the output buffer reaches the mark, not again before it has fallen below it. -/
theorem one_notice_a_burst {sockfd : ℤ} {mark : ℕ} (hmark : 0 < mark)
    {tr : List (TcpConnection × (LifeOp × List ConnEffect))}
    (hr : Run (stepOut LifeOp.run) (established sockfd true true mark) tr c)
    (hok : ∀ p ∈ tr, p.2.1.Fits p.1 ∧ p.2.1.setsMark = false) :
    (tr.flatMap fun p => p.2.2).countP ConnEffect.complete + c.unsent =
        tr.countP (fun p => p.2.1.starts p.1) ∧
      (tr.flatMap fun p => p.2.2).countP ConnEffect.high =
        c.above + tr.countP (fun p => p.2.1.falls p.1) := by
  have h : (∃ taken pending accepted q, Flows c taken pending accepted ∧ c.inputBuffer.Holds q) ∧
      SameNotices (established sockfd true true mark) c ∧
      (tr.flatMap fun p => p.2.2).countP ConnEffect.complete + c.unsent =
        tr.countP (fun p => p.2.1.starts p.1) ∧
      (tr.flatMap fun p => p.2.2).countP ConnEffect.high =
        c.above + tr.countP (fun p => p.2.1.falls p.1) := by
    refine hr.invariant_trace (I := fun tr c =>
      (∃ taken pending accepted q, Flows c taken pending accepted ∧ c.inputBuffer.Holds q) ∧
        SameNotices (established sockfd true true mark) c ∧
        (tr.flatMap fun p => p.2.2).countP ConnEffect.complete + c.unsent =
          tr.countP (fun p => p.2.1.starts p.1) ∧
        (tr.flatMap fun p => p.2.2).countP ConnEffect.high =
          c.above + tr.countP (fun p => p.2.1.falls p.1))
      (G := fun c a => a.1.Fits c ∧ a.1.setsMark = false) hok ?_ ?_
    · have k := flows_established sockfd true true mark
      obtain ⟨q, hq⟩ := (carries_established sockfd true true mark).input
      refine ⟨⟨_, _, _, q, k, hq⟩, ⟨rfl, rfl, rfl⟩, rfl, ?_⟩
      exact (if_neg (Nat.not_le_of_lt hmark)).symm
    · rintro tr t ⟨op, effs⟩ u ⟨⟨taken, pending, accepted, q, k, hq⟩, hsame, hdone, hhigh⟩
        ⟨hfit, hset⟩ hst
      have hn := notices_run k hsame.complete hsame.high hset hfit hst
      obtain ⟨pending', k'⟩ := k.run hq hfit hst
      obtain ⟨q', hq', -⟩ := input_run hq hfit hst
      refine ⟨⟨_, _, _, q', k', hq'⟩, ⟨hn.same.complete.trans hsame.complete,
        hn.same.high.trans hsame.high, hn.same.mark.trans hsame.mark⟩, ?_, ?_⟩
      · have hstep := hn.complete
        rw [List.flatMap_append, List.countP_append, List.countP_append, List.flatMap_singleton,
          List.countP_singleton, ← hdone]
        dsimp only at hstep ⊢
        omega
      · have hstep := hn.high
        rw [List.flatMap_append, List.countP_append, List.countP_append, List.flatMap_singleton,
          List.countP_singleton, hhigh]
        dsimp only at hstep ⊢
        omega
  exact h.2.2

/-- A burst of three sends that passes the mark of two bytes twice, and one that is taken
at once. -/
def twoBursts : List LifeOp :=
  [.send [1, 2, 3] (.wrote 1), .send [4] (.wrote 0), .write (.wrote 2), .send [5, 6] (.wrote 0),
    .write (.wrote 3), .send [7] (.wrote 1), .shutdown, .shutdownInLoop]

theorem twoBursts_noticed : ∃ tr c,
    runOut LifeOp.run (established 5 true true 2) twoBursts = some (tr, c) ∧
      (tr.flatMap fun p => p.2.2).countP ConnEffect.complete + 0 = 2 ∧
        (tr.flatMap fun p => p.2.2).countP ConnEffect.high = 0 + 2 := by
  obtain ⟨tr, c, hrun, hok, hunsent, habove, hstarts, hfalls⟩ : ∃ tr c,
      runOut LifeOp.run (established 5 true true 2) twoBursts = some (tr, c) ∧
        (∀ p ∈ tr, p.2.1.Fits p.1 ∧ p.2.1.setsMark = false) ∧ c.unsent = 0 ∧ c.above = 0 ∧
          tr.countP (fun p => p.2.1.starts p.1) = 2 ∧ tr.countP (fun p => p.2.1.falls p.1) = 2 :=
    exists_computed (by decide +kernel)
  have h := one_notice_a_burst (by decide) (run_of_runOut hrun) hok
  rw [hunsent, habove, hstarts, hfalls] at h
  exact ⟨tr, c, hrun, h⟩

end TcpConnection

end Muduo
