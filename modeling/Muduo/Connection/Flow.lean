/-
# `Muduo.Connection.Flow` — what goes through one connection, closed or not

`Carries` says nothing of a connection that has been closed.  What it has taken on
until then is still where it was: part of it is with the kernel, and the rest stays
in the output buffer for good.

    accepted     the payloads that SendInLoop takes on: it drops those of a closed
                 connection, and those that a direct write finds the peer gone with
    pending      what the output buffer holds of them
    delivered    what ReadFd puts into the input buffer
    retrieved    what the user has taken out of it

`Flows` is for the way out, `Buffer.Holds` for the way in.  An operation that neither
sends nor writes leaves the way out alone (`Rests`).
-/
import Muduo.Connection.Shutdown
import Muduo.Server.Life

namespace Muduo

open Runs Region

namespace LifeOp

instance (c : TcpConnection) : (op : LifeOp) → Decidable (op.Fits c)
  | .read _ r => inferInstanceAs (Decidable (r.AtMost _))
  | .write w | .send _ w => inferInstanceAs (Decidable (w.AtMost _))
  | .retrieve _ => inferInstanceAs (Decidable (_ ≤ _))
  | .established | .destroyed | .remove | .close | .error | .shutdown | .shutdownInLoop
  | .writeComplete | .highWater _ | .setHighWater _ => inferInstanceAs (Decidable True)

/-- The payload that `SendInLoop` takes on. -/
def accepted (c : TcpConnection) : LifeOp → List Byte
  | .send buf w => if c.state = .disconnected ∨ (c.writeDirectly buf w).faultError then [] else buf
  | _ => []

/-- The bytes that `ReadFd` puts into the input buffer. -/
def delivered : LifeOp → List Byte
  | .read _ (.delivered data) => data
  | _ => []

/-- The bytes that the user takes out of the input buffer. -/
def retrieved (c : TcpConnection) : LifeOp → List Byte
  | .retrieve n => c.inputBuffer.content.take n
  | _ => []

/-- The two operations that have to do with the way out. -/
def Outward : LifeOp → Prop
  | .send _ _ | .write _ => True
  | _ => False

end LifeOp

namespace TcpConnection

variable {c c' : TcpConnection} {taken pending accepted q : List Byte} {effs : List ConnEffect}
  {op : LifeOp}

/-! ## The way in -/

/-- What comes in is behind what is there, and what the user takes out is before it. -/
theorem input_run (hq : c.inputBuffer.Holds q) (hfit : op.Fits c)
    (h : op.run c = some (c', effs)) :
    ∃ q', c'.inputBuffer.Holds q' ∧ op.retrieved c ++ q' = q ++ op.delivered := by
  have hkeep : c'.inputBuffer = c.inputBuffer → op.retrieved c = [] → op.delivered = [] →
      ∃ q', c'.inputBuffer.Holds q' ∧ op.retrieved c ++ q' = q ++ op.delivered := by
    intro hin hr hd
    refine ⟨q, hin ▸ hq, ?_⟩
    rw [hr, hd, List.append_nil]
    rfl
  cases op with
  | established =>
      obtain ⟨_, -, h⟩ := Option.bind_eq_some_iff.mp h
      obtain ⟨rfl, rfl⟩ := Prod.mk.inj (Option.some.inj h)
      exact hkeep rfl rfl rfl
  | destroyed =>
      have h : c.stepIntoDestroyed = (c', effs) := Option.some.inj h
      unfold stepIntoDestroyed at h
      split at h
      · obtain ⟨rfl, rfl⟩ := Prod.mk.inj h
        exact hkeep rfl rfl rfl
      · obtain ⟨rfl, rfl⟩ := Prod.mk.inj h
        exact hkeep rfl rfl rfl
  | close | remove =>
      obtain ⟨_, -, h⟩ := Option.bind_eq_some_iff.mp h
      obtain ⟨rfl, rfl⟩ := Prod.mk.inj (Option.some.inj h)
      exact hkeep rfl rfl rfl
  | error | writeComplete | highWater | setHighWater =>
      obtain ⟨rfl, rfl⟩ := Prod.mk.inj (Option.some.inj h)
      exact hkeep rfl rfl rfl
  | read extrabuf r =>
      cases r with
      | failed errno =>
          obtain ⟨rfl, rfl⟩ := Prod.mk.inj (Option.some.inj h)
          exact hkeep rfl rfl rfl
      | delivered data =>
          obtain ⟨b, e, hb⟩ := Buffer.readFd_spec hq hfit
          have h : c.handleRead extrabuf (.delivered data) = some (c', effs) := h
          simp only [TcpConnection.handleRead, e, Option.bind_eq_bind, Option.bind_some] at h
          refine ⟨q ++ data, ?_, rfl⟩
          split at h
          · obtain ⟨_, -, h⟩ := Option.bind_eq_some_iff.mp h
            obtain ⟨rfl, rfl⟩ := Prod.mk.inj (Option.some.inj h)
            exact hb
          · obtain ⟨rfl, rfl⟩ := Prod.mk.inj (Option.some.inj h)
            exact hb
  | write w =>
      have h : c.handleWrite w = some (c', effs) := h
      refine hkeep ?_ rfl rfl
      unfold TcpConnection.handleWrite at h
      split at h
      · cases w with
        | failed errno =>
            obtain ⟨rfl, rfl⟩ := Prod.mk.inj (Option.some.inj h)
            rfl
        | wrote n =>
            obtain ⟨_, -, h⟩ := Option.bind_eq_some_iff.mp h
            obtain ⟨_, -, h⟩ := Option.bind_eq_some_iff.mp h
            dsimp only at h
            split at h
            · split at h
              · obtain ⟨rfl, rfl⟩ := Prod.mk.inj (Option.some.inj h)
                rw [(shutdownInLoop_spec _).1]
              · obtain ⟨rfl, rfl⟩ := Prod.mk.inj (Option.some.inj h)
                rfl
            · obtain ⟨rfl, rfl⟩ := Prod.mk.inj (Option.some.inj h)
              rfl
      · obtain ⟨rfl, rfl⟩ := Prod.mk.inj (Option.some.inj h)
        rfl
  | send buf w =>
      have h : c.sendInLoop buf w = some (c', effs) := h
      refine hkeep ?_ rfl rfl
      unfold TcpConnection.sendInLoop at h
      split at h
      · obtain ⟨rfl, rfl⟩ := Prod.mk.inj (Option.some.inj h)
        rfl
      · obtain ⟨_, -, h⟩ := Option.bind_eq_some_iff.mp h
        split at h
        · obtain ⟨_, -, h⟩ := Option.bind_eq_some_iff.mp h
          obtain ⟨rfl, rfl⟩ := Prod.mk.inj (Option.some.inj h)
          rfl
        · obtain ⟨rfl, rfl⟩ := Prod.mk.inj (Option.some.inj h)
          rfl
  | shutdown =>
      have h : c.shutdown = (c', effs) := Option.some.inj h
      unfold TcpConnection.shutdown at h
      split at h
      · obtain ⟨rfl, rfl⟩ := Prod.mk.inj h
        exact hkeep rfl rfl rfl
      · obtain ⟨rfl, rfl⟩ := Prod.mk.inj h
        exact hkeep rfl rfl rfl
  | shutdownInLoop =>
      have h : c.shutdownInLoop = (c', effs) := Option.some.inj h
      have hc := (shutdownInLoop_spec c).1
      rw [h] at hc
      exact hkeep (congrArg TcpConnection.inputBuffer hc) rfl rfl
  | retrieve n =>
      obtain ⟨b, hb, h⟩ := Option.bind_eq_some_iff.mp h
      obtain ⟨rfl, rfl⟩ := Prod.mk.inj (Option.some.inj h)
      obtain ⟨b', e, hb'⟩ := Buffer.retrieve_spec hq (hfit.trans_eq hq.length.symm)
      obtain rfl := Option.some.inj (hb.symm.trans e)
      refine ⟨q.drop n, hb', ?_⟩
      show c.inputBuffer.content.take n ++ q.drop n = q ++ []
      rw [hq.content_eq, List.take_append_drop, List.append_nil]

/-! ## The way out -/

/-- An operation has left the way out alone; it may have closed the connection, or called
`ShutdownWrite` with nothing to write. -/
structure Rests (c c' : TcpConnection) (effs : List ConnEffect) : Prop where
  output : c'.outputBuffer = c.outputBuffer
  taken : effs.flatMap ConnEffect.taken = []
  begun : c.state ≠ .connecting → c'.state ≠ .connecting
  writing : c'.state = .disconnected ∧ c'.chan.isWriting = false ∨
    (c'.state = .disconnected ↔ c.state = .disconnected) ∧ c'.chan.isWriting = c.chan.isWriting
  shuts : .shutdownWrite ∈ effs → c' = c ∧ c.chan.isWriting = false

/-- The way out of a connection that has taken on `accepted`: the kernel has taken `taken` of
it, and the rest is in the output buffer, which is written out until the connection is closed. -/
structure Flows (c : TcpConnection) (taken pending accepted : List Byte) : Prop where
  output : c.outputBuffer.Holds pending
  begun : c.state ≠ .connecting
  stream : taken ++ pending = accepted
  writing : c.chan.isWriting = true ↔ c.state ≠ .disconnected ∧ pending ≠ []

theorem flows_established (sockfd : ℤ) (wc hw : Bool) (mark : ℕ) :
    Flows (established sockfd wc hw mark) [] [] [] := by
  have k := carries_established sockfd wc hw mark
  refine ⟨k.output, nofun, rfl, ?_⟩
  rw [k.writing nofun]
  exact ⟨fun h => absurd rfl h, fun h => h.2⟩

/-- A closed connection is disabled. -/
theorem rests_closed (c : TcpConnection) {effs : List ConnEffect}
    (heffs : effs.flatMap ConnEffect.taken = [] ∧ .shutdownWrite ∉ effs) (b : Buffer) :
    Rests c { c with chan := c.chan.disableAllEvents, state := .disconnected, inputBuffer := b }
      effs :=
  ⟨rfl, heffs.1, fun _ => nofun, .inl ⟨rfl, Channel.isWriting_disableAllEvents c.chan⟩,
    fun h => absurd h heffs.2⟩

theorem rests_same {effs : List ConnEffect} (hout : c'.outputBuffer = c.outputBuffer)
    (hstate : c'.state = c.state) (hchan : c'.chan = c.chan)
    (heffs : effs.flatMap ConnEffect.taken = [] ∧ .shutdownWrite ∉ effs) : Rests c c' effs :=
  ⟨hout, heffs.1, fun h => hstate ▸ h, .inr ⟨by rw [hstate], by rw [hchan]⟩,
    fun h => absurd h heffs.2⟩

theorem rests_run (hop : ¬ op.Outward) (hbegun : c.state ≠ .connecting)
    (h : op.run c = some (c', effs)) : Rests c c' effs := by
  cases op with
  | send | write => exact absurd trivial hop
  | established =>
      obtain ⟨_, hs, -⟩ := Option.bind_eq_some_iff.mp h
      exact absurd (assert_eq_some_iff.mp hs) hbegun
  | destroyed =>
      have h : c.stepIntoDestroyed = (c', effs) := Option.some.inj h
      unfold stepIntoDestroyed at h
      split at h
      · obtain ⟨rfl, rfl⟩ := Prod.mk.inj h
        exact rests_closed c (by decide) c.inputBuffer
      · obtain ⟨rfl, rfl⟩ := Prod.mk.inj h
        exact rests_same rfl rfl rfl (by decide)
  | close =>
      obtain ⟨_, -, h⟩ := Option.bind_eq_some_iff.mp h
      obtain ⟨rfl, rfl⟩ := Prod.mk.inj (Option.some.inj h)
      exact rests_closed c (by decide) c.inputBuffer
  | remove =>
      obtain ⟨_, -, h⟩ := Option.bind_eq_some_iff.mp h
      obtain ⟨rfl, rfl⟩ := Prod.mk.inj (Option.some.inj h)
      exact rests_same rfl rfl rfl (by decide)
  | error | writeComplete | highWater | setHighWater =>
      obtain ⟨rfl, rfl⟩ := Prod.mk.inj (Option.some.inj h)
      exact rests_same rfl rfl rfl (by decide)
  | read extrabuf r =>
      obtain ⟨⟨b, ret⟩, -, h⟩ := Option.bind_eq_some_iff.mp h
      cases ret with
      | error errno =>
          obtain ⟨rfl, rfl⟩ := Prod.mk.inj (Option.some.inj h)
          exact rests_same rfl rfl rfl (by decide)
      | ok n =>
          dsimp only at h
          split at h
          · obtain ⟨_, -, h⟩ := Option.bind_eq_some_iff.mp h
            obtain ⟨rfl, rfl⟩ := Prod.mk.inj (Option.some.inj h)
            exact rests_closed c (by decide) b
          · obtain ⟨rfl, rfl⟩ := Prod.mk.inj (Option.some.inj h)
            exact rests_same rfl rfl rfl (by decide)
  | shutdown =>
      have h : c.shutdown = (c', effs) := Option.some.inj h
      unfold TcpConnection.shutdown at h
      split at h
      · next hs =>
          obtain ⟨rfl, rfl⟩ := Prod.mk.inj h
          refine ⟨rfl, rfl, fun _ => nofun, .inr ⟨?_, rfl⟩,
            fun he => nomatch List.mem_singleton.mp he⟩
          exact iff_of_false nofun (hs ▸ nofun)
      · obtain ⟨rfl, rfl⟩ := Prod.mk.inj h
        exact rests_same rfl rfl rfl (by decide)
  | shutdownInLoop =>
      have h : c.shutdownInLoop = (c', effs) := Option.some.inj h
      unfold TcpConnection.shutdownInLoop at h
      split at h
      · next hw =>
          obtain ⟨rfl, rfl⟩ := Prod.mk.inj h
          exact ⟨rfl, rfl, id, .inr ⟨Iff.rfl, rfl⟩, fun _ => ⟨rfl, by simpa using hw⟩⟩
      · obtain ⟨rfl, rfl⟩ := Prod.mk.inj h
        exact rests_same rfl rfl rfl (by decide)
  | retrieve n =>
      obtain ⟨b, -, h⟩ := Option.bind_eq_some_iff.mp h
      obtain ⟨rfl, rfl⟩ := Prod.mk.inj (Option.some.inj h)
      exact rests_same rfl rfl rfl (by decide)

theorem Flows.rests (k : Flows c taken pending accepted) (h : Rests c c' effs) :
    Flows c' (taken ++ effs.flatMap ConnEffect.taken) pending accepted := by
  refine ⟨h.output ▸ k.output, h.begun k.begun, ?_, ?_⟩
  · rw [h.taken, List.append_nil, k.stream]
  · rcases h.writing with ⟨hs, hw⟩ | ⟨hs, hw⟩
    · rw [hw]
      exact ⟨nofun, fun h => absurd hs h.1⟩
    · rw [hw, k.writing]
      exact and_congr_left' (not_congr hs).symm

/-- A connection that is not closed carries what it has taken on. -/
theorem Flows.carries (k : Flows c taken pending accepted) (hq : c.inputBuffer.Holds q) :
    Carries c taken pending accepted := by
  refine ⟨⟨q, hq⟩, k.output, fun _ => k.stream, fun hs => ?_⟩
  rw [k.writing]
  exact ⟨fun h => h.2, fun h => ⟨hs, h⟩⟩

theorem Carries.flows (k : Carries c taken pending accepted) (hs : c.state ≠ .disconnected)
    (hbegun : c.state ≠ .connecting) : Flows c taken pending accepted := by
  refine ⟨k.output, hbegun, k.stream hs, ?_⟩
  rw [k.writing hs]
  exact ⟨fun h => ⟨hs, h⟩, fun h => h.2⟩

/-- A direct write that finds the peer gone leaves everything as it was. -/
theorem sendInLoop_fault {buf : List Byte} {w : WriteResult}
    (hf : (c.writeDirectly buf w).faultError = true) (h : c.sendInLoop buf w = some (c', effs)) :
    c' = c ∧ effs.flatMap ConnEffect.taken = [] ∧ .shutdownWrite ∉ effs := by
  have heffs : (c.writeDirectly buf w).effects = [.write []] := by
    unfold writeDirectly at hf ⊢
    split at hf
    · next hd =>
        rw [if_pos hd]
        cases w with
        | wrote n => exact nomatch hf
        | failed errno => rfl
    · exact nomatch hf
  unfold TcpConnection.sendInLoop at h
  split at h
  · obtain ⟨rfl, rfl⟩ := Prod.mk.inj (Option.some.inj h)
    exact ⟨rfl, rfl, List.not_mem_nil⟩
  · obtain ⟨_, -, h⟩ := Option.bind_eq_some_iff.mp h
    rw [hf, heffs] at h
    obtain ⟨rfl, rfl⟩ := Prod.mk.inj (Option.some.inj h)
    exact ⟨rfl, rfl, by decide⟩

/-- `SendInLoop` and `HandleWrite` do nothing to a connection that is closed. -/
theorem Flows.outward_closed (k : Flows c taken pending accepted) (op : LifeOp)
    (hop : op.Outward) (hs : c.state = .disconnected) (h : op.run c = some (c', effs)) :
    c' = c ∧ effs = [] := by
  cases op with
  | send buf w =>
      have h : c.sendInLoop buf w = some (c', effs) := h
      rw [TcpConnection.sendInLoop, if_pos hs] at h
      obtain ⟨rfl, rfl⟩ := Prod.mk.inj (Option.some.inj h)
      exact ⟨rfl, rfl⟩
  | write w =>
      have hw : ¬ c.chan.isWriting = true := fun hw => (k.writing.mp hw).1 hs
      have h : c.handleWrite w = some (c', effs) := h
      unfold TcpConnection.handleWrite at h
      rw [if_neg hw] at h
      obtain ⟨rfl, rfl⟩ := Prod.mk.inj (Option.some.inj h)
      exact ⟨rfl, rfl⟩
  | established | destroyed | remove | close | error | read | shutdown | shutdownInLoop
  | writeComplete | highWater | retrieve | setHighWater => exact hop.elim

/-- An operation adds to the stream what it takes on, and nothing else. -/
theorem Flows.run (k : Flows c taken pending accepted) (hq : c.inputBuffer.Holds q)
    (hfit : op.Fits c) (h : op.run c = some (c', effs)) :
    ∃ pending', Flows c' (taken ++ effs.flatMap ConnEffect.taken) pending'
      (accepted ++ op.accepted c) := by
  cases op with
  | send buf w =>
      by_cases hs : c.state = .disconnected
      · obtain ⟨rfl, rfl⟩ := k.outward_closed (.send buf w) trivial hs h
        refine ⟨pending, ?_⟩
        rw [LifeOp.accepted, if_pos (.inl hs), List.append_nil]
        exact (List.append_nil taken).symm ▸ k
      · cases hf : (c.writeDirectly buf w).faultError with
        | true =>
            obtain ⟨rfl, heffs, -⟩ := sendInLoop_fault hf h
            refine ⟨pending, ?_⟩
            rw [LifeOp.accepted, if_pos (.inr hf), heffs, List.append_nil, List.append_nil]
            exact k
        | false =>
            have hno : ¬ (c.state = .disconnected ∨ (c.writeDirectly buf w).faultError = true) := by
              rw [hf]
              exact fun hor => hor.elim hs nofun
            obtain ⟨pending', k'⟩ := sendInLoop_carries (k.carries hq) hs hfit h
            have hdrop : ConnLoop.dropped c buf w = [] :=
              if_neg fun hd => hno (.inr hd.2)
            rw [hdrop, List.append_nil] at k'
            have hstate : c'.state = c.state := (sendInLoop_shape h).1
            refine ⟨pending', ?_⟩
            rw [LifeOp.accepted, if_neg hno]
            exact k'.flows (hstate ▸ hs) (hstate ▸ k.begun)
  | write w =>
      show ∃ pending', Flows c' _ pending' (accepted ++ [])
      rw [List.append_nil]
      by_cases hs : c.state = .disconnected
      · obtain ⟨rfl, rfl⟩ := k.outward_closed (.write w) trivial hs h
        exact ⟨pending, (List.append_nil taken).symm ▸ k⟩
      · obtain ⟨c₁, effs₁, pending', e, k'⟩ := handleWrite_spec (k.carries hq) hfit
        obtain ⟨rfl, rfl⟩ := Prod.mk.inj (Option.some.inj (e.symm.trans h))
        have hstate : c₁.state = c.state := (quiet_handleWrite e).1
        exact ⟨pending', k'.flows (hstate ▸ hs) (hstate ▸ k.begun)⟩
  | established | destroyed | remove | close | error | read | shutdown | shutdownInLoop
  | writeComplete | highWater | retrieve | setHighWater =>
      refine ⟨pending, ?_⟩
      show Flows c' _ pending (accepted ++ [])
      rw [List.append_nil]
      exact k.rests (rests_run id k.begun h)

/-- When `ShutdownWrite` is called on a connection that is not closed, nothing is pending. -/
theorem Flows.shuts (k : Flows c taken pending accepted) (hq : c.inputBuffer.Holds q)
    (hs : c.state ≠ .disconnected) (hfit : op.Fits c) (h : op.run c = some (c', effs))
    (hshut : .shutdownWrite ∈ effs) : c'.chan.isWriting = false ∧ c'.state ≠ .disconnected := by
  cases op with
  | send buf w => exact absurd rfl ((sendInLoop_shape h).2 _ hshut)
  | write w =>
      obtain ⟨hstate, hno | ⟨-, hw, -⟩⟩ := handleWrite_shape (k.carries hq) hfit h
      · exact absurd rfl (hno _ hshut)
      · exact ⟨hw, hstate ▸ hs⟩
  | established | destroyed | remove | close | error | read | shutdown | shutdownInLoop
  | writeComplete | highWater | retrieve | setHighWater =>
      obtain ⟨rfl, hw⟩ := (rests_run id k.begun h).shuts hshut
      exact ⟨hw, hs⟩

/-- Once the kernel takes nothing any more, nothing becomes pending. -/
theorem Flows.stays_empty (k : Flows c taken [] accepted)
    (hw : ∀ w, (∃ buf, op = .send buf w) ∨ op = .write w → w = .failed .EPIPE)
    (h : op.run c = some (c', effs)) : c'.outputBuffer = c.outputBuffer := by
  have hoff : ¬ c.chan.isWriting = true := fun hw => (k.writing.mp hw).2 rfl
  cases op with
  | send buf w =>
      obtain rfl := hw w (.inl ⟨buf, rfl⟩)
      have hf : (c.writeDirectly buf (.failed .EPIPE)).faultError = true := by
        have hd : !c.chan.isWriting ∧ c.outputBuffer.readableBytes = 0 :=
          ⟨by simpa using hoff, k.output.length.symm⟩
        rw [writeDirectly, if_pos hd]
        rfl
      obtain ⟨rfl, -⟩ := sendInLoop_fault hf h
      rfl
  | write w =>
      have h : c.handleWrite w = some (c', effs) := h
      unfold TcpConnection.handleWrite at h
      rw [if_neg hoff] at h
      obtain ⟨rfl, -⟩ := Prod.mk.inj (Option.some.inj h)
      rfl
  | established | destroyed | remove | close | error | read | shutdown | shutdownInLoop
  | writeComplete | highWater | retrieve | setHighWater => exact (rests_run id k.begun h).output

/-- A closed connection stays closed. -/
theorem Flows.stays_closed (k : Flows c taken pending accepted) (hs : c.state = .disconnected)
    (h : op.run c = some (c', effs)) : c'.state = .disconnected := by
  by_cases hop : op.Outward
  · obtain ⟨rfl, -⟩ := k.outward_closed op hop hs h
    exact hs
  · rcases (rests_run hop k.begun h).writing with ⟨hs', -⟩ | ⟨hs', -⟩
    · exact hs'
    · exact hs'.mpr hs

end TcpConnection

end Muduo
