/-
# `Muduo.Connection.Link` — two connections, and what is on the way between them

The two ends of one TCP connection are a `TcpConnection` each, of a server or of a
client.  What is between them is the kernel: in each direction the bytes that
`write(2)` has taken and `readv(2)` has not delivered yet, and whether the end that
writes has shut it down or has closed its descriptor.

    SendInLoop          write(2)         readv(2)            Retrieve
    ──────────► outputBuffer ──────► Wire ──────► inputBuffer ──────► the user

The operations of the two ends come in any order.  The kernel may take and deliver
as little as it likes and may fail at any time; what is asked of it (`Lawful`) is that it
delivers the bytes in order, reports the end of the stream only behind the last byte
of a direction that was shut down or closed, and takes nothing for a direction that
was shut down.

Whatever has been taken on at one end is, in order, with the user at the other end,
in his input buffer, on the way, or in the output buffer (`received_in_order`).  When
the end of the stream is reported, only what the output buffer of a closed
connection holds is missing (`end_after_everything`).
-/
import Muduo.Connection.Flow

namespace Muduo

open Runs

/-- The two ends of a connection. -/
inductive Side
  | near | far
deriving DecidableEq, Repr

namespace Side

def other : Side → Side
  | near => far
  | far => near

@[simp] theorem other_other (e : Side) : e.other.other = e := by
  cases e with
  | near | far => rfl

theorem other_ne (e : Side) : e.other ≠ e := by
  cases e with
  | near | far => exact nofun

theorem eq_or (d e : Side) : d = e ∨ d = e.other := by
  cases d with
  | near | far =>
      cases e with
      | near | far => decide

end Side

/-- One direction of a connection in the kernel. -/
structure Wire where
  bytes : List Byte
  /-- `ShutdownWrite` was called -/
  shut : Bool
  /-- the descriptor was closed -/
  closed : Bool
deriving DecidableEq, Repr

namespace Wire

/-- What the effect of an operation does to the direction out. -/
def carry (w : Wire) : ConnEffect → Wire
  | .write data => { w with bytes := w.bytes ++ data }
  | .shutdownWrite => { w with shut := true }
  | .queueWriteComplete | .queueHighWater _ | .runShutdownInLoop | .connectionCb | .onMessageCb
  | .onCloseCb | .logError => w

/-- `readv(2)` has delivered the first `n` bytes. -/
def deliver (w : Wire) (n : ℕ) : Wire := { w with bytes := w.bytes.drop n }

/-- No byte is to come any more. -/
def Ended (w : Wire) : Prop := w.bytes = [] ∧ (w.shut = true ∨ w.closed = true)

instance (w : Wire) : Decidable w.Ended := inferInstanceAs (Decidable (_ ∧ _))

theorem carry_foldl (w : Wire) (effs : List ConnEffect) :
    (effs.foldl carry w).bytes = w.bytes ++ effs.flatMap ConnEffect.taken ∧
      ((effs.foldl carry w).shut = true ↔ w.shut = true ∨ .shutdownWrite ∈ effs) ∧
        (effs.foldl carry w).closed = w.closed := by
  induction effs generalizing w with
  | nil => exact ⟨(List.append_nil _).symm, by simp, rfl⟩
  | cons e effs ih =>
      obtain ⟨hbytes, hshut, hclosed⟩ := ih (w.carry e)
      rw [List.foldl_cons, hbytes, hshut, hclosed, List.flatMap_cons, List.mem_cons]
      cases e with
      | write data => exact ⟨List.append_assoc .., by simp [carry], rfl⟩
      | shutdownWrite => exact ⟨rfl, by simp [carry], rfl⟩
      | queueWriteComplete | queueHighWater | runShutdownInLoop | connectionCb | onMessageCb
      | onCloseCb | logError => exact ⟨rfl, by simp [carry], rfl⟩

end Wire

/-- The two ends, and for each of them the direction that it writes. -/
structure Link where
  conn : Side → TcpConnection
  wire : Side → Wire

inductive LinkAct
  /-- an operation at one end -/
  | op (e : Side) (op : LifeOp)
  /-- `~TcpConnection` at one end, which closes the descriptor -/
  | close (e : Side)

/-- An operation at end `e`. -/
def LinkAct.AtEnd (e : Side) : LinkAct → Prop
  | .op e' _ => e' = e
  | .close _ => False

instance (e : Side) : (a : LinkAct) → Decidable (a.AtEnd e)
  | .op _ _ => inferInstanceAs (Decidable (_ = _))
  | .close _ => inferInstanceAs (Decidable False)

/-- A run of the two ends: each action with the effects of the operation. -/
abbrev LinkTrace := List (Link × (LinkAct × List ConnEffect))

namespace Link

def init (sockfd : Side → ℤ) (writeCompleteCb highWaterCb : Side → Bool)
    (highWaterMark : Side → ℕ) : Link :=
  { conn := fun e =>
      .established (sockfd e) (writeCompleteCb e) (highWaterCb e) (highWaterMark e)
    wire := fun _ => ⟨[], false, false⟩ }

def step (l : Link) : LinkAct → Option (Link × List ConnEffect)
  | .op e op => do
      let (c, effs) ← op.run (l.conn e)
      let wire := Function.update l.wire e (effs.foldl Wire.carry (l.wire e))
      some (⟨Function.update l.conn e c,
        Function.update wire e.other ((l.wire e.other).deliver op.delivered.length)⟩, effs)
  | .close e => do
      assert ((l.conn e).state = .disconnected)
      some ({ l with wire := Function.update l.wire e { l.wire e with closed := true } }, [])

/-- What the kernel answers at an end that writes `out` and reads `inc`. -/
def Answers (out inc : Wire) : LifeOp → Prop
  | .read _ (.delivered data) => data <+: inc.bytes ∧ (data = [] → inc.Ended)
  | .send _ w | .write w => out.shut = true → w = .failed .EPIPE
  | _ => True

/-- The kernel and the user keep to their documentation. -/
def Lawful (l : Link) : LinkAct → Prop
  | .op e op => op.Fits (l.conn e) ∧ Answers (l.wire e) (l.wire e.other) op
  | .close _ => True

instance (out inc : Wire) : (op : LifeOp) → Decidable (Answers out inc op)
  | .read _ (.delivered _) => inferInstanceAs (Decidable (_ ∧ _))
  | .send _ _ | .write _ => inferInstanceAs (Decidable (_ → _))
  | .read _ (.failed _) | .established | .destroyed | .remove | .close | .error | .shutdown
  | .shutdownInLoop | .writeComplete | .highWater _ | .retrieve _ | .setHighWater _ =>
      inferInstanceAs (Decidable True)

instance (l : Link) : (a : LinkAct) → Decidable (l.Lawful a)
  | .op _ _ => inferInstanceAs (Decidable (_ ∧ _))
  | .close _ => inferInstanceAs (Decidable True)

/-- The bytes that an action has to do with at end `e`. -/
def bytesAt (e : Side) (f : LifeOp → List Byte) : LinkAct → List Byte
  | .op e' op => if e' = e then f op else []
  | .close _ => []

/-- The payloads that end `e` has taken on. -/
def accepted (e : Side) (tr : LinkTrace) : List Byte :=
  tr.flatMap fun p => bytesAt e (LifeOp.accepted (p.1.conn e)) p.2.1

/-- What the user at end `e` has taken out of the input buffer. -/
def received (e : Side) (tr : LinkTrace) : List Byte :=
  tr.flatMap fun p => bytesAt e (LifeOp.retrieved (p.1.conn e)) p.2.1

/-- `ShutdownWrite` was called at end `e` while the connection was not closed. -/
def Graceful (e : Side) (tr : LinkTrace) : Prop :=
  ∃ p ∈ tr, p.2.1.AtEnd e ∧ (p.1.conn e).state ≠ .disconnected ∧ .shutdownWrite ∈ p.2.2

instance (e : Side) (tr : LinkTrace) : Decidable (Graceful e tr) :=
  inferInstanceAs (Decidable (∃ _ ∈ _, _))

variable {l l' : Link} {tr : LinkTrace} {effs : List ConnEffect} {d e : Side} {op : LifeOp}

theorem Graceful.snoc {p : Link × (LinkAct × List ConnEffect)} (h : Graceful d tr) :
    Graceful d (tr ++ [p]) := by
  obtain ⟨p', hp', h⟩ := h
  exact ⟨p', List.mem_append_left _ hp', h⟩

theorem graceful_snoc {p : Link × (LinkAct × List ConnEffect)} (h : Graceful d (tr ++ [p])) :
    Graceful d tr ∨
      p.2.1.AtEnd d ∧ (p.1.conn d).state ≠ .disconnected ∧ .shutdownWrite ∈ p.2.2 := by
  obtain ⟨p', hp', h⟩ := h
  rcases List.mem_append.mp hp' with hp' | hp'
  · exact .inl ⟨p', hp', h⟩
  · obtain rfl := List.mem_singleton.mp hp'
    exact .inr h

/-- Everything that was taken on is somewhere on the way, in order. -/
structure Intact (tr : LinkTrace) (l : Link) : Prop where
  line : ∀ d, ∃ q pending, (l.conn d.other).inputBuffer.Holds q ∧
    (l.conn d).Flows (received d.other tr ++ q ++ (l.wire d).bytes) pending (accepted d tr)
  shut : ∀ d, (l.wire d).shut = true → Graceful d tr ∨ (l.conn d).state = .disconnected
  closed : ∀ d, (l.wire d).closed = true → (l.conn d).state = .disconnected
  graceful : ∀ d, Graceful d tr → (l.wire d).shut = true ∧ (l.conn d).outputBuffer.content = []

theorem intact_init (sockfd : Side → ℤ) (wc hw : Side → Bool) (mark : Side → ℕ) :
    Intact [] (init sockfd wc hw mark) where
  line d := by
    have k := TcpConnection.flows_established (sockfd d) (wc d) (hw d) (mark d)
    have k' := TcpConnection.flows_established (sockfd d.other) (wc d.other) (hw d.other)
      (mark d.other)
    exact ⟨[], [], k'.output, k⟩
  shut d h := nomatch h
  closed d h := nomatch h
  graceful d h := by
    obtain ⟨p, hp, -⟩ := h
    exact absurd hp List.not_mem_nil

/-- What an operation at end `e` leaves. -/
theorem step_op (h : l.step (.op e op) = some (l', effs)) :
    ∃ c, op.run (l.conn e) = some (c, effs) ∧ l'.conn e = c ∧
      l'.conn e.other = l.conn e.other ∧ l'.wire e = effs.foldl Wire.carry (l.wire e) ∧
        l'.wire e.other = (l.wire e.other).deliver op.delivered.length := by
  obtain ⟨⟨c, effs'⟩, hrun, h⟩ := Option.bind_eq_some_iff.mp h
  obtain ⟨rfl, rfl⟩ := Prod.mk.inj (Option.some.inj h)
  refine ⟨c, hrun, Function.update_self .., Function.update_of_ne e.other_ne .., ?_,
    Function.update_self ..⟩
  exact (Function.update_of_ne e.other_ne.symm ..).trans (Function.update_self ..)

theorem bytesAt_self (f : LifeOp → List Byte) : bytesAt e f (.op e op) = f op := if_pos rfl

theorem bytesAt_other (f : LifeOp → List Byte) : bytesAt e.other f (.op e op) = [] :=
  if_neg e.other_ne.symm

/-- Bytes that were delivered in front are not on the way any more. -/
theorem deliver_delivered (h : Answers (l.wire e) (l.wire e.other) op) :
    op.delivered ++ ((l.wire e.other).deliver op.delivered.length).bytes =
      (l.wire e.other).bytes := by
  cases op with
  | read extrabuf r =>
      cases r with
      | failed errno => rfl
      | delivered data =>
          obtain ⟨rest, hrest⟩ := h.1
          show data ++ (l.wire e.other).bytes.drop data.length = _
          rw [← hrest, List.drop_left]
  | established | destroyed | remove | close | error | write | send | shutdown | shutdownInLoop
  | writeComplete | highWater | retrieve | setHighWater => rfl

/-- The direction out of the end at which an operation is done. -/
theorem Intact.out (h : Intact tr l) (hok : l.Lawful (.op e op))
    (hst : l.step (.op e op) = some (l', effs)) :
    ∃ q pending, (l'.conn e.other).inputBuffer.Holds q ∧
      (l'.conn e).Flows (received e.other (tr ++ [(l, .op e op, effs)]) ++ q ++ (l'.wire e).bytes)
        pending (accepted e (tr ++ [(l, .op e op, effs)])) := by
  obtain ⟨c, hrun, hc, hother, hwire, -⟩ := step_op hst
  obtain ⟨q, pending, hq, k⟩ := h.line e
  obtain ⟨q', -, hq', -⟩ := h.line e.other
  rw [Side.other_other] at hq'
  obtain ⟨pending', k'⟩ := k.run hq' hok.1 hrun
  refine ⟨q, pending', hother ▸ hq, ?_⟩
  have hbytes := (Wire.carry_foldl (l.wire e) effs).1
  rw [hc, hwire, hbytes, received, accepted, List.flatMap_append, List.flatMap_append,
    List.flatMap_singleton, List.flatMap_singleton, bytesAt_self, bytesAt_other, List.append_nil,
    ← List.append_assoc]
  exact k'

/-- The direction into it. -/
theorem Intact.inc (h : Intact tr l) (hok : l.Lawful (.op e op))
    (hst : l.step (.op e op) = some (l', effs)) :
    ∃ q pending, (l'.conn e).inputBuffer.Holds q ∧
      (l'.conn e.other).Flows
        (received e (tr ++ [(l, .op e op, effs)]) ++ q ++ (l'.wire e.other).bytes)
        pending (accepted e.other (tr ++ [(l, .op e op, effs)])) := by
  obtain ⟨c, hrun, hc, hother, -, hwire⟩ := step_op hst
  obtain ⟨q, pending, hq, k⟩ := h.line e.other
  rw [Side.other_other] at hq k
  obtain ⟨q', hq', hin⟩ := TcpConnection.input_run hq hok.1 hrun
  refine ⟨q', pending, hc ▸ hq', ?_⟩
  have hbytes : received e (tr ++ [(l, .op e op, effs)]) ++ q' ++ (l'.wire e.other).bytes =
      received e tr ++ q ++ (l.wire e.other).bytes := by
    calc received e (tr ++ [(l, .op e op, effs)]) ++ q' ++ (l'.wire e.other).bytes
        = received e tr ++ (op.retrieved (l.conn e) ++ q') ++ (l'.wire e.other).bytes := by
          rw [received, received, List.flatMap_append, List.flatMap_singleton, bytesAt_self,
            List.append_assoc _ _ q']
      _ = received e tr ++ q ++ (op.delivered ++ (l'.wire e.other).bytes) := by
          rw [hin, ← List.append_assoc, List.append_assoc _ op.delivered]
      _ = received e tr ++ q ++ (l.wire e.other).bytes := by
          rw [hwire, deliver_delivered hok.2]
  rw [hbytes, hother, accepted, List.flatMap_append, List.flatMap_singleton, bytesAt_other,
    List.append_nil]
  exact k

theorem Intact.operate (h : Intact tr l) (hok : l.Lawful (.op e op))
    (hst : l.step (.op e op) = some (l', effs)) : Intact (tr ++ [(l, .op e op, effs)]) l' := by
  obtain ⟨c, hrun, hc, hother, hwire, hwire'⟩ := step_op hst
  obtain ⟨-, hshut, hclosed⟩ := Wire.carry_foldl (l.wire e) effs
  obtain ⟨q, pending, hq, k⟩ := h.line e
  obtain ⟨q', -, hq', -⟩ := h.line e.other
  rw [Side.other_other] at hq'
  have hstay : (l.conn e).state = .disconnected → (l'.conn e).state = .disconnected :=
    fun hs => hc ▸ k.stays_closed hs hrun
  refine ⟨fun d => ?_, fun d hd => ?_, fun d hd => ?_, fun d hd => ?_⟩
  · rcases d.eq_or e with rfl | rfl
    · exact h.out hok hst
    · rw [Side.other_other]
      exact h.inc hok hst
  · rcases d.eq_or e with rfl | rfl
    · rcases hshut.mp (hwire ▸ hd) with hd | hd
      · exact (h.shut d hd).imp Graceful.snoc hstay
      · by_cases hs : (l.conn d).state = .disconnected
        · exact .inr (hstay hs)
        · exact .inl ⟨_, List.mem_append_right _ List.mem_cons_self, rfl, hs, hd⟩
    · rw [hother]
      exact (h.shut e.other (by rw [hwire'] at hd; exact hd)).imp Graceful.snoc id
  · rcases d.eq_or e with rfl | rfl
    · exact hstay (h.closed d (hclosed ▸ hwire ▸ hd))
    · rw [hother]
      exact h.closed e.other (by rw [hwire'] at hd; exact hd)
  · rcases graceful_snoc hd with hd | ⟨he, hs, hmem⟩
    · obtain ⟨hsh, hout⟩ := h.graceful d hd
      rcases d.eq_or e with rfl | rfl
      · refine ⟨hwire ▸ hshut.mpr (.inl hsh), ?_⟩
        have hnil : pending = [] := k.output.content_eq.symm.trans hout
        subst hnil
        have hpipe : ∀ w, (∃ buf, op = .send buf w) ∨ op = .write w → w = .failed .EPIPE := by
          rintro w (⟨buf, rfl⟩ | rfl)
          · exact hok.2 hsh
          · exact hok.2 hsh
        rw [hc, k.stays_empty hpipe hrun]
        exact hout
      · rw [hother, hwire']
        exact ⟨hsh, hout⟩
    · obtain rfl : e = d := he
      refine ⟨hwire ▸ hshut.mpr (.inr hmem), ?_⟩
      obtain ⟨pending', k'⟩ := k.run hq' hok.1 hrun
      obtain ⟨hw, hs'⟩ := k.shuts hq' hs hok.1 hrun hmem
      rw [hc, k'.output.content_eq]
      by_contra hne
      exact Bool.false_ne_true (hw.symm.trans (k'.writing.mpr ⟨hs', hne⟩))

theorem Intact.close (h : Intact tr l) (hst : l.step (.close e) = some (l', effs)) :
    Intact (tr ++ [(l, .close e, effs)]) l' := by
  obtain ⟨_, hs, hst⟩ := Option.bind_eq_some_iff.mp hst
  obtain ⟨rfl, rfl⟩ := Prod.mk.inj (Option.some.inj hst)
  have hs := assert_eq_some_iff.mp hs
  have hother : Function.update l.wire e { l.wire e with closed := true } e.other =
      l.wire e.other := Function.update_of_ne e.other_ne ..
  have hwire : ∀ d, (Function.update l.wire e { l.wire e with closed := true } d).bytes =
      (l.wire d).bytes ∧
      (Function.update l.wire e { l.wire e with closed := true } d).shut = (l.wire d).shut := by
    intro d
    rcases d.eq_or e with rfl | rfl
    · rw [Function.update_self]
      exact ⟨rfl, rfl⟩
    · rw [hother]
      exact ⟨rfl, rfl⟩
  refine ⟨fun d => ?_, fun d hd => ?_, fun d hd => ?_, fun d hd => ?_⟩
  · rw [(hwire d).1, received, accepted, List.flatMap_append, List.flatMap_append]
    obtain ⟨q, pending, hq, k⟩ := h.line d
    refine ⟨q, pending, hq, ?_⟩
    show (l.conn d).Flows (received d.other tr ++ [] ++ q ++ _) pending (accepted d tr ++ [])
    rw [List.append_nil, List.append_nil]
    exact k
  · exact (h.shut d ((hwire d).2 ▸ hd)).imp Graceful.snoc id
  · rcases d.eq_or e with rfl | rfl
    · exact hs
    · exact h.closed _ (congrArg Wire.closed hother ▸ hd)
  · rcases graceful_snoc hd with hd | ⟨he, -, -⟩
    · obtain ⟨hsh, hout⟩ := h.graceful d hd
      exact ⟨(hwire d).2.trans hsh, hout⟩
    · exact he.elim

theorem intact_of_run {sockfd : Side → ℤ} {wc hw : Side → Bool} {mark : Side → ℕ}
    (hr : Run (stepOut step) (init sockfd wc hw mark) tr l)
    (hok : ∀ p ∈ tr, Lawful p.1 p.2.1) : Intact tr l := by
  refine hr.invariant_trace (I := Intact) (G := fun l a => l.Lawful a.1) hok
    (intact_init sockfd wc hw mark) ?_
  rintro tr t ⟨a, effs⟩ u h hok hst
  cases a with
  | op e op => exact h.operate hok hst
  | close e => exact h.close hst

/-- In every run of the two ends, whatever one end has taken on is, in this order, with the user
at the other end, in his input buffer, on the way, or in the output buffer: nothing is lost,
doubled or reordered in either direction, also when a connection has been closed. -/
theorem received_in_order {sockfd : Side → ℤ} {wc hw : Side → Bool} {mark : Side → ℕ}
    (hr : Run (stepOut step) (init sockfd wc hw mark) tr l)
    (hok : ∀ p ∈ tr, Lawful p.1 p.2.1) (e : Side) :
    received e.other tr ++ (l.conn e.other).inputBuffer.content ++ (l.wire e).bytes ++
      (l.conn e).outputBuffer.content = accepted e tr := by
  obtain ⟨q, pending, hq, k⟩ := (intact_of_run hr hok).line e
  rw [hq.content_eq, k.output.content_eq]
  exact k.stream

/-- When end `e` is told that the stream has ended, all bytes that were on the way have come.
After a `ShutdownWrite` of the other end all that it has taken on is there; without one its
connection is closed, and what was in its output buffer then is what is missing. -/
theorem end_after_everything {sockfd : Side → ℤ} {wc hw : Side → Bool} {mark : Side → ℕ}
    (hr : Run (stepOut step) (init sockfd wc hw mark) tr l)
    (hok : ∀ p ∈ tr, Lawful p.1 p.2.1) {extrabuf : Vector Byte Buffer.extrabufSize}
    (hend : l.Lawful (.op e (.read extrabuf (.delivered [])))) :
    received e tr ++ (l.conn e).inputBuffer.content ++ (l.conn e.other).outputBuffer.content =
        accepted e.other tr ∧
      (Graceful e.other tr →
        received e tr ++ (l.conn e).inputBuffer.content = accepted e.other tr) ∧
      (¬ Graceful e.other tr → (l.conn e.other).state = .disconnected) := by
  have h := intact_of_run hr hok
  obtain ⟨q, pending, hq, k⟩ := h.line e.other
  rw [Side.other_other] at hq k
  obtain ⟨hnil, hended⟩ := hend.2.2 rfl
  have hstream := k.stream
  rw [hnil, List.append_nil] at hstream
  rw [hq.content_eq, k.output.content_eq]
  refine ⟨hstream, fun hg => ?_, fun hg => ?_⟩
  · obtain rfl : pending = [] := k.output.content_eq.symm.trans (h.graceful _ hg).2
    exact (List.append_nil _).symm.trans hstream
  · rcases hended with hs | hs
    · exact (h.shut _ hs).resolve_left hg
    · exact h.closed _ hs

/-- A payload goes out in two writes, and its end is shut down. -/
def sentAndShut : List LinkAct :=
  [.op .near (.send [1, 2, 3] (.wrote 1)), .op .far (.read (Vector.replicate _ 0) (.delivered [1])),
    .op .near .shutdown, .op .near .shutdownInLoop, .op .far (.retrieve 1),
    .op .near (.write (.wrote 2)), .op .far (.read (Vector.replicate _ 0) (.delivered [2, 3]))]

theorem sentAndShut_in_order : ∃ tr l,
    runOut step (init (fun _ => 5) (fun _ => true) (fun _ => false) (fun _ => 0))
      (sentAndShut.take 6) = some (tr, l) ∧ accepted .near tr = [1, 2, 3] ∧
      received .far tr ++ (l.conn .far).inputBuffer.content ++ (l.wire .near).bytes ++
        (l.conn .near).outputBuffer.content = [1, 2, 3] := by
  obtain ⟨tr, l, hrun, hok, hacc⟩ : ∃ tr l,
      runOut step (init (fun _ => 5) (fun _ => true) (fun _ => false) (fun _ => 0))
        (sentAndShut.take 6) = some (tr, l) ∧ (∀ p ∈ tr, Lawful p.1 p.2.1) ∧
          accepted .near tr = [1, 2, 3] :=
    exists_computed (by decide +kernel)
  exact ⟨tr, l, hrun, hacc, (received_in_order (run_of_runOut hrun) hok .near).trans hacc⟩

theorem sentAndShut_ended : ∃ tr l,
    runOut step (init (fun _ => 5) (fun _ => true) (fun _ => false) (fun _ => 0)) sentAndShut =
      some (tr, l) ∧ l.Lawful (.op .far (.read (Vector.replicate _ 0) (.delivered []))) ∧
      Graceful .near tr ∧ received .far tr ++ (l.conn .far).inputBuffer.content = [1, 2, 3] := by
  obtain ⟨tr, l, hrun, hok, hend, hg, hacc⟩ : ∃ tr l,
      runOut step (init (fun _ => 5) (fun _ => true) (fun _ => false) (fun _ => 0)) sentAndShut =
        some (tr, l) ∧ (∀ p ∈ tr, Lawful p.1 p.2.1) ∧
        l.Lawful (.op .far (.read (Vector.replicate _ 0) (.delivered []))) ∧
        Graceful .near tr ∧ accepted .near tr = [1, 2, 3] :=
    exists_computed (by decide +kernel)
  exact ⟨tr, l, hrun, hend, hg,
    ((end_after_everything (run_of_runOut hrun) hok hend).2.1 hg).trans hacc⟩

end Link

end Muduo
