/-
# `Muduo.Client.Attempts` — a connection or an attempt, and one of them at most

A client drives its connector in four places: `Connect`, `Stop` (also from
`~TcpClient`), and `HandleRemoveConnection`, which calls `Restart`.  The callback
of the connector overwrites `connection_`, and nothing in the client looks
whether there is one.

    the connector            the client
    seeking                  no connection
    delivers a descriptor    sets a connection up
    kConnected               has it, takes it down, or has lost it

In a run in which nothing is launched while an attempt is under way the client
drives its connector (`drives`) as `Connector.Attempts` wants it, and has a
connection only when its connector has done seeking (`one_connection`).
-/
import Muduo.Client.Control
import Muduo.Connector.Attempts

namespace Muduo

open Runs

namespace Connector

variable {c c' : Connector} {a : ConnectorAct}

/-- What may still lead to a connection. -/
def seeking (c : Connector) : ℕ :=
  c.timers.length + c.starts + c.tasks.count .startInLoop + launches c.frames +
    if c.waiting then 1 else 0

/-- The attempt has delivered its descriptor. -/
def Settled (c : Connector) : Prop := c.opState ≠ .kDisconnected ∧ c.waiting = false

/-- A connector on which just these steps were made, launched only while no attempt was
under way. -/
def Driven (acts : List ConnectorAct) (c : Connector) : Prop :=
  ∃ tr, Run (stepOf step) init tr c ∧ tr.map Prod.snd = acts ∧ ∀ p ∈ tr, OneAtATime p.1 p.2

theorem driven_init : init.Driven [] := ⟨[], .nil, rfl, List.forall_mem_nil _⟩

theorem Driven.step {acts : List ConnectorAct} (h : c.Driven acts) (hg : c.OneAtATime a)
    (hst : c.step a = some c') : c'.Driven (acts ++ [a]) := by
  obtain ⟨tr, hr, hacts, hok⟩ := h
  exact ⟨_, hr.snoc hst, by rw [List.map_append, hacts]; rfl, forall_snoc.mpr ⟨hok, hg⟩⟩

theorem Driven.single {acts : List ConnectorAct} (h : c.Driven acts) :
    c.WellFormed ∧ c.Single := by
  obtain ⟨tr, hr, -, hok⟩ := h
  exact hr.invariant_of (I := fun c => c.WellFormed ∧ c.Single) hok
    ⟨wellFormed_init, single_init⟩ fun h hg hst =>
      ⟨h.1.step (steps_of_step hst), h.2.step h.1 hg (steps_of_step hst)⟩

theorem attempt_of_waiting (h : c.waiting = true) : c.opState.attempt = 1 := by
  have ho : c.opState = .kConnecting := by
    by_contra hne
    exact Bool.noConfusion ((waiting_eq_false hne).symm.trans h)
  rw [ho]
  rfl

/-- A connector that has settled does not seek. -/
theorem Single.seeking_of_settled (h : c.Single) (hs : c.Settled) : c.seeking = 0 := by
  have hle := h.attempts
  have hone : c.opState.attempt = 1 := by
    cases ho : c.opState with
    | kDisconnected => exact absurd ho hs.1
    | kConnecting | kConnected => rfl
  simp only [Connector.attempts] at hle
  rw [seeking, hs.2, if_neg Bool.false_ne_true]
  omega

theorem Single.seeking_le (h : c.Single) : c.seeking ≤ 1 := by
  have hle := h.attempts
  simp only [Connector.attempts] at hle
  unfold seeking
  split
  · next hw =>
      have hone := attempt_of_waiting hw
      omega
  · omega

theorem settled_of_kConnected (h : c.opState = .kConnected) : c.Settled :=
  ⟨fun ho => OpState.noConfusion (h.symm.trans ho), waiting_eq_false fun ho =>
    OpState.noConfusion (h.symm.trans ho)⟩

/-- Between two frames of the loop thread only `kConnected` is settled. -/
theorem Settled.kConnected (hs : c.Settled) (hf : c.frames = []) : c.opState = .kConnected := by
  cases ho : c.opState with
  | kDisconnected => exact absurd ho hs.1
  | kConnected => rfl
  | kConnecting =>
      have hw := hs.2
      simp [waiting, ho, hf] at hw

/-- Only `Restart` unsettles a connector. -/
theorem Settled.step (w : c.WellFormed) (hs : c.Settled) (ha : a ≠ .restart)
    (h : Steps c a c') : c'.Settled := by
  have hsh := w.shape
  have hw := hs.2
  -- the loop thread is as much in `cb_` as before
  have hkeep : ∀ c' : Connector, c'.opState = c.opState →
      c'.frames.any ConnectorFrame.isDelivering = c.frames.any ConnectorFrame.isDelivering →
        c'.Settled := by
    intro c' ho hany
    refine ⟨ho ▸ hs.1, ?_⟩
    rw [waiting, ho, hany]
    exact hw
  cases h with
  | restart => exact absurd rfl ha
  | startInline | startOther | enqueue | stop | runReset => exact hkeep _ rfl rfl
  | event _ hf | timer _ hf | runStart _ hf => exact hkeep _ rfl (by rw [hf]; rfl)
  | givenUp _ _ _ _ ho | connecting _ _ _ _ ho | refused _ _ _ _ ho | failed _ _ _ _ ho =>
      exact absurd ho hs.1
  | armed _ _ _ _ hf | notArmed _ _ _ hf | handled _ _ _ hf | ignored _ _ _ _ _ hf =>
      exact hkeep _ rfl (by rw [hf]; rfl)
  | delivered => exact settled_of_kConnected rfl
  | broken _ _ _ _ _ _ hf ho | succeeded _ _ _ _ _ _ hf ho | stopped _ _ _ _ _ _ hf ho =>
      rw [hf] at hsh
      obtain rfl := hsh.of_handlers
      simp [waiting, hf, ho, ConnectorFrame.isDelivering] at hw

/-- A descriptor is delivered by an attempt that was waiting, and settles it. -/
theorem settled_of_delivered (w : c.WellFormed) (h : Steps c a c')
    (hd : c'.delivered ≠ c.delivered) : ¬ c.Settled ∧ c'.Settled := by
  cases h with
  | succeeded r e h hs fs ch hf ho =>
      have hsh := w.shape
      rw [hf] at hsh
      obtain rfl := hsh.of_handlers
      constructor
      · intro hst
        have hw := hst.2
        simp [waiting, hf, ho, ConnectorFrame.isDelivering] at hw
      · refine ⟨fun hne => OpState.noConfusion (ho.symm.trans hne), ?_⟩
        simp [waiting, ConnectorFrame.isDelivering]
  | _ => exact absurd rfl hd

end Connector

namespace TcpClient

variable {s s' : TcpClient} {a : ClientAct} {acts : List ConnectorAct}

/-- The connections of a client: the one that it has, and the one that it takes down. -/
def links (s : TcpClient) : ℕ := s.connection.isSome.toNat + s.removing.isSome.toNat

/-- The connector is launched only while no attempt is under way. -/
def OneAtATime (s : TcpClient) : ClientAct → Prop
  | .connect onLoop => s.connector.OneAtATime (.start onLoop)
  | .connector a => s.connector.OneAtATime a
  | .reconnect => s.doConnect = true → s.retry = true → s.connector.OneAtATime .restart
  | .shutdown | .stop | .enableRetry | .destroy | .conn _ => True

instance (s : TcpClient) : (a : ClientAct) → Decidable (s.OneAtATime a)
  | .connect onLoop => inferInstanceAs (Decidable (s.connector.OneAtATime (.start onLoop)))
  | .connector a => inferInstanceAs (Decidable (s.connector.OneAtATime a))
  | .reconnect => inferInstanceAs (Decidable (_ → _))
  | .shutdown | .stop | .enableRetry | .destroy | .conn _ => inferInstanceAs (Decidable True)

/-- What `Stop` does with the connector. -/
def stops (s : TcpClient) : List ConnectorAct := if s.doConnect then [.stop] else []

/-- The steps of the connector in a step of its client. -/
def drives (s : TcpClient) : ClientAct → List ConnectorAct
  | .connect onLoop => [.start onLoop]
  | .connector a => [a]
  | .stop => s.stops
  | .destroy => if s.connection.isSome then [] else s.stops
  | .reconnect => if s.doConnect && s.retry then [.restart] else []
  | .shutdown | .enableRetry | .conn _ => []

/-- A client has one connection at most, and only when its connector, on which these steps
were made, has settled. -/
structure Linked (acts : List ConnectorAct) (s : TcpClient) : Prop where
  driven : s.connector.Driven acts
  links_le : s.links ≤ 1
  settled : 0 < s.links → s.connector.Settled

theorem linked_init (writeCompleteCb : Bool) : (init writeCompleteCb).Linked [] :=
  ⟨Connector.driven_init, Nat.zero_le _, fun h => absurd h (lt_irrefl 0)⟩

/-! ## What a step does to the connections -/

/-- A step that only may lose a connection. -/
theorem Linked.same (h : s.Linked acts) (hc : s'.connector = s.connector)
    (hl : s'.links ≤ s.links) : s'.Linked (acts ++ []) where
  driven := by rw [List.append_nil, hc]; exact h.driven
  links_le := hl.trans h.links_le
  settled hpos := hc ▸ h.settled (lt_of_lt_of_le hpos hl)

/-- A step of the connector that sets no connection up. -/
theorem Linked.drive (h : s.Linked acts) {a : ConnectorAct} (hg : s.connector.OneAtATime a)
    (ha : a ≠ .restart) (hst : s.connector.step a = some s'.connector) (hl : s'.links ≤ s.links) :
    s'.Linked (acts ++ [a]) where
  driven := h.driven.step hg hst
  links_le := hl.trans h.links_le
  settled hpos :=
    (h.settled (lt_of_lt_of_le hpos hl)).step h.driven.single.1 ha (Connector.steps_of_step hst)

theorem connectorStep_links {a : ConnectorAct} (h : s.connectorStep a = some s') :
    s.connector.step a = some s'.connector ∧ s'.removing = s.removing ∧
      (s'.connection = s.connection ∨ s'.connector.delivered ≠ s.connector.delivered) := by
  simp only [connectorStep, Option.bind_eq_bind, Option.bind_eq_some_iff] at h
  obtain ⟨connector, hst, h⟩ := h
  split at h
  next => exact Option.some.inj h ▸ ⟨hst, rfl, .inl rfl⟩
  next fd fds hdrop =>
    split at h
    · simp only [handleConnectSuccessfully, Option.bind_eq_bind, Option.bind_eq_some_iff] at h
      obtain ⟨c, -, ⟨c', effects⟩, -, h⟩ := h
      obtain rfl := Option.some.inj h
      refine ⟨hst, rfl, .inr fun heq => ?_⟩
      rw [show connector.delivered = s.connector.delivered from heq, List.drop_length] at hdrop
      exact absurd hdrop.symm (List.cons_ne_nil _ _)
    · exact Option.some.inj h ▸ ⟨hst, rfl, .inl rfl⟩

/-- A connection is set up when there is none, not even one that is being taken down. -/
theorem Linked.unlinked (h : s.Linked acts) {a : ConnectorAct} (hst : s.connectorStep a = some s')
    (hd : s'.connector.delivered ≠ s.connector.delivered) :
    s.links = 0 ∧ s'.connector.Settled := by
  obtain ⟨hst, -, -⟩ := connectorStep_links hst
  obtain ⟨hnot, hset⟩ :=
    Connector.settled_of_delivered h.driven.single.1 (Connector.steps_of_step hst) hd
  exact ⟨Nat.eq_zero_of_not_pos fun hpos => hnot (h.settled hpos), hset⟩

theorem Linked.connector (h : s.Linked acts) {a : ConnectorAct} (hg : s.connector.OneAtATime a)
    (ha : a.ofLoop = true) (hst : s.connectorStep a = some s') : s'.Linked (acts ++ [a]) := by
  have hun := h.unlinked hst
  obtain ⟨hst, hrem, hcon⟩ := connectorStep_links hst
  have hne : a ≠ .restart := by
    rintro rfl
    exact Bool.noConfusion ha
  rcases hcon with hcon | hd
  · exact h.drive hg hne hst (by rw [links, links, hcon, hrem])
  · obtain ⟨hzero, hset⟩ := hun hd
    have hnone : s.removing.isSome.toNat = 0 := by
      rw [links] at hzero
      omega
    refine ⟨h.driven.step hg hst, ?_, fun _ => hset⟩
    rw [links, hrem, hnone]
    exact Bool.toNat_le _

theorem Linked.conn (h : s.Linked acts) {op : ConnOp} (hidle : s.idle = true)
    (hst : s.connStep op = some s') : s'.Linked (acts ++ []) := by
  have hrem : s.removing = none := by
    have hboth := of_decide_eq_true hidle
    exact Option.isNone_iff_eq_none.mp hboth.2
  simp only [connStep, Option.bind_eq_bind, Option.bind_eq_some_iff] at hst
  obtain ⟨c, hc, ⟨c', effects⟩, -, hst⟩ := hst
  split at hst
  · obtain rfl := Option.some.inj hst
    exact h.same rfl (by simp [links, handleRemoveConnection, hc, hrem])
  · obtain rfl := Option.some.inj hst
    exact h.same rfl (by simp [links, hc])

/-- The connection that is taken down is the only one, and the connector is `kConnected`. -/
theorem Linked.kConnected (h : s.Linked acts) (hf : s.connector.frames = [])
    (hst : s.reconnect = some s') : s.connector.opState = .kConnected ∧ s.connection = none := by
  simp only [TcpClient.reconnect, Option.bind_eq_bind, Option.bind_eq_some_iff] at hst
  obtain ⟨c, hc, -⟩ := hst
  have hlinks : s.links = s.connection.isSome.toNat + 1 := by rw [links, hc]; rfl
  have hle := h.links_le
  refine ⟨(h.settled (by omega)).kConnected hf, ?_⟩
  cases hcon : s.connection with
  | none => rfl
  | some _ =>
      rw [hcon, Option.isSome_some, Bool.toNat_true] at hlinks
      omega

/-- `Restart` comes when the connection is gone, and finds `kConnected`. -/
theorem Linked.reconnect (h : s.Linked acts) (hf : s.connector.frames = [])
    (hg : s.OneAtATime .reconnect) (hst : s.reconnect = some s') :
    s'.Linked (acts ++ s.drives .reconnect) := by
  obtain ⟨hcon, hnone⟩ := h.kConnected hf hst
  simp only [TcpClient.reconnect, Option.bind_eq_bind, Option.bind_eq_some_iff] at hst
  obtain ⟨c, hc, -, -, hst⟩ := hst
  simp only [drives]
  split at hst
  · next hd =>
      obtain ⟨hdo, hre⟩ := (Bool.and_eq_true _ _).mp hd
      obtain rfl := Option.some.inj hst
      have hzero : links { s with removing := none, connector := s.connector.restart } = 0 := by
        rw [links, hnone]
        rfl
      have hrestart : s.connector.step .restart = some s.connector.restart :=
        guard_bind_eq_some_iff.mpr ⟨⟨hf, hcon⟩, rfl⟩
      rw [if_pos hd]
      refine ⟨h.driven.step (hg hdo hre) hrestart, hzero.le.trans (Nat.zero_le _), ?_⟩
      intro hpos
      exact absurd hzero hpos.ne'
  · next hd =>
      obtain rfl := Option.some.inj hst
      rw [if_neg hd]
      exact h.same rfl (by simp [links])

theorem Linked.stop (h : s.Linked acts) : s.stop.Linked (acts ++ s.stops) := by
  unfold TcpClient.stop stops
  cases s.doConnect with
  | true => exact h.drive (a := .stop) trivial ConnectorAct.noConfusion rfl le_rfl
  | false => exact h.same rfl le_rfl

theorem Linked.step (h : s.Linked acts) (hg : s.OneAtATime a) (hst : s.step a = some s') :
    s'.Linked (acts ++ s.drives a) := by
  cases a with
  | connect onLoop =>
      obtain ⟨-, hst⟩ := guard_bind_eq_some_iff.mp hst
      simp only [connect, Option.bind_eq_bind, Option.bind_eq_some_iff] at hst
      obtain ⟨connector, hstart, hst⟩ := hst
      obtain rfl := Option.some.inj hst
      exact h.drive (a := .start onLoop) hg ConnectorAct.noConfusion hstart le_rfl
  | shutdown =>
      obtain ⟨-, hst⟩ := guard_bind_eq_some_iff.mp hst
      obtain rfl := Option.some.inj hst
      unfold shutdown
      split
      · exact h.same rfl (by simp [links])
      · exact h.same rfl le_rfl
  | stop =>
      obtain ⟨-, hst⟩ := guard_bind_eq_some_iff.mp hst
      exact Option.some.inj hst ▸ h.stop
  | enableRetry =>
      obtain ⟨-, hst⟩ := guard_bind_eq_some_iff.mp hst
      exact Option.some.inj hst ▸ h.same rfl le_rfl
  | destroy =>
      obtain ⟨-, hst⟩ := guard_bind_eq_some_iff.mp hst
      obtain rfl := Option.some.inj hst
      simp only [TcpClient.destroy, drives]
      split
      · exact h.same rfl (by simp [links])
      · rw [← List.append_nil (acts ++ s.stops)]
        exact h.stop.same rfl le_rfl
  | connector a =>
      obtain ⟨⟨ha, -⟩, hst⟩ := guard_bind_eq_some_iff.mp hst
      exact h.connector hg ha hst
  | conn op =>
      obtain ⟨⟨-, hidle⟩, hst⟩ := guard_bind_eq_some_iff.mp hst
      exact h.conn hidle hst
  | reconnect =>
      obtain ⟨hf, hst⟩ := guard_bind_eq_some_iff.mp hst
      exact h.reconnect hf hg hst

theorem linked_of_run {writeCompleteCb : Bool} {tr : List (TcpClient × ClientAct)}
    (hr : Run (stepOf step) (init writeCompleteCb) tr s)
    (hok : ∀ p ∈ tr, p.1.OneAtATime p.2) : s.Linked (tr.flatMap fun p => p.1.drives p.2) := by
  refine hr.invariant_trace (I := fun tr s => s.Linked (tr.flatMap fun p => p.1.drives p.2)) hok
    (linked_init _) fun {tr t a u} h hg hst => ?_
  rw [List.flatMap_append, List.flatMap_singleton]
  exact h.step hg hst

theorem Linked.at_most_one (h : s.Linked acts) : s.links + s.connector.seeking ≤ 1 := by
  have hsingle := h.driven.single.2
  rcases Nat.eq_zero_or_pos s.links with hzero | hpos
  · rw [hzero, Nat.zero_add]
    exact hsingle.seeking_le
  · rw [hsingle.seeking_of_settled (h.settled hpos)]
    exact h.links_le

/-- In a run in which nothing is launched while an attempt is under way, the steps that a
client makes with its connector are such a run of the connector; it has a connection, is
taking one down, or seeks one: one of these at most, and once.  The assertion of `Restart`
holds, and `HandleConnectSuccessfully` finds no connection to overwrite. -/
theorem one_connection {writeCompleteCb : Bool} {tr : List (TcpClient × ClientAct)}
    (hr : Run (stepOf step) (init writeCompleteCb) tr s)
    (hok : ∀ p ∈ tr, p.1.OneAtATime p.2) :
    (∃ ctr, Run (stepOf Connector.step) .init ctr s.connector ∧
      ctr.map Prod.snd = tr.flatMap (fun p => p.1.drives p.2) ∧
        ∀ p ∈ ctr, Connector.OneAtATime p.1 p.2) ∧
      s.links + s.connector.seeking ≤ 1 ∧
        (∀ s', s.step .reconnect = some s' → s.connector.opState = .kConnected) ∧
          ∀ a s', s.step (.connector a) = some s' →
            s'.connector.delivered ≠ s.connector.delivered → s.links = 0 := by
  have hlinked := linked_of_run hr hok
  refine ⟨hlinked.driven, hlinked.at_most_one, fun s' hst => ?_, fun a s' hst hd => ?_⟩
  · obtain ⟨hf, hst⟩ := guard_bind_eq_some_iff.mp hst
    exact (hlinked.kConnected hf hst).1
  · obtain ⟨-, hst⟩ := guard_bind_eq_some_iff.mp hst
    exact (hlinked.unlinked hst hd).1

/-- A client that loses its connection, and gets another one. -/
def lostAndFound : List ClientAct :=
  [.enableRetry, .connect true, .connector (.loop .EINPROGRESS 0), .connector (.event POLLOUT),
    .connector (.loop .ok 0), .connector (.loop .ok 0), .connector (.loop .ok 0),
    .connector .task, .conn .handleClose, .reconnect, .connector (.loop .EINPROGRESS 0),
    .connector (.event POLLOUT), .connector (.loop .ok 0)]

theorem lostAndFound_one : ∃ tr s, runAll step (init false) lostAndFound = some (tr, s) ∧
    s.connector.delivered = [0, 1] ∧ s.links = 1 ∧ s.links + s.connector.seeking ≤ 1 := by
  obtain ⟨tr, s, hrun, hok, hd, hl⟩ : ∃ tr s,
      runAll step (init false) lostAndFound = some (tr, s) ∧ (∀ p ∈ tr, p.1.OneAtATime p.2) ∧
        s.connector.delivered = [0, 1] ∧ s.links = 1 :=
    exists_computed (by decide +kernel)
  exact ⟨tr, s, hrun, hd, hl, (one_connection (run_of_runAll hrun) hok).2.1⟩

end TcpClient

end Muduo
