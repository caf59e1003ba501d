/-
# `Muduo.Poller.Interest` — does poll(2) watch what the channels ask for?

A registered channel without events has its entry in the ignored form.  The form
is taken back by nothing: `UpdateChannel` writes `pfd->fd` only when it mutes an
entry.  So the entries show the interest of the channels after every call of a
run exactly when the run never switches events on for a registered channel that
has none (`interest_shown_iff`); a run that does is at the end.
-/
import Muduo.Poller.Active

namespace Muduo

open BinHeap IndexMap Function Runs

/-- The functions of `Channel` that change its interest. -/
inductive Interest
  | enableReading | enableWriting | disableWriting | disableAllEvents
deriving DecidableEq, Repr

namespace Interest

/-- The channel before the `Update()` that ends each of them. -/
def apply : Interest → Channel → Channel
  | .enableReading => Channel.enableReading
  | .enableWriting => Channel.enableWriting
  | .disableWriting => Channel.disableWriting
  | .disableAllEvents => Channel.disableAllEvents

/-- Whether it switches events on. -/
def enables : Interest → Bool
  | .enableReading | .enableWriting => true
  | .disableWriting | .disableAllEvents => false

/-- The interests a channel can have. -/
def masks : List (BitVec 32) := [kNoneEvent, kReadEvent, kWriteEvent, kReadEvent ||| kWriteEvent]

variable {i : Interest} {chan : Channel}

theorem apply_masks (h : chan.events ∈ masks) : (i.apply chan).events ∈ masks := by
  have hall : ∀ e ∈ masks, e ||| kReadEvent ∈ masks ∧ e ||| kWriteEvent ∈ masks ∧
      e &&& ~~~kWriteEvent ∈ masks ∧ kNoneEvent ∈ masks := by
    simp [masks, kNoneEvent, kReadEvent, kWriteEvent, POLLIN, POLLPRI, POLLRDHUP, POLLOUT]
  obtain ⟨h₁, h₂, h₃, h₄⟩ := hall _ h
  cases i with
  | enableReading => exact h₁
  | enableWriting => exact h₂
  | disableWriting => exact h₃
  | disableAllEvents => exact h₄

theorem apply_ne_none (h : chan.events ∈ masks) (hi : i.enables = true) :
    (i.apply chan).events ≠ kNoneEvent := by
  have hall : ∀ e ∈ masks, e ||| kReadEvent ≠ kNoneEvent ∧ e ||| kWriteEvent ≠ kNoneEvent := by
    simp [masks, kNoneEvent, kReadEvent, kWriteEvent, POLLIN, POLLPRI, POLLRDHUP, POLLOUT]
  cases i with
  | enableReading => exact (hall _ h).1
  | enableWriting => exact (hall _ h).2
  | disableWriting | disableAllEvents => exact absurd hi (by decide)

/-- Switching off leaves a channel without events without events. -/
theorem apply_none (h : chan.events = kNoneEvent) (hi : i.enables = false) :
    (i.apply chan).events = kNoneEvent := by
  cases i with
  | enableReading | enableWriting => exact absurd hi (by decide)
  | disableWriting =>
      show chan.events &&& ~~~kWriteEvent = kNoneEvent
      simp [h, kNoneEvent]
  | disableAllEvents => rfl

/-- An interest fits the `short` of a `pollfd`. -/
theorem fits_short {e : BitVec 32} (h : e ∈ masks) : (e.setWidth 16).signExtend 32 = e := by
  have hall : ∀ e ∈ masks, (e.setWidth 16).signExtend 32 = e := by
    simp [masks, kNoneEvent, kReadEvent, kWriteEvent, POLLIN, POLLPRI, POLLRDHUP, POLLOUT]
  exact hall e h

end Interest

/-- The calls that channels make on their poller. -/
inductive ChannelOp (P : Type)
  | interest (c : P) (i : Interest)
  | remove (c : P)

namespace PollSession

variable {P : Type} [DecidableEq P]

/-- One call of a channel. -/
def channelExec (s : PollSession P) : ChannelOp P → Option (PollSession P)
  | .interest c i => s.exec (.updateChannel c (i.apply (s.poller.objs c)).events)
  | .remove c => do
      assert ((s.poller.objs c).isNoneEvent)
      s.exec (.removeChannel c)

/-- A channel is registered by switching events on, and used while it is
registered; it is removed with no events left. -/
def Used (s : PollSession P) : ChannelOp P → Prop
  | .interest c i => c ∈ s.registered ∨ (s.poller.objs c).index < 0 ∧ i.enables = true
  | .remove c => c ∈ s.registered ∧ (s.poller.objs c).isNoneEvent = true

/-- The call does not switch events on for a registered channel that has none. -/
def LeavesMuted (s : PollSession P) : ChannelOp P → Prop
  | .interest c i =>
      i.enables = true → c ∈ s.registered → (s.poller.objs c).events ≠ kNoneEvent
  | .remove _ => True

/-- A channel that the call registers has a descriptor that is not taken. -/
def Unused (s : PollSession P) : ChannelOp P → Prop
  | .interest c _ =>
      c ∉ s.registered → s.poller.channels.find (s.poller.objs c).fd = none
  | .remove _ => True

instance (s : PollSession P) : (op : ChannelOp P) → Decidable (s.Used op)
  | .interest _ _ => inferInstanceAs (Decidable (_ ∨ _))
  | .remove _ => inferInstanceAs (Decidable (_ ∧ _))

instance (s : PollSession P) : (op : ChannelOp P) → Decidable (s.Unused op)
  | .interest _ _ => inferInstanceAs (Decidable (_ → _))
  | .remove _ => inferInstanceAs (Decidable True)

instance (s : PollSession P) : (op : ChannelOp P) → Decidable (s.LeavesMuted op)
  | .interest _ _ => inferInstanceAs (Decidable (_ → _ → _))
  | .remove _ => inferInstanceAs (Decidable True)

/-- The entry for a channel on `fd` that is interested in `ev`: it has both, or
is ignored if there is no interest. -/
def Shows (fd : ℤ) (ev : BitVec 32) (p : Pollfd) : Prop :=
  if ev = kNoneEvent then p.fd = -fd - 1 else p.fd = fd ∧ p.events.signExtend 32 = ev

/-- Every registered channel is shown. -/
def InterestShown (s : PollSession P) : Prop :=
  ∀ c ∈ s.registered, ∃ p, s.poller.entryOf c = some p ∧
    Shows (s.poller.objs c).fd (s.poller.objs c).events p

/-! ## Every call -/

/-- What holds in every run: the events of an entry are those of its channel,
and an entry without events is ignored. -/
structure Mirrors (fd : P → ℤ) (s : PollSession P) (cs : List P) : Prop where
  tracks : Tracks fd s cs
  masks : ∀ c, (s.poller.objs c).events ∈ Interest.masks
  entries : ∀ c ∈ cs, ∃ p, s.poller.entryOf c = some p ∧
    p.events.signExtend 32 = (s.poller.objs c).events ∧
    ((s.poller.objs c).events = kNoneEvent → p.fd = -fd c - 1)

variable {fd : P → ℤ} {s s' : PollSession P} {cs : List P} {c : P} {i : Interest}

theorem mirrors_init (h : ∀ c, 0 ≤ fd c) : Mirrors fd (init fd) [] :=
  ⟨tracks_init h, fun _ => List.mem_cons_self, fun _ hc => absurd hc List.not_mem_nil⟩

theorem interestShown_iff (k : Tracks fd s cs) : s.InterestShown ↔
    ∀ c ∈ cs, ∃ p, s.poller.entryOf c = some p ∧ Shows (fd c) (s.poller.objs c).events p := by
  simp only [InterestShown, k.mem_iff, k.fds]

/-- Where the descriptors differ, none is taken. -/
theorem Mirrors.find_none (m : Mirrors fd s cs) (hinj : Injective fd) (hc : c ∉ cs) :
    s.poller.channels.find (s.poller.objs c).fd = none := by
  rw [Option.eq_none_iff_forall_ne_some]
  intro d hd
  have hdc : d = c := by
    have := m.tracks.table.key hd
    rw [m.tracks.fds, m.tracks.fds] at this
    exact hinj this
  exact hc (m.tracks.table.mem_iff.mpr (hdc ▸ hd))

/-- Events after the interest of `c` has become `ev`. -/
theorem Mirrors.masks_of (m : Mirrors fd s cs) {ev : BitVec 32} (hev : ev ∈ Interest.masks)
    (h : ∀ d, (s'.poller.objs d).events = if d = c then ev else (s.poller.objs d).events) :
    ∀ d, (s'.poller.objs d).events ∈ Interest.masks := by
  intro d
  rw [h d]
  split
  · exact hev
  · exact m.masks d

/-- A channel is registered by switching events on, and is shown. -/
theorem Mirrors.register (m : Mirrors fd s cs) (hc : c ∉ cs)
    (hnone : s.poller.channels.find (s.poller.objs c).fd = none)
    (hidx : (s.poller.objs c).index < 0) (hi : i.enables = true) :
    ∃ s' cs', s.channelExec (.interest c i) = some s' ∧ Mirrors fd s' cs' ∧
      (s.InterestShown → s'.InterestShown) := by
  obtain ⟨s', e, k', hev, hnew, hold⟩ := m.tracks.add hidx hnone
    (i.apply (s.poller.objs c)).events
  have hmask := Interest.apply_masks (i := i) (m.masks c)
  have hne := Interest.apply_ne_none (m.masks c) hi
  have hfit := Interest.fits_short hmask
  have hevc : (s'.poller.objs c).events = (i.apply (s.poller.objs c)).events := by
    rw [hev, if_pos rfl]
  have hevd : ∀ d ∈ cs, (s'.poller.objs d).events = (s.poller.objs d).events := by
    intro d hd
    rw [hev, if_neg]
    rintro rfl
    exact hc hd
  refine ⟨s', _, e, ⟨k', m.masks_of hmask hev, fun d hd => ?_⟩, fun h => ?_⟩
  · rcases List.mem_append.mp hd with hd | hd
    · rw [hold d hd, hevd d hd]
      exact m.entries d hd
    · obtain rfl := List.mem_singleton.mp hd
      exact ⟨_, hnew, by rw [hevc, hfit], fun h => absurd (hevc ▸ h) hne⟩
  · rw [interestShown_iff k']
    rw [interestShown_iff m.tracks] at h
    intro d hd
    rcases List.mem_append.mp hd with hd | hd
    · rw [hold d hd, hevd d hd]
      exact h d hd
    · obtain rfl := List.mem_singleton.mp hd
      refine ⟨_, hnew, ?_⟩
      rw [hevc, Shows, if_neg hne]
      exact ⟨rfl, hfit⟩

/-- The interest of a registered channel changes.  What was shown is shown
afterwards unless events are switched on for a channel that had none: its entry
stays ignored. -/
theorem Mirrors.change (m : Mirrors fd s cs) (hc : c ∈ cs) :
    ∃ s', s.channelExec (.interest c i) = some s' ∧ Mirrors fd s' cs ∧
      (s.InterestShown → (s'.InterestShown ↔
        (i.enables = true → (s.poller.objs c).events ≠ kNoneEvent))) := by
  obtain ⟨s', pfd, e, k', hev, hpfd, hnew, hold⟩ :=
    m.tracks.change hc (i.apply (s.poller.objs c)).events
  obtain ⟨_, hp, -, hnone⟩ := m.entries c hc
  obtain rfl := Option.some.inj (hpfd.symm.trans hp)
  have hmask := Interest.apply_masks (i := i) (m.masks c)
  have hfit := Interest.fits_short hmask
  have hevc : (s'.poller.objs c).events = (i.apply (s.poller.objs c)).events := by
    rw [hev, if_pos rfl]
  have hevd : ∀ d, d ≠ c → (s'.poller.objs d).events = (s.poller.objs d).events := by
    intro d hd
    rw [hev, if_neg hd]
  refine ⟨s', e, ⟨k', m.masks_of hmask hev, fun d hd => ?_⟩, fun h => ?_⟩
  · by_cases hdc : d = c
    · subst hdc
      exact ⟨_, hnew, by rw [hevc, hfit], fun h => if_pos (hevc ▸ h)⟩
    · rw [hold d hd hdc, hevd d hdc]
      exact m.entries d hd
  · rw [interestShown_iff k']
    rw [interestShown_iff m.tracks] at h
    have hfd := m.tracks.table.fd_nonneg c
    rw [m.tracks.fds] at hfd
    constructor
    · -- an entry that was ignored would have to carry the descriptor
      intro h' hi hce
      obtain ⟨q, hq, hshow⟩ := h' c hc
      obtain rfl := Option.some.inj (hnew.symm.trans hq)
      have hne := Interest.apply_ne_none (m.masks c) hi
      rw [hevc, Shows, if_neg hne] at hshow
      have hfd' := hshow.1
      simp only [if_neg hne, hnone hce] at hfd'
      omega
    · intro hi d hd
      by_cases hdc : d = c
      · subst hdc
        refine ⟨_, hnew, ?_⟩
        rw [hevc, Shows]
        split
        next => rfl
        next h0 =>
          have hce : (s.poller.objs d).events ≠ kNoneEvent := by
            intro hce
            cases hen : i.enables with
            | true => exact hi hen hce
            | false => exact h0 (Interest.apply_none hce hen)
          obtain ⟨q, hq, hshow⟩ := h d hd
          obtain rfl := Option.some.inj (hp.symm.trans hq)
          rw [Shows, if_neg hce] at hshow
          exact ⟨hshow.1, hfit⟩
      · rw [hold d hd hdc, hevd d hdc]
        exact h d hd

/-- A removal is possible whenever no events are left, and what was shown is
shown afterwards. -/
theorem Mirrors.remove (m : Mirrors fd s cs) (hc : c ∈ cs)
    (hev : (s.poller.objs c).isNoneEvent = true) :
    ∃ s' cs', s.channelExec (.remove c) = some s' ∧ Mirrors fd s' cs' ∧
      (s.InterestShown → s'.InterestShown) := by
  obtain ⟨p, hp, -, hnone⟩ := m.entries c hc
  have hfd : p.fd = -(s.poller.objs c).fd - 1 := by
    rw [m.tracks.fds]
    exact hnone (beq_iff_eq.mp hev)
  obtain ⟨s', cs', e, k', hperm, hevs, hold⟩ := m.tracks.remove hc hev hp hfd
  have hsub : ∀ d ∈ cs', d ∈ cs := fun d hd => hperm.mem_iff.mpr (List.mem_cons_of_mem _ hd)
  refine ⟨s', cs', ?_, ⟨k', fun d => hevs d ▸ m.masks d, fun d hd => ?_⟩, fun h => ?_⟩
  · simp only [channelExec, assert_of hev, Option.bind_eq_bind, Option.bind_some, e]
  · rw [hold d hd, hevs]
    exact m.entries d (hsub d hd)
  · rw [interestShown_iff k']
    rw [interestShown_iff m.tracks] at h
    intro d hd
    rw [hold d hd, hevs]
    exact h d (hsub d hd)

theorem Mirrors.unused (m : Mirrors fd s cs) (hinj : Injective fd) (op : ChannelOp P) :
    s.Unused op := by
  cases op with
  | interest c i => exact fun hc => m.find_none hinj fun h => hc (m.tracks.mem_iff.mpr h)
  | remove c => exact trivial

/-- After a call in a state where every channel is shown, every channel is shown
exactly when the call did not switch a muted channel on. -/
theorem Mirrors.exec (m : Mirrors fd s cs) {op : ChannelOp P} (hu : s.Used op)
    (hfree : s.Unused op) :
    ∃ s' cs', s.channelExec op = some s' ∧ Mirrors fd s' cs' ∧
      (s.InterestShown → (s'.InterestShown ↔ s.LeavesMuted op)) := by
  cases op with
  | interest c i =>
      by_cases hc : c ∈ s.registered
      · obtain ⟨s', e, m', h⟩ := m.change (i := i) (m.tracks.mem_iff.mp hc)
        exact ⟨s', cs, e, m', fun hs => (h hs).trans
          ⟨fun hl hi _ => hl hi, fun hl hi => hl hi hc⟩⟩
      · obtain ⟨hidx, hi⟩ := hu.resolve_left hc
        obtain ⟨s', cs', e, m', h⟩ := m.register (fun h => hc (m.tracks.mem_iff.mpr h))
          (hfree hc) hidx hi
        exact ⟨s', cs', e, m', fun hs => iff_of_true (h hs) fun _ h => absurd h hc⟩
  | remove c =>
      obtain ⟨s', cs', e, m', h⟩ := m.remove (m.tracks.mem_iff.mp hu.1) hu.2
      exact ⟨s', cs', e, m', fun hs => iff_of_true (h hs) trivial⟩

/-! ## Runs -/

/-- The entries show the interest of the registered channels in every state of
a run exactly when no call of the run switches events on for a registered
channel that has none.  In either case no further call fails. -/
theorem interest_shown_iff (hfd : ∀ c, 0 ≤ fd c) (hinj : Injective fd)
    {tr : List (PollSession P × ChannelOp P)} (hr : Run (stepOf channelExec) (init fd) tr s)
    (hu : ∀ p ∈ tr, Used p.1 p.2) :
    (((∀ p ∈ tr, p.1.InterestShown) ∧ s.InterestShown) ↔ ∀ p ∈ tr, p.1.LeavesMuted p.2) ∧
      ∀ op, s.Used op → ∃ s', s.channelExec op = some s' := by
  obtain ⟨cs, m, h⟩ := hr.invariant_trace
    (I := fun tr s => ∃ cs, Mirrors fd s cs ∧
      (((∀ p ∈ tr, p.1.InterestShown) ∧ s.InterestShown) ↔ ∀ p ∈ tr, p.1.LeavesMuted p.2))
    (G := Used) hu
    ⟨[], mirrors_init hfd, iff_of_true ⟨by simp, by simp [InterestShown, init]⟩ (by simp)⟩ (by
      rintro tr t op u ⟨cs, m, h⟩ hu hst
      obtain ⟨u', cs', e, m', hstep⟩ := m.exec hu (m.unused hinj op)
      obtain rfl : u' = u := Option.some.inj (e.symm.trans hst)
      refine ⟨cs', m', ?_⟩
      rw [forall_snoc (P := fun t _ => InterestShown t), forall_snoc (P := LeavesMuted), ← h]
      exact ⟨fun ⟨⟨h₁, h₂⟩, h₃⟩ => ⟨⟨h₁, h₂⟩, (hstep h₂).mp h₃⟩,
        fun ⟨⟨h₁, h₂⟩, h₃⟩ => ⟨⟨h₁, h₂⟩, (hstep h₂).mpr h₃⟩⟩)
  refine ⟨h, fun op hop => ?_⟩
  obtain ⟨s', -, e, -⟩ := m.exec hop (m.unused hinj op)
  exact ⟨s', e⟩

/-- A channel that switches reading and writing on, writing off and at last
everything off before it is removed. -/
def usualLife : List (ChannelOp (Fin 2)) :=
  [.interest 0 .enableReading, .interest 1 .enableReading, .interest 0 .enableWriting,
    .interest 0 .disableWriting, .interest 0 .disableAllEvents, .remove 0]

theorem usualLife_shown : ∃ tr s,
    runAll channelExec (init fun c : Fin 2 => (c : ℤ)) usualLife = some (tr, s) ∧
      s.registered = [1] ∧ (∀ p ∈ tr, p.1.InterestShown) ∧ s.InterestShown := by
  obtain ⟨tr, s, hrun, hu, hl, hreg⟩ : ∃ tr s,
      runAll channelExec (init fun c : Fin 2 => (c : ℤ)) usualLife = some (tr, s) ∧
        (∀ p ∈ tr, Used p.1 p.2) ∧ (∀ p ∈ tr, p.1.LeavesMuted p.2) ∧ s.registered = [1] :=
    exists_computed (by decide)
  exact ⟨tr, s, hrun, hreg,
    (interest_shown_iff (by decide) (fun c d h => Fin.ext (Int.natCast_inj.mp h))
      (run_of_runAll hrun) hu).1.mpr hl⟩

/-- A channel that switches everything off and reading on again. -/
def mutedForAWhile : List (ChannelOp (Fin 1)) :=
  [.interest 0 .enableReading, .interest 0 .disableAllEvents, .interest 0 .enableReading]

/-- Its entry is still ignored: its events are there, its descriptor is not. -/
theorem mutedForAWhile_not_shown : ∃ tr s,
    runAll channelExec (init fun _ : Fin 1 => 5) mutedForAWhile = some (tr, s) ∧
      (∀ p ∈ tr, Used p.1 p.2) ∧ s.registered = [0] ∧
      (s.poller.objs 0).events = kReadEvent ∧ (s.poller.objs 0).fd = 5 ∧
      (s.poller.entryOf 0).map Pollfd.fd = some (-6) ∧ ¬ s.InterestShown := by
  obtain ⟨tr, s, hrun, hu, hreg, hev, hfd, hentry⟩ : ∃ tr s,
      runAll channelExec (init fun _ : Fin 1 => 5) mutedForAWhile = some (tr, s) ∧
        (∀ p ∈ tr, Used p.1 p.2) ∧ s.registered = [0] ∧
        (s.poller.objs 0).events = kReadEvent ∧ (s.poller.objs 0).fd = 5 ∧
        (s.poller.entryOf 0).map Pollfd.fd = some (-6) :=
    exists_computed (by decide)
  refine ⟨tr, s, hrun, hu, hreg, hev, hfd, hentry, fun h => ?_⟩
  obtain ⟨p, hp, hshow⟩ := h 0 (by rw [hreg]; decide)
  rw [hev, hfd, Shows, if_neg (by decide)] at hshow
  rw [hp, Option.map_some, Option.some_inj, hshow.1] at hentry
  exact absurd hentry (by decide)

end PollSession

end Muduo
