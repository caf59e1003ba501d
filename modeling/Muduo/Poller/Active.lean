/-
# `Muduo.Poller.Active` — what FillActiveChannels reports, over whole runs

A session is a poller and the list of the channels that were added and not
removed.  Whatever calls are made, the three structures of the poller stay in
bijection with that list, and after poll(2) has filled in `revents` the channels
reported are exactly those whose entry has some.
-/
import Muduo.Poller.Table

namespace Muduo

open BinHeap IndexMap Function Runs

/-- What poll(2) does to the array: it writes `revents` and nothing else, leaves
zero where the descriptor is negative, and returns how many are not zero.  No
flag of poll(2) is the sign bit of a `short`. -/
structure PollReturns (pfds pfds' : List Pollfd) (numReady : ℤ) : Prop where
  same : pfds'.map (fun p => (p.fd, p.events)) = pfds.map fun p => (p.fd, p.events)
  ignored : ∀ p ∈ pfds', p.fd < 0 → p.revents = 0
  flags : ∀ p ∈ pfds', 0 ≤ p.revents.toInt
  count : numReady = pfds'.countP fun p => p.revents ≠ 0

namespace PollPoller

variable {P : Type}

/-! ## The loop -/

/-- The channels of the entries with `revents`, in the order of the entries. -/
def readyOf (channels : ChannelMap P) (pfds : List Pollfd) : List P :=
  (pfds.filter fun p => p.revents ≠ 0).filterMap fun p => channels.find p.fd

theorem foldl_pushActive (mempool : Bool) (cs active : List P) :
    cs.foldl (pushActive mempool) active =
      if mempool then cs.reverse ++ active else active ++ cs := by
  cases mempool
  · induction cs generalizing active with
    | nil => simp
    | cons c cs ih => simpa [pushActive] using ih (active ++ [c])
  · induction cs generalizing active with
    | nil => simp
    | cons c cs ih => simpa [pushActive] using ih (c :: active)

theorem foldl_pushActive_perm (mempool : Bool) (cs : List P) :
    (cs.foldl (pushActive mempool) []).Perm cs := by
  rw [foldl_pushActive]
  split
  · simp
  · simp

theorem readyOf_fds {channels : ChannelMap P} {objs : P → Channel} :
    ∀ {ps : List Pollfd}, (∀ p ∈ ps, ∃ c, channels.find p.fd = some c ∧ (objs c).fd = p.fd) →
      (ps.filterMap fun p => channels.find p.fd).map (fun c => (objs c).fd) = ps.map Pollfd.fd
  | [], _ => rfl
  | p :: ps, h => by
      obtain ⟨c, hc, hfd⟩ := h p List.mem_cons_self
      rw [List.filterMap_cons_some (f := fun p : Pollfd => channels.find p.fd) hc, List.map_cons,
        List.map_cons, hfd, readyOf_fds fun q hq => h q (List.mem_cons_of_mem _ hq)]

variable [DecidableEq P]

/-- The loop reports the channel of every entry with `revents`, and stops only
when none is left; of a channel it writes `revents_` alone. -/
theorem fillLoop_spec (mempool : Bool) (channels : ChannelMap P) :
    ∀ (pfds : List Pollfd) (numReady : ℤ) (objs : P → Channel) (active : List P),
      (∀ p ∈ pfds, p.revents ≠ 0 →
        ∃ c, channels.find p.fd = some c ∧ (objs c).fd = p.fd) →
      (∀ p ∈ pfds, 0 ≤ p.revents.toInt) →
      numReady = pfds.countP (fun p => p.revents ≠ 0) →
      (readyOf channels pfds).Nodup →
      ∃ objs', fillLoop mempool channels pfds numReady objs active =
          some (objs', (readyOf channels pfds).foldl (pushActive mempool) active) ∧
        (∀ c, c ∉ readyOf channels pfds → objs' c = objs c) ∧
        ∀ p ∈ pfds, p.revents ≠ 0 → ∀ c, channels.find p.fd = some c →
          objs' c = { objs c with revents := p.revents.signExtend 32 }
  | [], _, objs, _, _, _, _, _ =>
      ⟨objs, rfl, fun _ _ => rfl, fun p hp => absurd hp List.not_mem_nil⟩
  | p :: pfds, numReady, objs, active, hfind, hflags, hcount, hnd => by
      by_cases hp : p.revents = 0
      · -- not ready: with none left to report the loop ends here
        have hready : readyOf channels (p :: pfds) = readyOf channels pfds := by
          simp [readyOf, hp]
        rw [List.countP_cons_of_neg (by simpa using hp)] at hcount
        rw [hready] at hnd
        obtain ⟨objs', e, hother, hdone⟩ := fillLoop_spec mempool channels pfds numReady objs active
          (fun q hq => hfind q (List.mem_cons_of_mem _ hq))
          (fun q hq => hflags q (List.mem_cons_of_mem _ hq)) hcount hnd
        refine ⟨objs', ?_, ?_, ?_⟩
        · rw [hready, fillLoop]
          by_cases hn : numReady > 0
          · rw [if_pos hn, if_neg (by simp [hp]), e]
          · have h0 : pfds.countP (fun p => p.revents ≠ 0) = 0 := by omega
            have hnil : readyOf channels pfds = [] := by
              rw [readyOf, List.filter_eq_nil_iff.mpr (List.countP_eq_zero.mp h0)]
              rfl
            have hsame : objs' = objs := funext fun c => hother c (by simp [hnil])
            rw [if_neg hn, hnil, hsame, List.foldl_nil]
        · rwa [hready]
        · intro q hq hq0
          exact hdone q ((List.mem_cons.mp hq).resolve_left fun h => hq0 (h ▸ hp)) hq0
      · obtain ⟨c, hc, hcfd⟩ := hfind p List.mem_cons_self hp
        have hready : readyOf channels (p :: pfds) = c :: readyOf channels pfds := by
          rw [readyOf, List.filter_cons_of_pos (by simpa using hp),
            List.filterMap_cons_some (f := fun p : Pollfd => channels.find p.fd) hc]
          rfl
        have hpos : p.revents.toInt > 0 := by
          refine lt_of_le_of_ne (hflags p List.mem_cons_self) fun h0 => hp ?_
          exact BitVec.eq_of_toInt_eq (by simpa using h0.symm)
        rw [List.countP_cons_of_pos (by simpa using hp)] at hcount
        rw [hready] at hnd
        obtain ⟨hcn, hnd⟩ := List.nodup_cons.mp hnd
        have hfd : ∀ d, (update objs c { objs c with revents := p.revents.signExtend 32 } d).fd
            = (objs d).fd := by
          intro d
          by_cases hd : d = c
          · subst hd
            simp
          · rw [update_of_ne hd]
        obtain ⟨objs', e, hother, hdone⟩ := fillLoop_spec mempool channels pfds (numReady - 1)
          (update objs c { objs c with revents := p.revents.signExtend 32 })
          (pushActive mempool active c)
          (fun q hq hq0 => by
            obtain ⟨d, hd, hdfd⟩ := hfind q (List.mem_cons_of_mem _ hq) hq0
            exact ⟨d, hd, (hfd d).trans hdfd⟩)
          (fun q hq => hflags q (List.mem_cons_of_mem _ hq)) (by omega) hnd
        refine ⟨objs', ?_, ?_, ?_⟩
        · rw [hready, fillLoop, if_pos (by omega), if_pos hpos]
          simp only [hc, assert_of hcfd.symm, Option.bind_eq_bind, Option.bind_some, e,
            List.foldl_cons]
        · intro d hd
          rw [hready, List.mem_cons, not_or] at hd
          rw [hother d hd.2, update_of_ne hd.1]
        · intro q hq hq0 d hd
          rcases List.mem_cons.mp hq with rfl | hq
          · obtain rfl : d = c := Option.some.inj (hd.symm.trans hc)
            rw [hother d hcn, update_self]
          · have hdr : d ∈ readyOf channels pfds :=
              List.mem_filterMap.mpr ⟨q, List.mem_filter.mpr ⟨hq, by simpa using hq0⟩, hd⟩
            have hdc : d ≠ c := fun h => hcn (h ▸ hdr)
            rw [hdone q hq hq0 d hd, update_of_ne hdc]

/-! ## The report on a table -/

section Report

variable {s : PollPoller P} {cs : List P} {c : P} {pfds : List Pollfd} {numReady : ℤ}

/-- poll(2) leaves the table as it is. -/
theorem Table.polled (t : Table s cs) (h : PollReturns s.pollfds pfds numReady) :
    Table { s with pollfds := pfds } cs := by
  refine t.congr ?_ rfl fun _ => ⟨rfl, rfl⟩
  have hown : Pollfd.owner = (fun q : ℤ × BitVec 16 => if q.1 < 0 then -q.1 - 1 else q.1) ∘
      fun p => (p.fd, p.events) := rfl
  rw [hown, ← List.map_map, ← List.map_map]
  exact congrArg _ h.same

/-- An entry with `revents` is that of a registered channel, at its index. -/
theorem Table.ready (t : Table s cs) (hneg : ∀ p ∈ s.pollfds, p.fd < 0 → p.revents = 0)
    {p : Pollfd} (hp : p ∈ s.pollfds) (hr : p.revents ≠ 0) :
    ∃ c ∈ cs, s.channels.find p.fd = some c ∧ (s.objs c).fd = p.fd ∧ s.entryOf c = some p := by
  obtain ⟨i, hi⟩ := List.mem_iff_getElem?.mp hp
  have hlt : i < cs.length := t.length ▸ (List.getElem?_eq_some_iff.mp hi).1
  obtain ⟨q, hq, howner⟩ := t.entry (List.getElem?_eq_getElem hlt)
  obtain rfl : p = q := Option.some.inj (hi.symm.trans hq)
  have hfd : (s.objs cs[i]).fd = p.fd := by
    rw [← howner, Pollfd.owner_of_ready (hneg p hp) hr]
  have hc : cs[i] ∈ cs := List.getElem_mem hlt
  refine ⟨cs[i], hc, hfd ▸ t.mem_iff.mp hc, hfd, ?_⟩
  rw [entryOf, t.exact.unique (t.at_index hc) (List.getElem?_eq_getElem hlt)]
  exact hi

/-- Exactly the channels whose entries have `revents` are ready. -/
theorem Table.mem_readyOf (t : Table s cs) (hneg : ∀ p ∈ s.pollfds, p.fd < 0 → p.revents = 0) :
    c ∈ readyOf s.channels s.pollfds ↔
      c ∈ cs ∧ ∃ p, s.entryOf c = some p ∧ p.revents ≠ 0 := by
  rw [readyOf, List.mem_filterMap]
  constructor
  · rintro ⟨p, hp, hc⟩
    obtain ⟨hp, hr⟩ := List.mem_filter.mp hp
    have hr : p.revents ≠ 0 := by simpa using hr
    obtain ⟨d, hd, hfind, -, hentry⟩ := t.ready hneg hp hr
    obtain rfl : c = d := Option.some.inj (hc.symm.trans hfind)
    exact ⟨hd, p, hentry, hr⟩
  · rintro ⟨hc, p, hentry, hr⟩
    have hp : p ∈ s.pollfds := List.mem_of_getElem? hentry
    obtain ⟨q, hq, howner⟩ := t.entry (t.at_index hc)
    obtain rfl : p = q := Option.some.inj (hentry.symm.trans hq)
    have hfd : p.fd = (s.objs c).fd := by
      rw [← howner, Pollfd.owner_of_ready (hneg p hp) hr]
    exact ⟨p, List.mem_filter.mpr ⟨hp, by simpa using hr⟩, hfd ▸ t.mem_iff.mp hc⟩

theorem Table.nodup_readyOf (t : Table s cs)
    (hneg : ∀ p ∈ s.pollfds, p.fd < 0 → p.revents = 0) :
    (readyOf s.channels s.pollfds).Nodup := by
  have hfind : ∀ p ∈ s.pollfds.filter (fun p => p.revents ≠ 0),
      ∃ c, s.channels.find p.fd = some c ∧ (s.objs c).fd = p.fd := by
    intro p hp
    obtain ⟨hp, hr⟩ := List.mem_filter.mp hp
    obtain ⟨c, -, hc, hfd, -⟩ := t.ready hneg hp (by simpa using hr)
    exact ⟨c, hc, hfd⟩
  have howner : (s.pollfds.filter fun p => p.revents ≠ 0).map Pollfd.fd =
      (s.pollfds.filter fun p => p.revents ≠ 0).map Pollfd.owner := by
    refine List.map_congr_left fun p hp => ?_
    obtain ⟨hp, hr⟩ := List.mem_filter.mp hp
    rw [Pollfd.owner_of_ready (hneg p hp) (by simpa using hr)]
  refine List.Nodup.of_map (fun c => (s.objs c).fd) ?_
  rw [readyOf, readyOf_fds hfind, howner]
  refine List.Nodup.sublist ((List.filter_sublist).map _) ?_
  rw [t.owner]
  exact List.Nodup.map_on (fun c hc d hd hfd => t.fd_inj hc hd hfd) t.exact.nodup

/-- What `FillActiveChannels` does after poll(2): it reports the channels whose
entries have `revents`, each once, and hands each its own. -/
theorem Table.fillActiveChannels_spec (t : Table s cs) (mempool : Bool)
    (h : PollReturns s.pollfds pfds numReady) :
    ∃ objs' active, ({ s with pollfds := pfds } : PollPoller P).fillActiveChannels mempool numReady
        = some (objs', active) ∧ active.Nodup ∧
      (∀ c, c ∈ active ↔ c ∈ cs ∧ ∃ p, pfds[(s.objs c).index.toNat]? = some p ∧ p.revents ≠ 0) ∧
      ∀ c, objs' c = if c ∈ active then
        { s.objs c with
          revents := ((pfds[(s.objs c).index.toNat]?.map Pollfd.revents).getD 0).signExtend 32 }
        else s.objs c := by
  have t' := t.polled h
  have hnd := t'.nodup_readyOf h.ignored
  obtain ⟨objs', e, hother, hdone⟩ := fillLoop_spec mempool s.channels pfds numReady s.objs []
    (fun p hp hr => by
      obtain ⟨c, -, hc, hfd, -⟩ := t'.ready h.ignored hp hr
      exact ⟨c, hc, hfd⟩) h.flags h.count hnd
  have hperm := foldl_pushActive_perm mempool (readyOf s.channels pfds)
  refine ⟨objs', _, e, hperm.nodup_iff.mpr hnd, fun c => ?_, fun c => ?_⟩
  · rw [hperm.mem_iff]
    exact t'.mem_readyOf h.ignored
  · split
    next hc =>
      obtain ⟨hcs, p, hp, hr⟩ := (t'.mem_readyOf h.ignored).mp (hperm.mem_iff.mp hc)
      obtain ⟨q, hq, howner⟩ := t'.entry (t'.at_index hcs)
      obtain rfl : p = q := Option.some.inj (hp.symm.trans hq)
      have hfd : p.fd = (s.objs c).fd := by
        rw [← howner, Pollfd.owner_of_ready (h.ignored p (List.mem_of_getElem? hp)) hr]
      have hp' : pfds[(s.objs c).index.toNat]? = some p := hp
      rw [hdone p (List.mem_of_getElem? hp) hr c (hfd ▸ t'.mem_iff.mp hcs), hp', Option.map_some,
        Option.getD_some]
    next hc => exact hother c fun hr => hc (hperm.mem_iff.mpr hr)

end Report

end PollPoller

/-! ## Runs -/

/-- The calls on a poller: `UpdateChannel` of a channel whose interest has been
set to `events`, and `RemoveChannel`. -/
inductive PollOp (P : Type)
  | updateChannel (c : P) (events : BitVec 32)
  | removeChannel (c : P)

/-- A poller and the channels that were added to it and not removed. -/
structure PollSession (P : Type) where
  poller : PollPoller P
  registered : List P

namespace PollSession

variable {P : Type} [DecidableEq P]

/-- A new poller, and channels as they are constructed on the descriptors `fd`. -/
def init (fd : P → ℤ) : PollSession P := ⟨.init fun c => .new (fd c), []⟩

/-- One call; there is no result where an assertion fails or a pointer is null. -/
def exec (s : PollSession P) : PollOp P → Option (PollSession P)
  | .updateChannel c ev => do
      let poller ← (s.poller.withEvents c ev).updateChannel c
      some ⟨poller, s.registered.insert c⟩
  | .removeChannel c => do
      let poller ← s.poller.removeChannel c
      some ⟨poller, s.registered.erase c⟩

/-- The preconditions that `UpdateChannel` and `RemoveChannel` assert of the
channel they are given. -/
def Asserted (s : PollSession P) : PollOp P → Prop
  | .updateChannel c _ =>
      if (s.poller.objs c).index < 0 then s.poller.channels.find (s.poller.objs c).fd = none
      else s.poller.channels.find (s.poller.objs c).fd = some c
  | .removeChannel c =>
      s.poller.channels.find (s.poller.objs c).fd = some c ∧
        (s.poller.objs c).isNoneEvent = true ∧
        ∃ p, s.poller.entryOf c = some p ∧ p.fd = -(s.poller.objs c).fd - 1

/-- The table of the poller holds the registered channels, each on its descriptor. -/
structure Tracks (fd : P → ℤ) (s : PollSession P) (cs : List P) : Prop where
  table : s.poller.Table cs
  registered : cs.Perm s.registered
  fds : ∀ c, (s.poller.objs c).fd = fd c

variable {fd : P → ℤ} {s s' : PollSession P} {cs : List P} {c : P} {op : PollOp P}

theorem tracks_init (h : ∀ c, 0 ≤ fd c) : Tracks fd (init fd) [] :=
  ⟨PollPoller.table_init h, .nil, fun _ => rfl⟩

/-- A call that has a result was made with its preconditions. -/
theorem asserted_of_exec (h : s.exec op = some s') : s.Asserted op := by
  cases op with
  | updateChannel c ev =>
      have hfd := PollPoller.withEvents_fd s.poller c c ev
      simp only [exec, PollPoller.updateChannel, hfd, Option.bind_eq_bind] at h
      by_cases hidx : (s.poller.objs c).index < 0
      · simp only [Asserted, if_pos hidx]
        simp only [if_pos hidx, Option.bind_eq_some_iff, assert_eq_some_iff] at h
        obtain ⟨_, ⟨_, hnone, _⟩, _⟩ := h
        exact hnone
      · simp only [Asserted, if_neg hidx]
        simp only [if_neg hidx, Option.bind_eq_some_iff, assert_eq_some_iff] at h
        obtain ⟨_, ⟨_, _, _, hsome, _⟩, _⟩ := h
        exact hsome
  | removeChannel c =>
      simp only [exec, PollPoller.removeChannel, Option.bind_eq_bind, Option.bind_eq_some_iff,
        assert_eq_some_iff] at h
      obtain ⟨_, ⟨_, _, _, hsome, _, hev, _, _, p, hp, _, hfd, _⟩, _⟩ := h
      exact ⟨hsome, hev, p, hp, hfd⟩

theorem Tracks.mem_iff (k : Tracks fd s cs) : c ∈ s.registered ↔ c ∈ cs :=
  k.registered.symm.mem_iff

/-- `UpdateChannel` of a channel that is not registered. -/
theorem Tracks.add (k : Tracks fd s cs) (hidx : (s.poller.objs c).index < 0)
    (hnone : s.poller.channels.find (s.poller.objs c).fd = none) (ev : BitVec 32) :
    ∃ s', s.exec (.updateChannel c ev) = some s' ∧ Tracks fd s' (cs ++ [c]) ∧
      (∀ d, (s'.poller.objs d).events = if d = c then ev else (s.poller.objs d).events) ∧
      s'.poller.entryOf c = some ⟨fd c, ev.setWidth 16, 0⟩ ∧
      ∀ d ∈ cs, s'.poller.entryOf d = s.poller.entryOf d := by
  have t := k.table.withEvents c ev
  have hobj := PollPoller.withEvents_fd s.poller c
  have hc : c ∉ s.registered := fun hc => by
    have := k.table.mem_iff.mp (k.mem_iff.mp hc)
    rw [hnone] at this
    exact Option.some_ne_none c this.symm
  obtain ⟨p, e, t', hp, hframe⟩ := PollPoller.updateChannel_new t ((hobj c ev).2 ▸ hidx)
    ((hobj c ev).1 ▸ hnone)
  obtain ⟨hnew, hold⟩ := t.entry_of_append t' hp
  refine ⟨⟨p, s.registered.insert c⟩, by simp [PollSession.exec, e], ⟨t', ?_, fun d => ?_⟩,
    fun d => ?_, ?_, fun d hd => ?_⟩
  · rw [List.insert_of_not_mem hc]
    exact (List.perm_append_singleton c cs).trans (k.registered.cons c)
  · rw [hframe d]
    exact (hobj d ev).1.trans (k.fds d)
  · rw [hframe d]
    exact PollPoller.withEvents_events s.poller c d ev
  · rw [hnew, (hobj c ev).1, PollPoller.withEvents_events, if_pos rfl, k.fds]
  · rw [hold d hd, PollPoller.withEvents_entryOf]

/-- `UpdateChannel` of a registered channel: its entry is ignored from now on if
there are no events, and is ignored or not as before if there are some. -/
theorem Tracks.change (k : Tracks fd s cs) (hc : c ∈ cs) (ev : BitVec 32) :
    ∃ s' pfd, s.exec (.updateChannel c ev) = some s' ∧ Tracks fd s' cs ∧
      (∀ d, (s'.poller.objs d).events = if d = c then ev else (s.poller.objs d).events) ∧
      s.poller.entryOf c = some pfd ∧
      s'.poller.entryOf c =
        some ⟨if ev = kNoneEvent then -fd c - 1 else pfd.fd, ev.setWidth 16, 0⟩ ∧
      ∀ d ∈ cs, d ≠ c → s'.poller.entryOf d = s.poller.entryOf d := by
  have t := k.table.withEvents c ev
  have hobj := PollPoller.withEvents_fd s.poller c
  obtain ⟨pfd, hpfd, -, e, t'⟩ := PollPoller.updateChannel_known t hc
  obtain ⟨hnew, hold⟩ := t.entry_of_set t' hc rfl
  refine ⟨⟨_, s.registered.insert c⟩, pfd, by simp [PollSession.exec, e], ⟨t', ?_, fun d => ?_⟩,
    (PollPoller.withEvents_events s.poller c · ev), ?_, ?_, fun d hd hdc => ?_⟩
  · rw [List.insert_of_mem (k.mem_iff.mpr hc)]
    exact k.registered
  · exact (hobj d ev).1.trans (k.fds d)
  · rw [← PollPoller.withEvents_entryOf s.poller c c ev]
    exact hpfd
  · rw [hnew, PollPoller.rewritten, (hobj c ev).1, k.fds, Channel.isNoneEvent,
      PollPoller.withEvents_events, if_pos rfl]
    simp only [beq_iff_eq]
  · rw [hold d hd hdc, PollPoller.withEvents_entryOf]

/-- `RemoveChannel` of a channel whose entry is ignored. -/
theorem Tracks.remove (k : Tracks fd s cs) (hc : c ∈ cs)
    (hev : (s.poller.objs c).isNoneEvent = true) {p : Pollfd} (hp : s.poller.entryOf c = some p)
    (hfd : p.fd = -(s.poller.objs c).fd - 1) :
    ∃ s' cs', s.exec (.removeChannel c) = some s' ∧ Tracks fd s' cs' ∧ cs.Perm (c :: cs') ∧
      (∀ d, (s'.poller.objs d).events = (s.poller.objs d).events) ∧
      ∀ d ∈ cs', s'.poller.entryOf d = s.poller.entryOf d := by
  obtain ⟨q, e, t', hq, hframe⟩ := PollPoller.removeChannel_spec k.table hc hev hp hfd
  have hperm := without_perm (k.table.at_index hc)
  have hlt := k.table.length ▸ k.table.index_lt hc
  refine ⟨⟨q, s.registered.erase c⟩, _, by simp [PollSession.exec, e], ⟨t', ?_, fun d => ?_⟩,
    hperm, fun d => ?_, k.table.entry_of_without hlt t' hq⟩
  · have hperm := hperm.erase c
    rw [List.erase_cons_head] at hperm
    exact hperm.symm.trans (k.registered.erase c)
  · rw [hframe d]
    exact k.fds d
  · rw [hframe d]

/-- A call made with its preconditions has a result, and the table holds again. -/
theorem Tracks.exec (k : Tracks fd s cs) (h : s.Asserted op) :
    ∃ s' cs', s.exec op = some s' ∧ Tracks fd s' cs' := by
  cases op with
  | updateChannel c ev =>
      simp only [Asserted] at h
      by_cases hidx : (s.poller.objs c).index < 0
      · rw [if_pos hidx] at h
        obtain ⟨s', e, k', -⟩ := k.add hidx h ev
        exact ⟨s', _, e, k'⟩
      · rw [if_neg hidx] at h
        obtain ⟨s', -, e, k', -⟩ := k.change (k.table.mem_iff.mpr h) ev
        exact ⟨s', _, e, k'⟩
  | removeChannel c =>
      obtain ⟨hsome, hev, p, hp, hfd⟩ := h
      obtain ⟨s', cs', e, k', -⟩ := k.remove (k.table.mem_iff.mpr hsome) hev hp hfd
      exact ⟨s', cs', e, k'⟩

theorem tracks_of_run {tr : List (PollSession P × PollOp P)} (hfd : ∀ c, 0 ≤ fd c)
    (hr : Run (stepOf PollSession.exec) (init fd) tr s) : ∃ cs, Tracks fd s cs := by
  refine hr.invariant (I := fun s => ∃ cs, Tracks fd s cs) ⟨[], tracks_init hfd⟩ ?_
  rintro t op u ⟨cs, k⟩ hst
  obtain ⟨u', cs', e, k'⟩ := k.exec (asserted_of_exec hst)
  obtain rfl : u' = u := Option.some.inj (e.symm.trans hst)
  exact ⟨cs', k'⟩

/-- After any calls made with their preconditions, the array, the map and the
indices are in bijection with the registered channels, no further such call
fails on the way, and after poll(2) the channels reported are the registered
ones whose entry has `revents`, each once and with its own. -/
theorem table_bijective (hfd : ∀ c, 0 ≤ fd c) {tr : List (PollSession P × PollOp P)}
    (hr : Run (stepOf PollSession.exec) (init fd) tr s) :
    (s.poller.pollfds.length = s.poller.channels.size ∧
      s.poller.pollfds.length = s.registered.length) ∧
    (∀ c ∈ s.registered, s.poller.channels.find (fd c) = some c ∧
      0 ≤ (s.poller.objs c).index ∧
      ∃ p, s.poller.pollfds[(s.poller.objs c).index.toNat]? = some p ∧
        (p.fd = fd c ∨ p.fd = -fd c - 1)) ∧
    (∀ c ∈ s.registered, ∀ d ∈ s.registered,
      (s.poller.objs c).index = (s.poller.objs d).index → c = d) ∧
    (∀ op, s.Asserted op → ∃ s', s.exec op = some s') ∧
    ∀ mempool pfds numReady, PollReturns s.poller.pollfds pfds numReady →
      ∃ objs' active, ({ s.poller with pollfds := pfds } : PollPoller P).fillActiveChannels
          mempool numReady = some (objs', active) ∧ active.Nodup ∧
        (∀ c, c ∈ active ↔ c ∈ s.registered ∧
          ∃ p, pfds[(s.poller.objs c).index.toNat]? = some p ∧ p.revents ≠ 0) ∧
        ∀ c, objs' c = if c ∈ active then
          { s.poller.objs c with
            revents := ((pfds[(s.poller.objs c).index.toNat]?.map
              Pollfd.revents).getD 0).signExtend 32 }
          else s.poller.objs c := by
  obtain ⟨cs, k⟩ := tracks_of_run hfd hr
  have hmem : ∀ {c}, c ∈ s.registered ↔ c ∈ cs := k.mem_iff
  have hlen : cs.length = s.registered.length := k.registered.length_eq
  refine ⟨⟨k.table.length.trans k.table.size.symm, k.table.length.trans hlen⟩, ?_, ?_, ?_, ?_⟩
  · intro c hc
    obtain ⟨p, hp, howner⟩ := k.table.entry (k.table.at_index (hmem.mp hc))
    rw [k.fds, Pollfd.owner_eq (hfd c)] at howner
    exact ⟨k.fds c ▸ k.table.mem_iff.mp (hmem.mp hc), k.table.index_nonneg c (hmem.mp hc),
      p, hp, howner⟩
  · intro c hc d hd hidx
    have h₁ := k.table.at_index (hmem.mp hc)
    have h₂ := k.table.at_index (hmem.mp hd)
    rw [← hidx, h₁] at h₂
    exact Option.some.inj h₂
  · intro op h
    obtain ⟨s', -, e, -⟩ := k.exec h
    exact ⟨s', e⟩
  · intro mempool pfds numReady h
    obtain ⟨objs', active, e, hnd, hact, hobj⟩ := k.table.fillActiveChannels_spec mempool h
    exact ⟨objs', active, e, hnd, fun c => by rw [hact, hmem], hobj⟩

/-- Three channels, one of them on descriptor 0.  The second is muted, then the
first one is muted and removed, so that the last entry takes its place. -/
def removal : List (PollOp (Fin 3)) :=
  [.updateChannel 0 kReadEvent, .updateChannel 1 kReadEvent, .updateChannel 2 kWriteEvent,
    .updateChannel 1 kNoneEvent, .updateChannel 0 kNoneEvent, .removeChannel 0]

theorem removal_reports :
    ∃ tr s, runAll PollSession.exec (init fun c : Fin 3 => (c : ℤ)) removal = some (tr, s) ∧
      s.registered = [2, 1] ∧ s.poller.pollfds.map Pollfd.fd = [2, -2] ∧
      ∃ objs' active, ({ s.poller with
          pollfds := [⟨2, kWriteEvent.setWidth 16, 4⟩, ⟨-2, 0, 0⟩] } :
        PollPoller (Fin 3)).fillActiveChannels false 1 = some (objs', active) ∧
        2 ∈ active ∧ 1 ∉ active := by
  obtain ⟨tr, s, hrun, hreg, hpfds, hidx₂, hidx₁⟩ : ∃ tr s,
      runAll PollSession.exec (init fun c : Fin 3 => (c : ℤ)) removal = some (tr, s) ∧
        s.registered = [2, 1] ∧
        s.poller.pollfds = [⟨2, kWriteEvent.setWidth 16, 0⟩, ⟨-2, 0, 0⟩] ∧
        (s.poller.objs 2).index = 0 ∧ (s.poller.objs 1).index = 1 :=
    exists_computed (by decide)
  obtain ⟨-, -, -, -, h⟩ := table_bijective (by decide) (run_of_runAll hrun)
  have hpoll : PollReturns s.poller.pollfds
      [⟨2, kWriteEvent.setWidth 16, 4⟩, ⟨-2, 0, 0⟩] 1 := by
    rw [hpfds]
    constructor <;> decide
  obtain ⟨objs', active, e, -, hact, -⟩ := h false _ _ hpoll
  refine ⟨tr, s, hrun, hreg, by rw [hpfds]; rfl, objs', active, e, ?_, fun h₁ => ?_⟩
  · exact (hact 2).mpr ⟨by rw [hreg]; decide, _, by rw [hidx₂]; rfl, by decide⟩
  · obtain ⟨-, p, hp, hr⟩ := (hact 1).mp h₁
    rw [hidx₁] at hp
    exact hr (congrArg Pollfd.revents (Option.some.inj hp).symm)

end PollSession

end Muduo
