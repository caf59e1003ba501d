/-
# `Muduo.Poller.Table` — the pollfd array and the channel map agree

`Table s cs`: the registered channels, in the order of their entries, are `cs`.
The list ties the three structures together: the entry at `i` carries the
descriptor of `cs[i]`, plainly or in the ignored form, the index of `cs[i]` is
`i`, and the map leads from its descriptor to it.
-/
import Muduo.Lib.Runs
import Muduo.Poller.Model

namespace Muduo

open BinHeap IndexMap Function

/-- The descriptor an entry is for, whether or not it is to be ignored. -/
def Pollfd.owner (p : Pollfd) : ℤ := if p.fd < 0 then -p.fd - 1 else p.fd

theorem Pollfd.owner_eq {p : Pollfd} {fd : ℤ} (h : 0 ≤ fd) :
    p.owner = fd ↔ p.fd = fd ∨ p.fd = -fd - 1 := by
  unfold Pollfd.owner
  split <;> omega

/-- An entry that is to be ignored has no `revents`. -/
theorem Pollfd.owner_of_ready {p : Pollfd} (hneg : p.fd < 0 → p.revents = 0)
    (hr : p.revents ≠ 0) : p.owner = p.fd := if_neg fun h => hr (hneg h)

namespace PollPoller

variable {P : Type} [DecidableEq P]

/-- The index of a channel that the map leads to. -/
def slotOf (s : PollPoller P) (c : P) : Option ℕ :=
  if s.channels.find (s.objs c).fd = some c then some (s.objs c).index.toNat else none

/-- The entry at the index of a channel. -/
def entryOf (s : PollPoller P) (c : P) : Option Pollfd := s.pollfds[(s.objs c).index.toNat]?

/-- The registered channels, in the order of their entries, are `cs`. -/
structure Table (s : PollPoller P) (cs : List P) : Prop where
  fd_nonneg : ∀ c, 0 ≤ (s.objs c).fd
  owner : s.pollfds.map Pollfd.owner = cs.map fun c => (s.objs c).fd
  exact : Exact s.slotOf cs
  key : ∀ {fd c}, s.channels.find fd = some c → (s.objs c).fd = fd
  index_nonneg : ∀ c ∈ cs, 0 ≤ (s.objs c).index

variable {s : PollPoller P} {cs : List P} {c : P} {i : ℕ}

theorem slotOf_eq_some : s.slotOf c = some i ↔
    s.channels.find (s.objs c).fd = some c ∧ (s.objs c).index.toNat = i := by
  unfold slotOf
  split <;> simp [*]

theorem table_init {objs : P → Channel} (h : ∀ c, 0 ≤ (objs c).fd) : Table (init objs) [] where
  fd_nonneg := h
  owner := rfl
  exact := by
    have : (init objs).slotOf = fun _ => none := by
      funext c
      simp [slotOf, init, ChannelMap.find, ChannelMap.empty]
    rw [this]
    exact exact_nil
  key := fun h => by simp [init, ChannelMap.find, ChannelMap.empty] at h
  index_nonneg := fun _ h => absurd h List.not_mem_nil

namespace Table

theorem length (t : Table s cs) : s.pollfds.length = cs.length := by
  simpa using congrArg List.length t.owner

theorem mem_iff (t : Table s cs) : c ∈ cs ↔ s.channels.find (s.objs c).fd = some c := by
  rw [t.exact.mem_iff]
  simp [slotOf_eq_some]

/-- A registered channel stands at its index. -/
theorem at_index (t : Table s cs) (hc : c ∈ cs) : cs[(s.objs c).index.toNat]? = some c :=
  (t.exact c _).mp (slotOf_eq_some.mpr ⟨t.mem_iff.mp hc, rfl⟩)

theorem index_lt (t : Table s cs) (hc : c ∈ cs) : (s.objs c).index.toNat < s.pollfds.length := by
  rw [t.length]
  exact (List.getElem?_eq_some_iff.mp (t.at_index hc)).1

/-- The entry at an index carries the descriptor of the channel there. -/
theorem entry (t : Table s cs) (h : cs[i]? = some c) :
    ∃ pfd, s.pollfds[i]? = some pfd ∧ pfd.owner = (s.objs c).fd := by
  have ho : (s.pollfds.map Pollfd.owner)[i]? = some (s.objs c).fd := by
    rw [t.owner, List.getElem?_map, h]
    rfl
  rw [List.getElem?_map, Option.map_eq_some_iff] at ho
  exact ho

theorem entryOf_eq (t : Table s cs) (h : cs[i]? = some c) : s.entryOf c = s.pollfds[i]? := by
  rw [entryOf, t.exact.unique (t.at_index (List.mem_of_getElem? h)) h]

/-- Registered channels have different descriptors. -/
theorem fd_inj (t : Table s cs) {d : P} (hc : c ∈ cs) (hd : d ∈ cs)
    (h : (s.objs c).fd = (s.objs d).fd) : c = d := by
  have hlook := t.mem_iff.mp hc
  rw [h, t.mem_iff.mp hd] at hlook
  exact (Option.some.inj hlook).symm

/-- The map has one key for each registered channel. -/
theorem size (t : Table s cs) : s.channels.size = cs.length := by
  have hinj : (cs.map fun c => (s.objs c).fd).Nodup :=
    List.Nodup.map_on (fun c hc d hd hfd => t.fd_inj hc hd hfd) t.exact.nodup
  rw [ChannelMap.size_eq hinj, List.length_map]
  intro fd
  rw [Option.isSome_iff_exists, List.mem_map]
  constructor
  · rintro ⟨c, hc⟩
    have hfd := t.key hc
    exact ⟨c, t.mem_iff.mpr (hfd ▸ hc), hfd⟩
  · rintro ⟨c, hc, rfl⟩
    exact ⟨c, t.mem_iff.mp hc⟩

end Table

/-! ## UpdateChannel -/

/-- The table speaks of the owners of the entries, the map, the descriptors and the indices. -/
theorem Table.congr (t : Table s cs) {s' : PollPoller P}
    (hown : s'.pollfds.map Pollfd.owner = s.pollfds.map Pollfd.owner)
    (hch : s'.channels = s.channels)
    (hobj : ∀ c, (s'.objs c).fd = (s.objs c).fd ∧ (s'.objs c).index = (s.objs c).index) :
    Table s' cs where
  fd_nonneg c := (hobj c).1 ▸ t.fd_nonneg c
  owner := by
    rw [hown, t.owner]
    exact List.map_congr_left fun c _ => (hobj c).1.symm
  exact := by
    have : s'.slotOf = s.slotOf := by
      funext c
      simp only [slotOf, hch, hobj]
    exact this ▸ t.exact
  key h := (hobj _).1.trans (t.key (hch ▸ h))
  index_nonneg c hc := (hobj c).2 ▸ t.index_nonneg c hc

/-- The poller after `events_` of a channel has been set to `ev`. -/
def withEvents (s : PollPoller P) (c : P) (ev : BitVec 32) : PollPoller P :=
  { s with objs := update s.objs c { s.objs c with events := ev } }

theorem withEvents_fd (s : PollPoller P) (c d : P) (ev : BitVec 32) :
    ((s.withEvents c ev).objs d).fd = (s.objs d).fd ∧
      ((s.withEvents c ev).objs d).index = (s.objs d).index := by
  unfold withEvents
  by_cases hd : d = c
  · subst hd
    simp
  · simp [update_of_ne hd]

theorem withEvents_events (s : PollPoller P) (c d : P) (ev : BitVec 32) :
    ((s.withEvents c ev).objs d).events = if d = c then ev else (s.objs d).events := by
  unfold withEvents
  by_cases hd : d = c
  · subst hd
    simp
  · simp [hd]

theorem withEvents_entryOf (s : PollPoller P) (c d : P) (ev : BitVec 32) :
    (s.withEvents c ev).entryOf d = s.entryOf d := by
  rw [entryOf, (withEvents_fd s c d ev).2]
  rfl

theorem Table.withEvents (t : Table s cs) (c : P) (ev : BitVec 32) :
    Table (s.withEvents c ev) cs :=
  t.congr rfl rfl fun d => withEvents_fd s c d ev

theorem setIndex_fd (s : PollPoller P) (c d : P) (i : ℕ) :
    ((s.setIndex c i).objs d).fd = (s.objs d).fd := by
  unfold setIndex
  by_cases hd : d = c
  · subst hd
    simp
  · simp [update_of_ne hd]

theorem setIndex_index (s : PollPoller P) (c d : P) (i : ℕ) :
    ((s.setIndex c i).objs d).index = if d = c then (i : ℤ) else (s.objs d).index := by
  unfold setIndex
  by_cases hd : d = c
  · subst hd
    simp
  · simp [hd]

theorem setIndex_objs (s : PollPoller P) (c : P) (i : ℕ) (d : P) :
    (s.setIndex c i).objs d = { s.objs d with index := ((s.setIndex c i).objs d).index } := by
  unfold setIndex
  by_cases hd : d = c
  · subst hd
    simp
  · simp [update_of_ne hd]

/-- A new channel is put at the end. -/
theorem updateChannel_new (t : Table s cs) (hidx : (s.objs c).index < 0)
    (hnone : s.channels.find (s.objs c).fd = none) :
    ∃ s', s.updateChannel c = some s' ∧ Table s' (cs ++ [c]) ∧
      s'.pollfds = s.pollfds ++ [⟨(s.objs c).fd, (s.objs c).events.setWidth 16, 0⟩] ∧
      ∀ d, s'.objs d = { s.objs d with index := (s'.objs d).index } := by
  have hc : c ∉ cs := fun hc => by
    have := t.mem_iff.mp hc
    rw [hnone] at this
    exact Option.some_ne_none c this.symm
  have hslot : slotOf ⟨s.pollfds ++ [⟨(s.objs c).fd, (s.objs c).events.setWidth 16, 0⟩],
      s.channels.insert (s.objs c).fd c, (s.setIndex c cs.length).objs⟩ =
      update s.slotOf c (some cs.length) := by
    funext d
    simp only [slotOf, setIndex_fd, setIndex_index, ChannelMap.find_insert]
    by_cases hd : d = c
    · subst hd
      simp
    · rw [update_of_ne hd, if_neg hd]
      by_cases hsame : (s.objs d).fd = (s.objs c).fd
      · simp [slotOf, hsame, hnone, Ne.symm hd]
      · rw [if_neg hsame]
        rfl
  refine ⟨{ pollfds := s.pollfds ++ [⟨(s.objs c).fd, (s.objs c).events.setWidth 16, 0⟩]
            channels := s.channels.insert (s.objs c).fd c
            objs := (s.setIndex c cs.length).objs }, ?_, ⟨?_, ?_, ?_, ?_, ?_⟩, rfl,
    setIndex_objs s c cs.length⟩
  · have hlen : (s.pollfds ++ [(⟨(s.objs c).fd, (s.objs c).events.setWidth 16, 0⟩ : Pollfd)]).length
        - 1 = cs.length := by simp [t.length]
    simp only [updateChannel, hidx, if_true, assert_of hnone, hlen, Option.bind_eq_bind,
      Option.bind_some]
    rfl
  · intro d
    rw [setIndex_fd]
    exact t.fd_nonneg d
  · have howner : Pollfd.owner ⟨(s.objs c).fd, (s.objs c).events.setWidth 16, 0⟩
        = (s.objs c).fd := (Pollfd.owner_eq (t.fd_nonneg c)).mpr (.inl rfl)
    rw [List.map_append, List.map_append, t.owner, List.map_singleton, List.map_singleton, howner]
    simp only [setIndex_fd]
  · rw [hslot]
    exact t.exact.push hc
  · intro fd d hd
    rw [ChannelMap.find_insert] at hd
    rw [setIndex_fd]
    split at hd
    · next hsame => rw [hsame, Option.some.inj hd]
    · exact t.key hd
  · intro d hd
    rw [setIndex_index]
    split
    · exact Int.natCast_nonneg _
    · next hne =>
        exact t.index_nonneg d ((List.mem_append.mp hd).resolve_right (by simpa using hne))

/-- What `UpdateChannel` writes to the entry of a registered channel. -/
def rewritten (chan : Channel) (pfd : Pollfd) : Pollfd where
  fd := if chan.isNoneEvent then -chan.fd - 1 else pfd.fd
  events := chan.events.setWidth 16
  revents := 0

/-- The entry of a registered channel is rewritten in place. -/
theorem updateChannel_known (t : Table s cs) (hc : c ∈ cs) :
    ∃ pfd, s.pollfds[(s.objs c).index.toNat]? = some pfd ∧ pfd.owner = (s.objs c).fd ∧
      s.updateChannel c = some { s with
        pollfds := s.pollfds.set (s.objs c).index.toNat (rewritten (s.objs c) pfd) } ∧
      Table { s with
        pollfds := s.pollfds.set (s.objs c).index.toNat (rewritten (s.objs c) pfd) } cs := by
  have hidx := t.index_nonneg c hc
  have hlook := t.mem_iff.mp hc
  have hsome : s.channels.find (s.objs c).fd ≠ none := by simp [hlook]
  obtain ⟨pfd, hpfd, howner⟩ := t.entry (t.at_index hc)
  refine ⟨pfd, hpfd, howner, ?_, t.congr ?_ rfl fun _ => ⟨rfl, rfl⟩⟩
  · simp only [updateChannel, not_lt.mpr hidx, if_false, assert_of hsome, assert_of hlook,
      assert_of (p := (s.objs c).index ≥ 0 ∧ _) ⟨hidx, t.index_lt hc⟩, hpfd, Option.bind_eq_bind,
      Option.bind_some, rewritten]
    split <;> rfl
  · -- the entry keeps its owner
    have howner' : (rewritten (s.objs c) pfd).owner = (s.objs c).fd := by
      rw [Pollfd.owner_eq (t.fd_nonneg c)] at howner ⊢
      unfold rewritten
      split
      · exact .inr rfl
      · exact howner
    apply List.ext_getElem?
    intro n
    rw [List.map_set, howner']
    by_cases hn : (s.objs c).index.toNat = n
    · subst hn
      rw [List.getElem?_set_self (by simpa using t.index_lt hc), List.getElem?_map, hpfd,
        Option.map_some, howner]
    · rw [List.getElem?_set_ne hn]

/-! ## RemoveChannel -/

theorem slotOf_erase (t : Table s cs) (hc : c ∈ cs) (pollfds : List Pollfd) :
    slotOf ⟨pollfds, s.channels.erase (s.objs c).fd, s.objs⟩ = update s.slotOf c none := by
  have hlook := t.mem_iff.mp hc
  funext d
  simp only [slotOf, ChannelMap.find_erase]
  by_cases hd : d = c
  · subst hd
    simp
  · rw [update_of_ne hd]
    by_cases hsame : (s.objs d).fd = (s.objs c).fd
    · simp [slotOf, hsame, hlook, Ne.symm hd]
    · rw [if_neg hsame]
      rfl

theorem slotOf_setIndex {d : P} (hd : s.channels.find (s.objs d).fd = some d)
    {pollfds : List Pollfd} :
    slotOf ⟨pollfds, s.channels, (s.setIndex d i).objs⟩ = update s.slotOf d (some i) := by
  funext e
  simp only [slotOf, setIndex_fd, setIndex_index]
  by_cases he : e = d
  · subst he
    simp [hd]
  · rw [update_of_ne he, if_neg he]
    rfl

theorem Table.key_erase (t : Table s cs) {fd fd' : ℤ} {d : P}
    (h : (s.channels.erase fd').find fd = some d) : (s.objs d).fd = fd := by
  rw [ChannelMap.find_erase] at h
  split at h
  · exact absurd h.symm (Option.some_ne_none d)
  · exact t.key h

/-- The last entry is taken off. -/
theorem Table.dropLast (t : Table s cs) (hc : c ∈ cs)
    (hlast : (s.objs c).index.toNat = s.pollfds.length - 1) :
    Table ⟨s.pollfds.dropLast, s.channels.erase (s.objs c).fd, s.objs⟩ cs.dropLast := by
  refine ⟨t.fd_nonneg, ?_, ?_, fun hd => t.key_erase hd, fun d hd => ?_⟩
  · rw [List.map_dropLast, List.map_dropLast, t.owner]
  · rw [slotOf_erase t hc s.pollfds.dropLast]
    exact t.exact.dropLast (by rw [← t.length, ← hlast]; exact t.at_index hc)
  · exact t.index_nonneg d ((List.dropLast_sublist cs).subset hd)

/-- The map leads from the descriptor of another channel to this channel, still. -/
theorem Table.find_erase_ne (t : Table s cs) (hc : c ∈ cs) {d : P} (hd : d ∈ cs) (hdc : d ≠ c) :
    (s.channels.erase (s.objs c).fd).find (s.objs d).fd = some d := by
  rw [ChannelMap.find_erase, if_neg fun hfd => hdc (t.fd_inj hd hc hfd)]
  exact t.mem_iff.mp hd

/-- The last entry takes the place of another one, and the index of its channel follows. -/
theorem Table.moveLast (t : Table s cs) (hc : c ∈ cs) {d : P} {i : ℕ}
    (hi : (s.objs c).index.toNat = i) (hlast : i + 1 < cs.length)
    (hd : cs[cs.length - 1]? = some d) (hdc : d ≠ c) :
    Table ⟨without s.pollfds i, s.channels.erase (s.objs c).fd, (s.setIndex d i).objs⟩
      (without cs i) := by
  have hcs : cs[i]? = some c := hi ▸ t.at_index hc
  have hfind := t.find_erase_ne hc (List.mem_of_getElem? hd) hdc
  refine ⟨fun e => ?_, ?_, ?_, ?_, fun e he => ?_⟩
  · rw [setIndex_fd]
    exact t.fd_nonneg e
  · simp only [setIndex_fd]
    rw [map_without, map_without, t.owner]
  · have hslot : slotOf ⟨without s.pollfds i, s.channels.erase (s.objs c).fd,
        (s.setIndex d i).objs⟩ = update (update s.slotOf c none) d (some i) := by
      rw [← slotOf_erase t hc s.pollfds]
      exact slotOf_setIndex (s := ⟨_, _, s.objs⟩) hfind
    rw [hslot]
    exact t.exact.moveLast hlast hcs hd
  · intro fd e he
    rw [setIndex_fd]
    exact t.key_erase he
  · rw [setIndex_index]
    split
    · exact Int.natCast_nonneg _
    · exact t.index_nonneg e ((without_perm hcs).mem_iff.mpr (List.mem_cons_of_mem _ he))

/-- A channel is taken out; the last entry takes its place, and the index of its
channel follows, whichever form its descriptor is in. -/
theorem removeChannel_spec (t : Table s cs) (hc : c ∈ cs) (hev : (s.objs c).isNoneEvent = true)
    {pfd : Pollfd} (hpfd : s.entryOf c = some pfd) (hfd : pfd.fd = -(s.objs c).fd - 1) :
    ∃ s', s.removeChannel c = some s' ∧ Table s' (without cs (s.objs c).index.toNat) ∧
      s'.pollfds = without s.pollfds (s.objs c).index.toNat ∧
      ∀ d, s'.objs d = { s.objs d with index := (s'.objs d).index } := by
  have hidx := t.index_nonneg c hc
  have hlook := t.mem_iff.mp hc
  have hlt := t.index_lt hc
  have hsome : s.channels.find (s.objs c).fd ≠ none := by simp [hlook]
  have hcs := t.at_index hc
  have hlen := t.length
  have hpfd' : s.pollfds[(s.objs c).index.toNat]? = some pfd := hpfd
  simp only [removeChannel, assert_of hsome, assert_of hlook, assert_of hev, hpfd', assert_of hfd,
    assert_of (p := (s.objs c).index ≥ 0 ∧ _) ⟨hidx, hlt⟩, Option.bind_eq_bind, Option.bind_some]
  generalize hi : (s.objs c).index.toNat = i at *
  by_cases hlast : i = s.pollfds.length - 1
  · -- the entry is the last one
    have hw : without s.pollfds i = s.pollfds.dropLast := by rw [hlast, without_last]
    have hwc : without cs i = cs.dropLast := by rw [hlast, hlen, without_last]
    rw [if_pos hlast, hwc]
    exact ⟨_, rfl, t.dropLast hc (hi.trans hlast), hw.symm, fun _ => rfl⟩
  · -- the last entry moves to `i`
    obtain ⟨d, hd⟩ : ∃ d, cs[cs.length - 1]? = some d :=
      ⟨_, List.getElem?_eq_getElem (by omega)⟩
    obtain ⟨back, hback, howner⟩ := t.entry hd
    have hdc : d ≠ c := by
      rintro rfl
      have := t.exact.unique hd hcs
      omega
    have hend : (if back.fd < 0 then -back.fd - 1 else back.fd) = (s.objs d).fd := howner
    have hw : without s.pollfds i = (swapAt s.pollfds i (cs.length - 1)).dropLast := by
      rw [without, hlen]
    rw [if_neg hlast, hlen, hback]
    simp only [Option.bind_some, hend, t.find_erase_ne hc (List.mem_of_getElem? hd) hdc]
    refine ⟨_, rfl, ?_, hw.symm, setIndex_objs s d i⟩
    have ht := t.moveLast hc hi (by omega) hd hdc
    rw [hw] at ht
    exact ht

/-! ## The entries of the other channels -/

/-- A channel that is added leaves the other entries alone. -/
theorem Table.entry_of_append (t : Table s cs) {s' : PollPoller P} {pfd : Pollfd}
    (t' : Table s' (cs ++ [c])) (hp : s'.pollfds = s.pollfds ++ [pfd]) :
    s'.entryOf c = some pfd ∧ ∀ d ∈ cs, s'.entryOf d = s.entryOf d := by
  refine ⟨?_, fun d hd => ?_⟩
  · rw [t'.entryOf_eq (i := cs.length) (by simp), hp, ← t.length]
    simp
  · obtain ⟨i, hi⟩ := List.mem_iff_getElem?.mp hd
    have hlt : i < cs.length := (List.getElem?_eq_some_iff.mp hi).1
    rw [t.entryOf_eq hi, t'.entryOf_eq (i := i) (by rw [List.getElem?_append_left hlt, hi]), hp,
      List.getElem?_append_left (t.length ▸ hlt)]

/-- A channel that is updated leaves the other entries alone. -/
theorem Table.entry_of_set (t : Table s cs) {s' : PollPoller P} {pfd : Pollfd} (t' : Table s' cs)
    (hc : c ∈ cs) (hp : s'.pollfds = s.pollfds.set (s.objs c).index.toNat pfd) :
    s'.entryOf c = some pfd ∧ ∀ d ∈ cs, d ≠ c → s'.entryOf d = s.entryOf d := by
  have hi := t.at_index hc
  refine ⟨?_, fun d hd hne => ?_⟩
  · rw [t'.entryOf_eq hi, hp, List.getElem?_set_self (t.index_lt hc)]
  · have hj := t.at_index hd
    rw [t.entryOf_eq hj, t'.entryOf_eq hj, hp, List.getElem?_set_ne]
    intro h
    rw [h, hj] at hi
    exact hne (Option.some.inj hi)

/-- A channel that is removed leaves the other entries alone, though one moves. -/
theorem Table.entry_of_without (t : Table s cs) {s' : PollPoller P} (hi : i < cs.length)
    (t' : Table s' (without cs i)) (hp : s'.pollfds = without s.pollfds i) :
    ∀ d ∈ without cs i, s'.entryOf d = s.entryOf d := by
  intro d hd
  obtain ⟨k, hk⟩ := List.mem_iff_getElem?.mp hd
  obtain ⟨j, hj, hsame⟩ := exists_before_without hi hk
  rw [t.entryOf_eq hj, t'.entryOf_eq hk, hp, hsame _ t.length]

end PollPoller

end Muduo
