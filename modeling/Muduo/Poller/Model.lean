/-
# `Muduo.Poller.Model` — poller/PollPoller.cpp

A poller keeps an array of `struct pollfd` for poll(2) and a map from
descriptors to channels.  Each registered channel knows the index of its entry.
The channels themselves are objects outside the poller that it reads and writes
through pointers; `objs` is what the pointers point to.

The entry of a channel that is registered but interested in nothing keeps its
descriptor in the form `-fd - 1`, which poll(2) ignores.
-/
import Muduo.Poller.Channel
import Muduo.Lib.IndexMap

namespace Muduo

open BinHeap Function

/-- `struct pollfd`; the two masks are `short`s. -/
structure Pollfd where
  fd : ℤ
  events : BitVec 16
  revents : BitVec 16
deriving DecidableEq, Repr

/-- `std::unordered_map<int, Channel*>`. -/
structure ChannelMap (P : Type) where
  map : AList fun _ : ℤ => P

namespace ChannelMap

variable {P : Type}

def empty : ChannelMap P := ⟨∅⟩

def find (m : ChannelMap P) (fd : ℤ) : Option P := m.map.lookup fd

def insert (m : ChannelMap P) (fd : ℤ) (c : P) : ChannelMap P := ⟨m.map.insert fd c⟩

def erase (m : ChannelMap P) (fd : ℤ) : ChannelMap P := ⟨m.map.erase fd⟩

def size (m : ChannelMap P) : ℕ := m.map.keys.length

theorem find_insert (m : ChannelMap P) (fd fd' : ℤ) (c : P) :
    (m.insert fd c).find fd' = if fd' = fd then some c else m.find fd' := by
  unfold find insert
  split
  next h => subst h; exact AList.lookup_insert _
  next h => exact AList.lookup_insert_ne h

theorem find_erase (m : ChannelMap P) (fd fd' : ℤ) :
    (m.erase fd).find fd' = if fd' = fd then none else m.find fd' := by
  unfold find erase
  split
  next h => subst h; exact AList.lookup_erase _ _
  next h => exact AList.lookup_erase_ne h

/-- The size of a map whose keys are known. -/
theorem size_eq {m : ChannelMap P} {fds : List ℤ} (hn : fds.Nodup)
    (h : ∀ fd, (m.find fd).isSome ↔ fd ∈ fds) : m.size = fds.length := by
  refine ((List.perm_ext_iff_of_nodup m.map.keys_nodup hn).mpr fun fd => ?_).length_eq
  rw [← AList.mem_keys, ← AList.lookup_isSome]
  exact h fd

end ChannelMap

/-- `class PollPoller`, with the channels its pointers (of type `P`) lead to. -/
structure PollPoller (P : Type) where
  pollfds : List Pollfd
  channels : ChannelMap P
  objs : P → Channel

namespace PollPoller

variable {P : Type} [DecidableEq P]

/-- A poller as it is constructed; the channels are as they are. -/
def init (objs : P → Channel) : PollPoller P := ⟨[], .empty, objs⟩

/-- `c->SetIndex(i)`. -/
def setIndex (s : PollPoller P) (c : P) (i : ℕ) : PollPoller P :=
  { s with objs := update s.objs c { s.objs c with index := i } }

/-- `UpdateChannel`. -/
def updateChannel (s : PollPoller P) (c : P) : Option (PollPoller P) :=
  let chan := s.objs c
  if chan.index < 0 then do
    assert (s.channels.find chan.fd = none)
    let s := { s with pollfds := s.pollfds ++ [(⟨chan.fd, chan.events.setWidth 16, 0⟩ : Pollfd)] }
    let s := s.setIndex c (s.pollfds.length - 1)
    return { s with channels := s.channels.insert chan.fd c }
  else do
    assert (s.channels.find chan.fd ≠ none)
    assert (s.channels.find chan.fd = some c)
    assert (chan.index ≥ 0 ∧ chan.index.toNat < s.pollfds.length)
    let pfd ← s.pollfds[chan.index.toNat]?
    let pfd := { pfd with events := chan.events.setWidth 16, revents := 0 }
    -- the entry is to be ignored; `pfd->fd` is written in this branch only
    let pfd := if chan.isNoneEvent then { pfd with fd := -chan.fd - 1 } else pfd
    return { s with pollfds := s.pollfds.set chan.index.toNat pfd }

/-- `RemoveChannel`.  The entry to remove is exchanged with the last one. -/
def removeChannel (s : PollPoller P) (c : P) : Option (PollPoller P) := do
  let chan := s.objs c
  assert (s.channels.find chan.fd ≠ none)
  assert (s.channels.find chan.fd = some c)
  assert (chan.isNoneEvent)
  assert (chan.index ≥ 0 ∧ chan.index.toNat < s.pollfds.length)
  let pfd ← s.pollfds[chan.index.toNat]?
  assert (pfd.fd = -chan.fd - 1)
  -- `channels_.erase(fd)` returns 1, as the key was found above
  let s := { s with channels := s.channels.erase chan.fd }
  let idx := chan.index.toNat
  if idx = s.pollfds.length - 1 then
    return { s with pollfds := s.pollfds.dropLast }
  else
    let back ← s.pollfds[s.pollfds.length - 1]?
    let channelAtEnd := back.fd
    let s := { s with pollfds := swapAt s.pollfds idx (s.pollfds.length - 1) }
    let channelAtEnd := if channelAtEnd < 0 then -channelAtEnd - 1 else channelAtEnd
    let d ← s.channels.find channelAtEnd
    let s := s.setIndex d idx
    return { s with pollfds := s.pollfds.dropLast }

/-- `activeChannels->push_front` in the build with the memory pool, `push_back`
in the other one. -/
def pushActive (mempool : Bool) (active : List P) (c : P) : List P :=
  if mempool then c :: active else active ++ [c]

/-- The loop of `FillActiveChannels`. -/
def fillLoop (mempool : Bool) (channels : ChannelMap P) :
    List Pollfd → ℤ → (P → Channel) → List P → Option ((P → Channel) × List P)
  | [], _, objs, active => some (objs, active)
  | pfd :: pfds, numReady, objs, active =>
      if numReady > 0 then
        if pfd.revents.toInt > 0 then do
          let c ← channels.find pfd.fd
          assert (pfd.fd = (objs c).fd)
          let objs := update objs c { objs c with revents := pfd.revents.signExtend 32 }
          fillLoop mempool channels pfds (numReady - 1) objs (pushActive mempool active c)
        else fillLoop mempool channels pfds numReady objs active
      else some (objs, active)

/-- `FillActiveChannels`: the channels afterwards and the active ones. -/
def fillActiveChannels (mempool : Bool) (s : PollPoller P) (numReady : ℤ) :
    Option ((P → Channel) × List P) :=
  fillLoop mempool s.channels s.pollfds numReady s.objs []

end PollPoller

end Muduo
