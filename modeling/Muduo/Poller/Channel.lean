/-
# `Muduo.Poller.Channel` — Channel.h, Channel.cpp

The part of a channel that pollers and connections work with: the descriptor,
the events it is interested in, the events last reported and the index its
poller has given it.  `Update()` hands the channel to the poller of its loop;
where that matters it is an operation of the poller.

`HandleEventsWithGuard` is the list of the callbacks it calls, in their order:
what happens between two of them is up to the owner of the channel.
-/
import Muduo.Basic

namespace Muduo

/-! ## The event masks of poll(2) -/

def POLLIN : BitVec 32 := 0x1
def POLLPRI : BitVec 32 := 0x2
def POLLOUT : BitVec 32 := 0x4
def POLLERR : BitVec 32 := 0x8
def POLLHUP : BitVec 32 := 0x10
def POLLNVAL : BitVec 32 := 0x20
def POLLRDHUP : BitVec 32 := 0x2000

def kNoneEvent : BitVec 32 := 0
def kReadEvent : BitVec 32 := POLLIN ||| POLLPRI ||| POLLRDHUP
def kWriteEvent : BitVec 32 := POLLOUT

/-- `class Channel`. -/
structure Channel where
  fd : ℤ
  events : BitVec 32
  revents : BitVec 32
  index : ℤ
deriving DecidableEq, Repr

/-- The callbacks of a channel. -/
inductive Handler
  | close | error | read | write
deriving DecidableEq, Repr

namespace Channel

/-- `HandleEventsWithGuard`: the callbacks that it calls for `revents`. -/
def handlers (revents : BitVec 32) : List Handler :=
  (if revents &&& POLLHUP ≠ 0 ∧ revents &&& POLLIN = 0 then [.close] else []) ++
  (if revents &&& (POLLERR ||| POLLNVAL) ≠ 0 then [.error] else []) ++
  (if revents &&& (POLLIN ||| POLLRDHUP ||| POLLPRI) ≠ 0 then [.read] else []) ++
  (if revents &&& POLLOUT ≠ 0 then [.write] else [])

/-- A channel as it is constructed. -/
def new (fd : ℤ) : Channel := ⟨fd, kNoneEvent, kNoneEvent, -1⟩

def isNoneEvent (c : Channel) : Bool := c.events == kNoneEvent

def isWriting (c : Channel) : Bool := c.events &&& kWriteEvent != 0

/-- The four functions that change the interest, without the `Update()` they end with. -/
def enableReading (c : Channel) : Channel := { c with events := c.events ||| kReadEvent }
def enableWriting (c : Channel) : Channel := { c with events := c.events ||| kWriteEvent }
def disableWriting (c : Channel) : Channel := { c with events := c.events &&& ~~~kWriteEvent }
def disableAllEvents (c : Channel) : Channel := { c with events := kNoneEvent }

/-- The assertion of `Remove`. -/
def remove (c : Channel) : Option Unit := assert (c.isNoneEvent = true)

variable (c : Channel)

@[simp] theorem isWriting_new (fd : ℤ) : (new fd).isWriting = false := by
  show (kNoneEvent &&& kWriteEvent != 0) = false
  decide

@[simp] theorem isWriting_enableReading : c.enableReading.isWriting = c.isWriting := by
  have h : (c.events ||| kReadEvent) &&& kWriteEvent = c.events &&& kWriteEvent := by
    rw [BitVec.and_or_distrib_right]
    simp [kReadEvent, kWriteEvent, POLLIN, POLLPRI, POLLRDHUP, POLLOUT]
  simp only [isWriting, enableReading, h]

@[simp] theorem isWriting_enableWriting : c.enableWriting.isWriting = true := by
  have h : (c.events ||| kWriteEvent) &&& kWriteEvent = kWriteEvent := by
    ext i hi
    simp only [BitVec.getElem_and, BitVec.getElem_or]
    cases c.events[i] <;> cases kWriteEvent[i] <;> rfl
  simp only [isWriting, enableWriting, h]
  decide

@[simp] theorem isWriting_disableWriting : c.disableWriting.isWriting = false := by
  have h : (c.events &&& ~~~kWriteEvent) &&& kWriteEvent = 0 := by
    ext i hi
    simp only [BitVec.getElem_and, BitVec.getElem_not]
    cases c.events[i] <;> cases kWriteEvent[i] <;> simp
  simp only [isWriting, disableWriting, h]
  decide

@[simp] theorem isWriting_disableAllEvents : c.disableAllEvents.isWriting = false := by
  show (kNoneEvent &&& kWriteEvent != 0) = false
  decide

end Channel

end Muduo
