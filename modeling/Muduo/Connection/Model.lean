/-
# `Muduo.Connection.Model` — TcpConnection.h, TcpConnection.cpp

The functions of a connection that run in its loop.  What they do outside the
connection (bytes taken by the kernel, tasks queued, callbacks called, the
socket shut down) is returned, in order, as a list of effects; what a system
call comes back with is an argument.  The user's callbacks are outside the
model: each is the last thing the function that calls it does, or is queued.

`SendInLoop` logs an error of `write(2)` before it looks at `errno` again: that
`errno` is still the same after `LOG_SYSERR` is taken for granted.
-/
import Muduo.Buffer.Model
import Muduo.Poller.Channel

namespace Muduo

/-- `enum State`. -/
inductive ConnState
  | connecting | connected | disconnecting | disconnected
deriving DecidableEq, Repr

/-- The values of `errno` that are told apart. -/
inductive Errno
  | EWOULDBLOCK | EPIPE | ECONNRESET
  | other (code : ℤ)
deriving DecidableEq, Repr

/-- What `write(2)` comes back with. -/
inductive WriteResult
  | wrote (n : ℕ)
  | failed (errno : Errno)
deriving DecidableEq, Repr

/-- What a connection does to the world around it. -/
inductive ConnEffect
  /-- `write(2)` was called, and the kernel took `data`; nothing when it failed. -/
  | write (data : List Byte)
  /-- `EnqueueEventLoop(bind(writeCompleteCb_, …))`. -/
  | queueWriteComplete
  /-- `EnqueueEventLoop(bind(highWaterCb_, …, size))`. -/
  | queueHighWater (size : ℕ)
  /-- `socket_->ShutdownWrite()`. -/
  | shutdownWrite
  /-- `RunInEventLoop(bind(&TcpConnection::ShutdownInLoop, …))`. -/
  | runShutdownInLoop
  /-- `connectionCb_`, `onMessageCb_`, `onCloseCb_`, and the log of `HandleError`. -/
  | connectionCb | onMessageCb | onCloseCb | logError
deriving DecidableEq, Repr

/-- `class TcpConnection`; of a callback that may be empty, whether it is set. -/
structure TcpConnection where
  chan : Channel
  state : ConnState
  writeCompleteCb : Bool
  highWaterCb : Bool
  highWaterMark : ℕ
  inputBuffer : Buffer
  outputBuffer : Buffer

namespace TcpConnection

/-- A connection as it is constructed on a socket, with the callbacks set on it. -/
def new (sockfd : ℤ) (writeCompleteCb highWaterCb : Bool) (highWaterMark : ℕ) :
    Option TcpConnection := do
  let inputBuffer ← Buffer.new kInitialSize
  let outputBuffer ← Buffer.new kInitialSize
  return { chan := .new sockfd, state := .connecting, writeCompleteCb, highWaterCb, highWaterMark,
           inputBuffer, outputBuffer }

def stepIntoEstablished (c : TcpConnection) : Option (TcpConnection × List ConnEffect) := do
  assert (c.state = .connecting)
  return ({ c with state := .connected, chan := c.chan.enableReading }, [.connectionCb])

def handleClose (c : TcpConnection) : Option (TcpConnection × List ConnEffect) := do
  assert (c.state = .connected ∨ c.state = .disconnecting)
  return ({ c with chan := c.chan.disableAllEvents, state := .disconnected }, [.onCloseCb])

/-- `StepIntoDestroyed`, up to `chan_->Remove()`: only a connection that is still
connected is disabled here. -/
def stepIntoDestroyed (c : TcpConnection) : TcpConnection × List ConnEffect :=
  if c.state = .connected then
    ({ c with state := .disconnected, chan := c.chan.disableAllEvents }, [.connectionCb])
  else (c, [.connectionCb])

def handleError (c : TcpConnection) : TcpConnection × List ConnEffect := (c, [.logError])

def handleRead (c : TcpConnection) (extrabuf : Vector Byte Buffer.extrabufSize)
    (r : ReadvResult) : Option (TcpConnection × List ConnEffect) := do
  let (inputBuffer, ret) ← c.inputBuffer.readFd extrabuf r
  let c := { c with inputBuffer := inputBuffer }
  match ret with
  | .error _ => some c.handleError
  | .ok n => if n = 0 then c.handleClose else some (c, [.onMessageCb])

def shutdownInLoop (c : TcpConnection) : TcpConnection × List ConnEffect :=
  if !c.chan.isWriting then (c, [.shutdownWrite]) else (c, [])

/-- `Shutdown`: only the caller whose compare-and-swap succeeds goes on. -/
def shutdown (c : TcpConnection) : TcpConnection × List ConnEffect :=
  if c.state = .connected then ({ c with state := .disconnecting }, [.runShutdownInLoop])
  else (c, [])

def handleWrite (c : TcpConnection) (w : WriteResult) :
    Option (TcpConnection × List ConnEffect) :=
  if c.chan.isWriting then
    match w with
    | .wrote n => do
        let taken ← c.outputBuffer.bytesAt c.outputBuffer.readerIndex n
        let outputBuffer ← c.outputBuffer.retrieve n
        let c := { c with outputBuffer := outputBuffer }
        if c.outputBuffer.readableBytes = 0 then
          let c := { c with chan := c.chan.disableWriting }
          let done := if c.writeCompleteCb then [ConnEffect.queueWriteComplete] else []
          if c.state = .disconnecting then
            let (c, last) := c.shutdownInLoop
            some (c, .write taken :: (done ++ last))
          else some (c, .write taken :: done)
        else some (c, [.write taken])
    | .failed _ => some (c, [.write []])
  else some (c, [])

/-- What the direct write of `SendInLoop` leaves: `nwrote`, `remaining`,
`faultError`, and its effects. -/
structure DirectWrite where
  nwrote : ℕ
  remaining : ℕ
  faultError : Bool
  effects : List ConnEffect

/-- The first half of `SendInLoop`: with nothing in the output queue, writing is
tried directly. -/
def writeDirectly (c : TcpConnection) (buf : List Byte) (w : WriteResult) : DirectWrite :=
  if !c.chan.isWriting ∧ c.outputBuffer.readableBytes = 0 then
    match w with
    | .wrote n =>
        let remaining := buf.length - n
        ⟨n, remaining, false, .write (buf.take n) ::
          if remaining = 0 ∧ c.writeCompleteCb then [.queueWriteComplete] else []⟩
    | .failed errno => ⟨0, buf.length, errno = .EPIPE ∨ errno = .ECONNRESET, [.write []]⟩
  else ⟨0, buf.length, false, []⟩

/-- `SendInLoop`; `w` is what the direct write comes back with, if there is one. -/
def sendInLoop (c : TcpConnection) (buf : List Byte) (w : WriteResult) :
    Option (TcpConnection × List ConnEffect) :=
  if c.state = .disconnected then some (c, [])
  else do
    let d := c.writeDirectly buf w
    assert (d.remaining ≤ buf.length)
    if !d.faultError ∧ d.remaining > 0 then
      let oldLen := c.outputBuffer.readableBytes
      let high := if oldLen + d.remaining ≥ c.highWaterMark ∧ oldLen < c.highWaterMark ∧
          c.highWaterCb then [ConnEffect.queueHighWater (oldLen + d.remaining)] else []
      let outputBuffer ← c.outputBuffer.append ((buf.drop d.nwrote).take d.remaining)
      let chan := if !c.chan.isWriting then c.chan.enableWriting else c.chan
      some ({ c with outputBuffer := outputBuffer, chan := chan }, d.effects ++ high)
    else some (c, d.effects)

end TcpConnection

end Muduo
