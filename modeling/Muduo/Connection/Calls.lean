/-
# `Muduo.Connection.Calls` — Send and Shutdown of any thread, TcpConnection.cpp and EventLoop.cpp

A connection that is up, with the callbacks of its loop that are about it.  On
the loop thread `Send` and `Shutdown` do their work at once; on another thread
they have two steps, the access to `state_` and the push.

    load, push                Send of another thread
    send                      Send on the loop thread
    shutdown, pushShutdown    Shutdown of another thread
    shutdownHere              Shutdown on the loop thread
    task w                    the next queued callback; w is what a direct write in it
                              comes back with
    handleWrite w             HandleWrite

The callbacks of a batch are called in the order of the queue and before those
queued later, so that the batch and the queue are one list.  What the user's
callbacks do is the steps of the loop thread.

The fields from `sends` on are no fields of the source.  A `Send` that finds the
connection connected gets a number; `handed` are the bytes that `write(2)` has
been given, and that are not to be given to it again.
-/
import Muduo.Connection.Stream

namespace Muduo

/-- The callbacks that the two calls queue. -/
inductive ConnTask
  | sendInLoop (k : ℕ) (buf : List Byte)
  | shutdownInLoop
deriving DecidableEq, Repr

/-- What is known when `ShutdownWrite` is called: the sends that have been made, and
the bytes that have been handed over. -/
structure AtShut where
  executed : List (ℕ × List Byte)
  handed : List Byte
deriving DecidableEq, Repr

/-- A connection in its loop. -/
structure ConnLoop where
  conn : TcpConnection
  queue : List ConnTask
  /-- the sends of other threads that have found the connection connected and are still
  to be queued -/
  sending : List (ℕ × List Byte)
  /-- the `Shutdown` of another thread that is still to be queued -/
  shutting : Bool
  sends : ℕ
  returned : List (ℕ × List Byte)
  /-- `returned` when `Shutdown` was called -/
  before : List (ℕ × List Byte)
  executed : List (ℕ × List Byte)
  handed : List Byte
  /-- the first `ShutdownWrite` -/
  atShut : Option AtShut
  /-- `write(2)` was called after `ShutdownWrite` -/
  late : Bool

inductive CallAct
  | load (buf : List Byte)
  | push (i : ℕ)
  | send (buf : List Byte) (w : WriteResult)
  | shutdown
  | pushShutdown
  | shutdownHere
  | task (w : WriteResult)
  | handleWrite (w : WriteResult)
deriving DecidableEq, Repr

namespace ConnLoop

/-- A connection as `StepIntoEstablished` leaves it. -/
def init (sockfd : ℤ) (writeCompleteCb highWaterCb : Bool) (highWaterMark : ℕ) : ConnLoop :=
  { conn := .established sockfd writeCompleteCb highWaterCb highWaterMark, queue := [],
    sending := [], shutting := false, sends := 0, returned := [], before := [], executed := [],
    handed := [], atShut := none, late := false }

/-- The record of one effect. -/
def effect (s : ConnLoop) : ConnEffect → ConnLoop
  | .write data => { s with handed := s.handed ++ data, late := s.late || s.atShut.isSome }
  | .shutdownWrite => { s with atShut := s.atShut <|> some ⟨s.executed, s.handed⟩ }
  | _ => s

/-- The bytes that a direct write drops: the connection is broken. -/
def dropped (c : TcpConnection) (buf : List Byte) (w : WriteResult) : List Byte :=
  if c.state ≠ .disconnected ∧ (c.writeDirectly buf w).faultError then buf else []

/-- `SendInLoop`. -/
def sendInLoop (s : ConnLoop) (k : ℕ) (buf : List Byte) (w : WriteResult) : Option ConnLoop := do
  guard (w.AtMost buf.length)
  let (conn, effs) ← s.conn.sendInLoop buf w
  some (effs.foldl effect { s with conn, executed := s.executed ++ [(k, buf)],
                                   handed := s.handed ++ dropped s.conn buf w })

/-- `ShutdownInLoop`. -/
def shutdownInLoop (s : ConnLoop) : ConnLoop :=
  s.conn.shutdownInLoop.2.foldl effect { s with conn := s.conn.shutdownInLoop.1 }

def step (s : ConnLoop) : CallAct → Option ConnLoop
  | .load buf =>
      if s.conn.state = .connected then
        some { s with sending := s.sending ++ [(s.sends, buf)], sends := s.sends + 1 }
      else some s
  | .push i => do
      let (k, buf) ← s.sending[i]?
      some { s with sending := s.sending.eraseIdx i, queue := s.queue ++ [.sendInLoop k buf],
                    returned := s.returned ++ [(k, buf)] }
  | .send buf w =>
      if s.conn.state = .connected then
        { s with sends := s.sends + 1,
                 returned := s.returned ++ [(s.sends, buf)] }.sendInLoop s.sends buf w
      else some s
  | .shutdown =>
      if s.conn.state = .connected then
        some { s with conn := s.conn.shutdown.1, shutting := true, before := s.returned }
      else some s
  | .pushShutdown => do
      guard (s.shutting = true)
      some { s with shutting := false, queue := s.queue ++ [.shutdownInLoop] }
  | .shutdownHere =>
      if s.conn.state = .connected then
        some { s with conn := s.conn.shutdown.1, before := s.returned }.shutdownInLoop
      else some s
  | .task w =>
      match s.queue with
      | .sendInLoop k buf :: queue => { s with queue }.sendInLoop k buf w
      | .shutdownInLoop :: queue => some { s with queue }.shutdownInLoop
      | [] => none
  | .handleWrite w => do
      guard (w.AtMost s.conn.outputBuffer.readableBytes)
      let (conn, effs) ← s.conn.handleWrite w
      some (effs.foldl effect { s with conn })

/-! ## What a step can do -/

variable {s s' : ConnLoop} {a : CallAct}

theorem shutdown_connected {c : TcpConnection} (h : c.state = .connected) :
    c.shutdown.1 = { c with state := .disconnecting } := by
  rw [TcpConnection.shutdown, if_pos h]

/-- The steps, down to the functions of the connection. -/
inductive Steps (s : ConnLoop) : CallAct → ConnLoop → Prop
  | load (buf : List Byte) (hs : s.conn.state = .connected) :
      Steps s (.load buf)
        { s with sending := s.sending ++ [(s.sends, buf)], sends := s.sends + 1 }
  | push (i k : ℕ) (buf : List Byte) (hi : s.sending[i]? = some (k, buf)) :
      Steps s (.push i)
        { s with sending := s.sending.eraseIdx i, queue := s.queue ++ [.sendInLoop k buf],
                 returned := s.returned ++ [(k, buf)] }
  | send {s' : ConnLoop} (buf : List Byte) (w : WriteResult) (hs : s.conn.state = .connected)
      (h : { s with sends := s.sends + 1,
                    returned := s.returned ++ [(s.sends, buf)] }.sendInLoop s.sends buf w =
        some s') : Steps s (.send buf w) s'
  | shutdown (hs : s.conn.state = .connected) :
      Steps s .shutdown { s with conn := { s.conn with state := .disconnecting },
                                 shutting := true, before := s.returned }
  | pushShutdown (hs : s.shutting = true) :
      Steps s .pushShutdown { s with shutting := false, queue := s.queue ++ [.shutdownInLoop] }
  | shutdownHere (hs : s.conn.state = .connected) :
      Steps s .shutdownHere { s with conn := { s.conn with state := .disconnecting },
                                     before := s.returned }.shutdownInLoop
  | refused (a : CallAct) (hs : s.conn.state ≠ .connected) : Steps s a s
  | taskSend {s' : ConnLoop} (k : ℕ) (buf : List Byte) (queue : List ConnTask) (w : WriteResult)
      (hq : s.queue = .sendInLoop k buf :: queue)
      (h : { s with queue }.sendInLoop k buf w = some s') : Steps s (.task w) s'
  | taskShutdown (queue : List ConnTask) (w : WriteResult)
      (hq : s.queue = .shutdownInLoop :: queue) :
      Steps s (.task w) { s with queue }.shutdownInLoop
  | handleWrite (w : WriteResult) (conn : TcpConnection) (effs : List ConnEffect)
      (hw : w.AtMost s.conn.outputBuffer.readableBytes)
      (h : s.conn.handleWrite w = some (conn, effs)) :
      Steps s (.handleWrite w) (effs.foldl effect { s with conn })

theorem steps_of_step (h : s.step a = some s') : Steps s a s' := by
  cases a with
  | load buf =>
      simp only [step] at h
      split at h
      · next hs => exact Option.some.inj h ▸ .load buf hs
      · next hs => exact Option.some.inj h ▸ .refused _ hs
  | push i =>
      obtain ⟨⟨k, buf⟩, hi, h⟩ := Option.bind_eq_some_iff.mp h
      exact Option.some.inj h ▸ .push i k buf hi
  | send buf w =>
      simp only [step] at h
      split at h
      · next hs => exact .send buf w hs h
      · next hs => exact Option.some.inj h ▸ .refused _ hs
  | shutdown =>
      simp only [step] at h
      split at h
      · next hs =>
          rw [shutdown_connected hs] at h
          exact Option.some.inj h ▸ .shutdown hs
      · next hs => exact Option.some.inj h ▸ .refused _ hs
  | pushShutdown =>
      obtain ⟨hs, h⟩ := guard_bind_eq_some_iff.mp h
      exact Option.some.inj h ▸ .pushShutdown hs
  | shutdownHere =>
      simp only [step] at h
      split at h
      · next hs =>
          rw [shutdown_connected hs] at h
          exact Option.some.inj h ▸ .shutdownHere hs
      · next hs => exact Option.some.inj h ▸ .refused _ hs
  | task w =>
      simp only [step] at h
      split at h
      · next k buf queue hq => exact .taskSend k buf queue w hq h
      · next queue hq => exact Option.some.inj h ▸ .taskShutdown queue w hq
      · exact nomatch h
  | handleWrite w =>
      obtain ⟨hw, h⟩ := guard_bind_eq_some_iff.mp h
      obtain ⟨⟨conn, effs⟩, hc, h⟩ := Option.bind_eq_some_iff.mp h
      exact Option.some.inj h ▸ .handleWrite w conn effs hw hc

end ConnLoop

end Muduo
