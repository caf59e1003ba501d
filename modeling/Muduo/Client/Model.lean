/-
# `Muduo.Client.Model` — TcpClient.h, TcpClient.cpp

A client owns a connector and at most one connection, and works in their loop.
The calls of the user come between two steps of the loop, and from the callbacks
that the loop thread is in: `cb_` of the connector, where the client sets the
connection up and calls `connectionCb_`, and `HandleRemoveConnection`, which
calls it again.  A connection is closed from the code of `TcpConnection`, whose
operations are those of `Connection.Model`.

    connect b, shutdown, stop     the calls of the user (b: in the loop thread)
    enableRetry, destroy          EnableRetry(), ~TcpClient()
    connector a                   a step of the connector that is not a call
    conn op                       an operation of the connection
    reconnect                     the end of HandleRemoveConnection

`missed` and `atStop` are no fields of the source.  `missed`: a `Shutdown` has
left a connection connected.  `atStop`: since the last `Connect` the client has
been stopped while it had no connection; the descriptors created and delivered
by then.

Left out: the names of connections, which `Client.Names` puts in, and what
becomes of a connection or a descriptor when there is no client any more.
-/
import Muduo.Connection.Stream
import Muduo.Connector.Model

namespace Muduo

/-- `class TcpClient`. -/
structure TcpClient where
  connector : Connector
  doConnect : Bool
  retry : Bool
  connection : Option TcpConnection
  writeCompleteCb : Bool
  alive : Bool
  /-- the connection for which the loop thread is in `HandleRemoveConnection` -/
  removing : Option TcpConnection
  missed : Bool
  atStop : Option (ℕ × List ℤ)

inductive ClientAct
  | connect (onLoop : Bool)
  | shutdown
  | stop
  | enableRetry
  | destroy
  | connector (a : ConnectorAct)
  | conn (op : ConnOp)
  | reconnect

/-- Not one of the calls that the client makes. -/
def ConnectorAct.ofLoop : ConnectorAct → Bool
  | start _ | stop | restart => false
  | enqueue | event _ | timer _ | task | loop _ _ => true

/-- The loop thread turns to something else. -/
def ConnectorAct.turns : ConnectorAct → Bool
  | event _ | timer _ | task => true
  | _ => false

namespace TcpClient

/-- A client as `CreateTcpClient` makes it. -/
def init (writeCompleteCb : Bool) : TcpClient :=
  { connector := .init, doConnect := false, retry := false, connection := none, writeCompleteCb,
    alive := true, removing := none, missed := false, atStop := none }

/-- The loop thread can turn to something else. -/
def idle (s : TcpClient) : Bool := s.connector.frames = [] ∧ s.removing.isNone

/-- `Connect`. -/
def connect (s : TcpClient) (onLoop : Bool) : Option TcpClient := do
  let connector ← s.connector.step (.start onLoop)
  some { s with doConnect := true, connector, atStop := none }

/-- There is a connection, and it is connected. -/
def isConnected (connection : Option TcpConnection) : Bool :=
  connection.any fun c => c.state = .connected

/-- `Shutdown`: only the caller whose compare-and-swap succeeds goes on. -/
def shutdown (s : TcpClient) : TcpClient :=
  if s.doConnect then
    let connection := s.connection.map fun c => c.shutdown.1
    { s with doConnect := false, connection, missed := s.missed || isConnected connection }
  else { s with missed := s.missed || isConnected s.connection }

/-- `Stop`. -/
def stop (s : TcpClient) : TcpClient :=
  let atStop := if s.connection.isNone then some (s.connector.sockets, s.connector.delivered)
    else s.atStop
  if s.doConnect then
    { s with doConnect := false, connector := { s.connector with connect := false }, atStop }
  else { s with atStop }

/-- `~TcpClient`; a connection is left to a callback that closes it. -/
def destroy (s : TcpClient) : TcpClient :=
  if s.connection.isSome then { s with alive := false, connection := none }
  else { s.stop with alive := false }

/-- `HandleConnectSuccessfully`, with the `StepIntoEstablished` it ends with. -/
def handleConnectSuccessfully (s : TcpClient) (sockfd : ℤ) : Option TcpClient := do
  let c ← TcpConnection.new sockfd s.writeCompleteCb false 0
  let (c, _) ← c.stepIntoEstablished
  some { s with connection := some c }

/-- A step of the connector.  The callback it delivers a descriptor to finds out
whether the client still exists. -/
def connectorStep (s : TcpClient) (a : ConnectorAct) : Option TcpClient := do
  let connector ← s.connector.step a
  match connector.delivered.drop s.connector.delivered.length with
  | [] => some { s with connector }
  | sockfd :: _ =>
      if s.alive then ({ s with connector } : TcpClient).handleConnectSuccessfully sockfd
      else some { s with connector }

/-- `HandleRemoveConnection`, up to the `connectionCb_` of `StepIntoDestroyed`. -/
def handleRemoveConnection (s : TcpClient) (c : TcpConnection) : TcpClient :=
  { s with connection := none, removing := some c.stepIntoDestroyed.1 }

/-- An operation of the connection. -/
def connStep (s : TcpClient) (op : ConnOp) : Option TcpClient := do
  let c ← s.connection
  let (c, effects) ← c.exec op
  if .onCloseCb ∈ effects then some (s.handleRemoveConnection c)
  else some { s with connection := some c }

/-- The end of `StepIntoDestroyed` and of `HandleRemoveConnection`, as one step: a call of
the user comes before it or after it.  For one that comes between its accesses see
`Client.Restart`. -/
def reconnect (s : TcpClient) : Option TcpClient := do
  let c ← s.removing
  c.chan.remove
  if s.doConnect && s.retry then
    some { s with removing := none, connector := s.connector.restart }
  else some { s with removing := none }

def step (s : TcpClient) : ClientAct → Option TcpClient
  | .connect onLoop => do
      guard (s.alive = true)
      s.connect onLoop
  | .shutdown => do
      guard (s.alive = true)
      some s.shutdown
  | .stop => do
      guard (s.alive = true)
      some s.stop
  | .enableRetry => do
      guard (s.alive = true)
      some { s with retry := true }
  | .destroy => do
      guard (s.alive = true ∧ s.idle = true)
      some s.destroy
  | .connector a => do
      guard (a.ofLoop = true ∧ (a.turns = true → s.idle = true))
      s.connectorStep a
  | .conn op => do
      guard (s.alive = true ∧ s.idle = true)
      s.connStep op
  | .reconnect => do
      guard (s.connector.frames = [])
      s.reconnect

end TcpClient

end Muduo
