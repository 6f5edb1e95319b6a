import TelemetryHub.Server.Commands

/-!
# The loop

An iteration of the server's loop takes the clients out that have been given up, notes the clients
that are connected, waits, accepts whoever has come, serves each of the noted clients that was ready
with one read, and gives the command source its turn. `advance` is one step of this; between any two
steps anything else may happen to the server. `step` runs the loop from one wait to the next.
-/

namespace TelemetryHub.Server

/-! ## Peers -/

/-- A peer tries to connect, and waits to be accepted. -/
def connect (server : Server) (socket : Socket) : Server :=
  { server with peers := server.peers ++ [.waiting socket] }

def modifySocket (server : Server) (peer : Nat) (change : Socket → Socket) : Server :=
  { server with peers := server.peers.modify peer (·.modifySocket change) }

def arrive (server : Server) (peer : Nat) (bytes : List UInt8) : Server :=
  server.modifySocket peer (·.arrive bytes)

def typed (server : Server) (change : Inbound → Inbound) : Server :=
  match server.source with
  | some (.interactive source) =>
    { server with source := some (.interactive { source with input := change source.input }) }
  | _ => server

/-! ## Parts of an iteration -/

/-- Take the clients out that are no longer connected, and release them. -/
def reap (server : Server) : Server :=
  let (clients, roster) := server.roster.reap server.isConnected
  { server with roster }.closeAll clients

/-- A peer becomes what it is after its attempt to connect. -/
def settle (server : Server) (peer : Nat) (settled : Peer) : Server :=
  { server with peers := server.peers.set peer settled }

/-- Accept a peer that is waiting, or turn it away if there is no slot for it. -/
def acceptOne (server : Server) (peer : Nat) : Server :=
  match server.peers[peer]? with
  | some (.waiting socket) =>
    match server.roster.vacant with
    | .error _ => server.settle peer (.rejected socket)
    | .ok slot =>
      match server.roster.insert slot peer with
      | .error _ => server.settle peer (.rejected socket)
      | .ok roster => { server with roster }.settle peer (.accepted (.new slot socket))
  | _ => server

/-- Accept every peer that is waiting, in the order in which they came. -/
def acceptAll (server : Server) : Server :=
  if server.listening then (List.range server.peers.length).foldl acceptOne server else server

def hasWaiting (server : Server) : Bool :=
  server.listening && server.peers.any fun
    | .waiting _ => true
    | _ => false

/-- Take the client out that is in a slot, and release it. -/
def evict (server : Server) (slot : Nat) : Server :=
  match server.roster.remove slot with
  | .ok (peer, roster) => { server with roster }.modifyConnection peer Connection.close
  | .error _ => server

/-- Read one message of a client and handle it. A client that has no more to say is evicted. -/
def serve (server : Server) (peer : Nat) : Server :=
  match server.connection? peer with
  | none => server
  | some connection =>
    let (received, after) := connection.receive
    let server := server.setConnection peer after
    match received with
    | .ok text =>
      if text.isEmpty then server else (server.handleText text (clientName connection.slot)).2
    | .error _ => server.evict connection.slot

def pollSource (server : Server) (ready : Bool) : Server :=
  match server.source with
  | none => server
  | some source =>
    let (incoming, after) := source.poll ready
    let server := { server with source := some after }
    match incoming with
    | none => server
    | some incoming => (server.handle incoming source.label).2

/-- Leave the loop; the server is shut down on the way out. -/
def leave (server : Server) : Server := { server.shutdown with loop := .ended }

/-! ## Steps -/

/-- One step of the loop. -/
def advance (server : Server) : Server :=
  match server.loop with
  | .idle | .ended => server
  | .top =>
    if server.terminating then server.leave
    else
      let server := server.reap
      if server.listening then { server with loop := .held server.connected } else server.leave
  | .held polled =>
    let server := server.setPhase .running
    let ready := polled.filter fun peer => server.peers[peer]?.any Peer.isReady
    { server with loop := .woken ready server.hasWaiting (server.source.any Source.isReady) }
  | .woken ready listener source =>
    if server.terminating then server.leave
    else
      let server := server.setPhase .dispatching
      let server := if listener then server.acceptAll else server
      { server with loop := .serving ready source }
  | .serving (peer :: rest) source => { server with loop := .serving rest source }.serve peer
  | .serving [] source => { server with loop := .top }.pollSource source

/-- Whether the loop stands at a wait, or not in an iteration at all. -/
def isSettled (server : Server) : Bool :=
  match server.loop with
  | .idle | .held _ | .ended => true
  | _ => false

/-- Advance until the loop stands at a wait again, at most so many steps. -/
def advanceToWait : Nat → Server → Server
  | 0, server => server
  | steps + 1, server =>
    let server := server.advance
    if server.isSettled then server else advanceToWait steps server

def startLoop (server : Server) : Server :=
  match server.loop with
  | .idle => advanceToWait 1 { server with loop := .top }
  | _ => server

/-- The steps that an iteration takes at most, from its wait to the next one. -/
def stepsLeft (server : Server) : Nat :=
  match server.loop with
  | .held polled => polled.length + 4
  | _ => 0

/-- Run the loop from its wait to the next one. -/
def step (server : Server) : Server := advanceToWait server.stepsLeft server

def steps : Nat → Server → Server
  | 0, server => server
  | n + 1, server => steps n server.step

end TelemetryHub.Server
