import TelemetryHub.Gate.Apply
import TelemetryHub.Log
import TelemetryHub.Net.Roster
import TelemetryHub.Session.Run
import TelemetryHub.Source
import TelemetryHub.Telemetry

/-!
# The server

The server's state, and what is done to it from outside the loop: records are broadcast to every
connected client and to the log, and the server is shut down.

Whoever has tried to connect is a peer, and the roster holds the numbers of peers. So the loop can
hold on to a client that is no longer in the roster, as it does while it serves the clients it has
waited for.
-/

namespace TelemetryHub

inductive ServerPhase where
  | created
  | listening
  | running
  | dispatching
  | shuttingDown
  | closed
deriving DecidableEq

namespace ServerPhase

def phrase : ServerPhase → String
  | .created => "CREATED"
  | .listening => "LISTENING"
  | .running => "RUNNING"
  | .dispatching => "DISPATCHING"
  | .shuttingDown => "SHUTTING_DOWN"
  | .closed => "CLOSED"

def name : ServerPhase → String
  | .created => "Created"
  | .listening => "Listening"
  | .running => "Running"
  | .dispatching => "Dispatching"
  | .shuttingDown => "ShuttingDown"
  | .closed => "Closed"

def all : List ServerPhase :=
  [.created, .listening, .running, .dispatching, .shuttingDown, .closed]

def named? (name : String) : Option ServerPhase := all.find? (·.name = name)

/-- Whether a phase belongs to the end of the server. -/
def isFinal : ServerPhase → Bool
  | .shuttingDown | .closed => true
  | _ => false

end ServerPhase

/-- Whoever has tried to connect. -/
inductive Peer where
  /-- It has not been accepted yet. -/
  | waiting (socket : Socket)
  /-- It was turned away. -/
  | rejected (socket : Socket)
  | accepted (connection : Connection)
deriving DecidableEq

namespace Peer

def connection? : Peer → Option Connection
  | .accepted connection => some connection
  | _ => none

def socket : Peer → Socket
  | .waiting socket | .rejected socket => socket
  | .accepted connection => connection.socket

def modifySocket (peer : Peer) (change : Socket → Socket) : Peer :=
  match peer with
  | .waiting socket => .waiting (change socket)
  | .rejected socket => .rejected (change socket)
  | .accepted connection => .accepted { connection with socket := change connection.socket }

def isConnected (peer : Peer) : Bool := peer.connection?.any Connection.isConnected

def isReady (peer : Peer) : Bool := peer.connection?.any Connection.isReady

end Peer

/-- Where the loop is. -/
inductive LoopPoint where
  /-- It has not been started. -/
  | idle
  /-- At the start of an iteration. -/
  | top
  /-- About to wait for the clients of this iteration. -/
  | held (polled : List Nat)
  /-- The wait is over: the clients that are ready, and whether the listener and the source are. -/
  | woken (ready : List Nat) (listener source : Bool)
  /-- Serving the clients that are left; the source comes last. -/
  | serving (ready : List Nat) (source : Bool)
  | ended
deriving DecidableEq

inductive ServerError where
  | bind (port : Nat) (failure : Failure)
deriving DecidableEq

def ServerError.name : ServerError → String
  | .bind _ _ => "Bind"

def ServerError.phrase : ServerError → String
  | .bind port failure => "Failed to listen on port " ++ toString port ++ ": " ++ failure.phrase

structure Server where
  gates : Registry
  peers : List Peer
  roster : Roster Nat
  /-- Whether peers can connect. -/
  listening : Bool
  log : Option Log
  /-- What the log's file holds once the log has been closed. -/
  logFile : Option String
  /-- The answer of the log's device if it takes nothing. -/
  logRefusal : Option Failure
  session : Option Session
  /-- What the sampler does in a session that is started now, if there is a sampler. -/
  sampler : Option Sampler
  /-- When a sampler that is told to stop has to have ended. -/
  deadline : Deadline
  source : Option Source
  phase : ServerPhase
  /-- Whether the shutdown has begun. -/
  terminating : Bool
  loop : LoopPoint
  /-- The time as it is written into the log. -/
  now : String

namespace Server

/-- The name of the server's own records in the log. -/
def ownName : String := "agent"

/-- Go to another phase; once the shutdown has begun only its phases are taken. -/
def setPhase (server : Server) (phase : ServerPhase) : Server :=
  if server.terminating && !phase.isFinal then server else { server with phase }

/-- A server with so many slots for clients. -/
def new (capacity : Nat) (log : Option Log) (source : Option Source) (sampler : Option Sampler)
    (deadline : Deadline) (now : String) : Server :=
  setPhase
    { gates := .fresh
      peers := []
      roster := .empty capacity
      listening := true
      log := log
      logFile := none
      logRefusal := none
      session := none
      sampler := sampler
      deadline := deadline
      source := source
      phase := .created
      terminating := false
      loop := .idle
      now := now }
    .listening

/-! ## Clients -/

def connection? (server : Server) (peer : Nat) : Option Connection :=
  server.peers[peer]?.bind Peer.connection?

def setConnection (server : Server) (peer : Nat) (connection : Connection) : Server :=
  { server with peers := server.peers.set peer (.accepted connection) }

def modifyConnection (server : Server) (peer : Nat) (change : Connection → Connection) : Server :=
  match server.connection? peer with
  | some connection => server.setConnection peer (change connection)
  | none => server

def isConnected (server : Server) (peer : Nat) : Bool :=
  server.peers[peer]?.any Peer.isConnected

/-- The clients that are connected, in slot order. -/
def connected (server : Server) : List Nat := server.roster.snapshot server.isConnected

def closeAll (server : Server) (clients : List Nat) : Server :=
  clients.foldl (fun server peer => server.modifyConnection peer Connection.close) server

/-! ## Records -/

/-- Append the record of a message to the log, if there is one. -/
def appendLog (server : Server) (body : Json) (source : String) : Server :=
  match server.log with
  | none => server
  | some log =>
    { server with log := some (log.append body source server.now server.logRefusal).2 }

/-- The line that a record is for clients. -/
def payload (record : Json) : List UInt8 := Text.encode record.printCompact ++ [0x0A]

def sendTo (payload : List UInt8) (server : Server) (peer : Nat) : Server :=
  server.modifyConnection peer fun connection => (connection.send payload).2

/-- Send a record to every connected client and to the log. Nothing happens once the shutdown has
begun. -/
def broadcast (server : Server) (record : Json) : Server :=
  if server.terminating then server
  else
    (server.connected.foldl (sendTo (payload record)) server).appendLog record ownName

def broadcastAll (server : Server) (records : List Json) : Server :=
  records.foldl broadcast server

/-! ## Producers -/

def setEnabled (server : Server) (category : String) (enabled : Bool) : Bool × Server :=
  let (known, gates) := server.gates.setEnabled category enabled
  (known, { server with gates })

def setRate (server : Server) (category : String) (rate : Int64) : Bool × Server :=
  let (known, gates) := server.gates.setRate category rate
  (known, { server with gates })

def samples (server : Server) (category : String) (n : Nat) : Option (List UInt64) × Server :=
  let (numbers, gates) := server.gates.samples category n
  (numbers, { server with gates })

/-- Whether events of a category are to be delivered. -/
def isActive (server : Server) (category : String) : Bool :=
  (Category.named? category).any fun category => (server.gates.get category).active

/-- Broadcast the record of a producer. -/
def emit (server : Server) (category : String) (fields : Json.Members) : Server :=
  server.broadcast (Telemetry.tagged category fields)

/-! ## Sessions -/

def sessionRunning (server : Server) : Bool := server.session.any fun session => !session.isFinished

/-- The session's time is over. -/
def sessionExpires (server : Server) : Server :=
  { server with session := server.session.map (·.expire false) }

/-- The session publishes its next record; after the last one it is finished. -/
def sessionPublishes (server : Server) : Server :=
  match server.session with
  | none => server
  | some session =>
    match session.progress with
    | .publishing [] => { server with session := some session.finish }
    | .publishing (record :: rest) =>
      { server with session := some { session with progress := .publishing rest } }.broadcast record
    | _ => server

def sessionFinishes (server : Server) : Server :=
  match server.session with
  | none => server
  | some session =>
    { server with session := some session.finish }.broadcastAll (session.expire false).left

/-- Cut a session short that is no longer the server's, and let it publish what it has. -/
def windDown (server : Server) (session : Session) : Server :=
  server.broadcastAll (session.expire true).left

/-! ## The end -/

def closeLog (server : Server) : Server :=
  match server.log with
  | none => server
  | some log => { server with log := none, logFile := some (log.close server.logRefusal).2 }

def dropClients (server : Server) : Server :=
  let (clients, roster) := server.roster.drain
  { server with roster }.closeAll clients

def dropSession (server : Server) : Server :=
  match server.session with
  | none => server
  | some session => { server with session := none }.windDown session

/-- Shut the server down: release the clients, close the log, stop the session and listen no more.
A second time nothing happens. -/
def shutdown (server : Server) : Server :=
  if server.terminating then server
  else
    let server := ({ server with terminating := true }.setPhase .shuttingDown).dropClients
    let server := server.closeLog.dropSession
    { server with listening := false }.setPhase .closed

/-- What the log's file holds, if there is a log. -/
def logText (server : Server) : Option String :=
  match server.log with
  | some log => some log.written
  | none => server.logFile

end Server
end TelemetryHub
