import Std.Async.Signal
import Std.Async.TCP
import TelemetryHub.Host.System
import TelemetryHub.Launch

/-!
# The server at work

The server's loop on the network: each round hands the server what has arrived since the last one,
lets it run from one wait to the next, and carries out what it has decided to send, to release and to
log. An interrupt shuts the server down. No other program can be started from here, so sampling
sessions fail at their start.
-/

namespace TelemetryHub.Host

open Std.Async

structure Link where
  socket : TCP.Socket.Client
  reader : Reader

/-- A server at work: the sockets of its peers, which are gone once they have been released, its
input, and how much of the log is in its file. -/
structure Work where
  server : Server
  links : Array (Option Link)
  input : Option Reader
  logged : Nat

namespace Work

def join (work : Work) (socket : TCP.Socket.Client) : IO Work := do
  let start : IO Read := do
    let read ← (socket.recv? messageLimit.toUInt64).toIO
    return Task.map (·.map (·.getD .empty)) read
  let link := ⟨socket, ← Reader.begin start⟩
  return { work with server := work.server.connect .opened, links := work.links.push (some link) }

/-- Take everyone in who has come. -/
partial def joinAll (listener : TCP.Socket.Server) (work : Work) : IO Work := do
  match ← listener.tryAccept with
  | some socket => joinAll listener (← work.join socket)
  | none => return work

/-- Hand the server what has arrived. -/
def gather (work : Work) : IO Work := do
  let mut work := work
  for (link?, peer) in work.links.zipIdx do
    if let some link := link? then
      let (change, reader) ← link.reader.collect
      let arrived (socket : Socket) : Socket := { socket with input := change socket.input }
      work := { work with
        server := work.server.modifySocket peer arrived
        links := work.links.set! peer (some { link with reader }) }
  if let some reader := work.input then
    let (change, reader) ← reader.collect
    work := { work with server := work.server.typed change, input := some reader }
  return work

def isReleased : Peer → Bool
  | .waiting _ => false
  | .rejected _ => true
  | .accepted connection => connection.shutdowns ≠ 0

/-- Send what the server has written to its peers, and let go of those it has released. -/
def deliver (work : Work) : IO Work := do
  let mut work := work
  for (peer, i) in work.server.peers.zipIdx do
    if let some (some link) := work.links[i]? then
      let sent := peer.socket.output.sent
      if !sent.isEmpty then
        discard <| Async.toIO (link.socket.send ⟨sent.toArray⟩)
        let emptied (socket : Socket) : Socket :=
          { socket with output := { socket.output with sent := [] } }
        work := { work with server := work.server.modifySocket i emptied }
      if isReleased peer then
        discard <| Async.toIO link.socket.shutdown
        work := { work with links := work.links.set! i none }
  return work

/-- Write what is new in the log into its file. -/
def writeLog (log : Option IO.FS.Handle) (work : Work) : IO Work := do
  match log, work.server.log with
  | some handle, some log =>
    handle.putStr (log.written.drop work.logged).toString
    handle.flush
    return { work with logged := log.written.length }
  | _, _ => return work

/-- One round after the other, until the loop has ended. -/
partial def rounds (config : Config) (listener : TCP.Socket.Server) (log : Option IO.FS.Handle)
    (interrupt : AsyncTask Int) (work : Work) : IO Work := do
  let work ← (← joinAll listener work).gather
  let server := { work.server with now := ← timestamp }
  let server := if ← IO.hasFinished interrupt then server.shutdown else server
  let work ← ({ work with server := server.sessionFinishes.step } : Work).deliver
  match work.server.loop with
  | .ended => return work
  | _ =>
    let work ← work.writeLog log
    IO.sleep (min config.pollInterval.millis 1000).toUInt32
    rounds config listener log interrupt work

end Work

def listen (config : Config) : IO TCP.Socket.Server := do
  let listener ← TCP.Socket.Server.mk
  let address := (Std.Net.IPv4Addr.ofString config.bindAddress).getD (.ofParts 0 0 0 0)
  listener.bind (.v4 ⟨address, config.port.toUInt16⟩)
  listener.listen 128
  return listener

/-- Run the server with its settings until it has been shut down. -/
def serve (config : Config) (listener : TCP.Socket.Server) : IO Unit := do
  let (handle, opened) ← match config.logFile with
    | none => pure (none, .ok ())
    | some path =>
      match ← attempt (IO.FS.Handle.mk path .write) with
      | .ok handle => pure (some handle, .ok ())
      | .error failure => pure (none, .error failure)
  let commands ← match config.commands with
    | .script path => fileContent path
    | _ => pure (.error (.system .noEntry))
  let refused := (PerfProgram.new (config.sampler.getD "") "" "").sampler
    (.error (.system .accessDenied)) (.error (.system .accessDenied))
  let (server, warnings) := Launch.server config
    ⟨opened, none, commands, .opened, refused, ← clock, ← timestamp⟩
  warnings.forM IO.eprintln
  let input ← match config.commands with
    | .interactive => some <$> ownInput
    | _ => pure none
  let waiter ← Signal.Waiter.mk .sigint false
  let work ← (⟨server.startLoop, #[], input, 0⟩ : Work).rounds config listener handle (← waiter.wait)
  match config.logFile, work.server.logText with
  | some path, some text => IO.FS.writeFile path text
  | _, _ => return

end TelemetryHub.Host
