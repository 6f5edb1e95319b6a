import TelemetryHub.Server.Basic

/-!
# Carrying out commands

A command goes to the gates or to the sampling session. Texts are logged before they are read, so
that a text which is no command leaves its trace; a command that was read elsewhere is logged in its
wire form. A refused command changes nothing.
-/

namespace TelemetryHub.Server

/-- What an operation on the server comes to. -/
abbrev Attempt := Except Refusal Unit × Server

/-- The session, which the server lets go of. -/
def takeSession (server : Server) : Option Session × Server :=
  (server.session, { server with session := none })

/-- Start a session. The one that is there is taken out: it makes way if it is finished and goes back
if it is not. -/
def startSession (server : Server) (seconds : UInt64) : Attempt :=
  match server.sampler with
  | none => (.error .samplerUnavailable, server)
  | some sampler =>
    let session := Session.new sampler server.deadline seconds
    match server.takeSession with
    | (none, emptied) => (.ok (), { emptied with session := some session })
    | (some previous, emptied) =>
      if previous.isFinished then (.ok (), { emptied with session := some session })
      else (.error .sessionActive, { emptied with session := some previous })

/-- Stop the session and wait until it has published what it has. -/
def stopSession (server : Server) : Attempt :=
  match server.takeSession with
  | (none, emptied) => (.error .noSession, emptied)
  | (some session, emptied) => (.ok (), emptied.windDown session)

def dispatch (server : Server) (command : Command) : Attempt :=
  if server.terminating then (.error .shuttingDown, server)
  else
    match command.action with
    | .sessionStart seconds => server.startSession seconds
    | .sessionStop => server.stopSession
    | _ =>
      match server.gates.apply command with
      | .ok gates => (.ok (), { server with gates })
      | .error refusal => (.error refusal, server)

/-- Log a text, read it and carry out the command in it. -/
def handleText (server : Server) (text source : String) : Attempt :=
  let server := server.appendLog (Json.ofMessage text) source
  match Command.parse text with
  | .ok command => server.dispatch command
  | .error error => (.error (.notACommand error), server)

def handleCommand (server : Server) (command : Command) (source : String) : Attempt :=
  (server.appendLog command.message.toJson source).dispatch command

def handle (server : Server) (incoming : Incoming) (source : String) : Attempt :=
  match incoming with
  | .raw text => server.handleText text source
  | .parsed command => server.handleCommand command source

end TelemetryHub.Server
