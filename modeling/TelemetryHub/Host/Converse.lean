import Std.Async.DNS
import Std.Async.TCP
import TelemetryHub.Host.System
import TelemetryHub.Launch

/-!
# The client at work

The client's turns on the network: each of them takes in what has arrived since the last one, and
prints and forwards what the turn has left to be printed and forwarded.
-/

namespace TelemetryHub.Host

open Std.Async

/-- Connect to the first address of a host that answers. -/
def connect (arguments : Options.ClientArguments) : IO TCP.Socket.Client := do
  let addresses ← (DNS.getAddrInfo arguments.hostname (toString arguments.port)).block
  let port := arguments.port.toUInt16
  let mut failure : IO.Error := .noSuchThing none 2 "no address"
  for address in addresses do
    try
      let socket ← TCP.Socket.Client.mk
      let target : Std.Net.SocketAddress := match address with
        | .v4 address => .v4 ⟨address, port⟩
        | .v6 address => .v6 ⟨address, port⟩
      (socket.connect target).block
      return socket
    catch error => failure := error
  throw failure

/-- A client at work: the readers of its socket and of its input. -/
structure Conversation where
  relay : Relay
  server : Reader
  input : Option Reader

namespace Conversation

/-- Take in what has arrived. -/
def gather (talk : Conversation) : IO Conversation := do
  let (arrived, server) ← talk.server.collect
  let relay := { talk.relay with fromServer := arrived talk.relay.fromServer }
  match talk.input with
  | none => return { talk with relay, server }
  | some reader =>
    let (typed, reader) ← reader.collect
    return ⟨{ relay with input := relay.input.map typed }, server, some reader⟩

/-- Print and forward what a turn has left. -/
def deliver (socket : TCP.Socket.Client) (talk : Conversation) : IO Conversation := do
  let output ← IO.getStdout
  let relay := talk.relay
  if !relay.output.sent.isEmpty then
    output.write ⟨relay.output.sent.toArray⟩
    output.flush
  if !relay.toServer.sent.isEmpty then
    (socket.send ⟨relay.toServer.sent.toArray⟩).block
  let emptied (outbound : Outbound) : Outbound := { outbound with sent := [] }
  return { talk with
    relay := { relay with output := emptied relay.output, toServer := emptied relay.toServer } }

/-- How long a turn waits when nothing has arrived, in milliseconds. -/
def pause : UInt32 := 10

partial def turns (socket : TCP.Socket.Client) (talk : Conversation) : IO RelayEnd := do
  let talk ← talk.gather
  let (reason?, relay) := talk.relay.turn
  match reason?, ← attempt (deliver socket { talk with relay }) with
  | some reason, _ => return reason
  | none, .error failure => return .failed failure
  | none, .ok talk =>
    IO.sleep pause
    turns socket talk

end Conversation

/-- Talk to the server until one of the two sides ends it. -/
def converse (socket : TCP.Socket.Client) (listenOnly : Bool) : IO RelayEnd := do
  let start : IO Read := do
    let read ← (socket.recv? Relay.readLimit.toUInt64).toIO
    return Task.map (·.map (·.getD .empty)) read
  let input ← if listenOnly then pure none else some <$> ownInput
  let relay : Relay := ⟨.opened, .opened, input.map fun _ => .opened, .opened⟩
  Conversation.turns socket ⟨relay, ← Reader.begin start, input⟩

end TelemetryHub.Host
