import TelemetryHub.Net.Connection

/-!
# The operator's client

The client prints what the server sends and forwards what the operator types, both as they come and
unchanged. It ends when the server ends the connection, or when what it has just read from the server
ends with `done`, the end of a line aside. The end of the operator's input only ends the forwarding.
-/

namespace TelemetryHub

/-- How the client ends. -/
inductive RelayEnd where
  | done
  | serverClosed
  | failed (failure : Failure)
deriving DecidableEq

/-- The client: the bytes from and to the server, the operator's input if it is still read, and the
output. -/
structure Relay where
  fromServer : Inbound
  toServer : Outbound
  input : Option Inbound
  output : Outbound
deriving DecidableEq

namespace Relay

/-- The word that ends the client. -/
def sentinel : List UInt8 := [0x64, 0x6F, 0x6E, 0x65]

def isTerminal (message : List UInt8) : Bool := sentinel.isSuffixOf (Text.stripTerminator message)

/-- How many bytes one read takes at most. -/
def readLimit : Nat := 4096

/-- What one half of a turn comes to. -/
inductive Half where
  | goOn
  /-- The rest of the turn is left out. -/
  | nextTurn
  | stop (reason : RelayEnd)
deriving DecidableEq

/-- Read from the server, and print what was read. -/
def receive (relay : Relay) : Half × Relay :=
  if !relay.fromServer.isReady then (.goOn, relay)
  else
    let (reading, fromServer) := relay.fromServer.read readLimit
    let relay := { relay with fromServer }
    match reading with
    | .failed failure =>
      if failure.isInterruption then (.nextTurn, relay) else (.stop (.failed failure), relay)
    | .ended => (.stop .serverClosed, relay)
    | .bytes bytes =>
      let (failure?, output) := relay.output.write bytes
      let relay := { relay with output }
      match failure? with
      | some failure => (.stop (.failed failure), relay)
      | none => if isTerminal bytes then (.stop .done, relay) else (.goOn, relay)

/-- Read from the operator's input, and forward what was read. -/
def forward (relay : Relay) : Half × Relay :=
  match relay.input with
  | none => (.goOn, relay)
  | some input =>
    if !input.isReady then (.goOn, relay)
    else
      let (reading, input) := input.read readLimit
      match reading with
      | .failed failure => (.stop (.failed failure), { relay with input := some input })
      | .ended => (.goOn, { relay with input := none })
      | .bytes bytes =>
        let (failure?, toServer) := relay.toServer.write bytes
        let relay := { relay with input := some input, toServer }
        match failure? with
        | some failure => (.stop (.failed failure), relay)
        | none => (.goOn, relay)

/-- One turn: how the client ends if it does, and the client after it. Which descriptors are ready is
found out before any of them is read. -/
def turn (relay : Relay) : Option RelayEnd × Relay :=
  match relay.receive with
  | (.stop reason, relay) => (some reason, relay)
  | (.nextTurn, relay) => (none, relay)
  | (.goOn, relay) =>
    match relay.forward with
    | (.stop reason, relay) => (some reason, relay)
    | (_, relay) => (none, relay)

def run : Nat → Relay → Option RelayEnd × Relay
  | 0, relay => (none, relay)
  | turns + 1, relay =>
    match relay.turn with
    | (some reason, relay) => (some reason, relay)
    | (none, relay) => run turns relay

/-- Turns that are enough when nothing more arrives: each of them takes bytes or comes to an end. -/
def turnsLeft (relay : Relay) : Nat :=
  relay.fromServer.queue.length + (relay.input.elim 0 fun input => input.queue.length) + 4

end Relay
end TelemetryHub
