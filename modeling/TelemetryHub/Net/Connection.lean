import TelemetryHub.Net.Inbound
import TelemetryHub.Text.Basic
import TelemetryHub.Text.Utf8

/-!
# Connections

A connection of a client. It is connected until its peer ends it, a read or a write fails, or the
server gives it up; then it is closing, and closed once the server has released it. The phases only
go forward, and a connection that is not connected any more neither reads nor writes.
-/

namespace TelemetryHub

inductive ConnectionPhase where
  | connected
  | closing
  | closed
deriving DecidableEq

namespace ConnectionPhase

def rank : ConnectionPhase → Nat
  | .connected => 0
  | .closing => 1
  | .closed => 2

def ofRank : Nat → ConnectionPhase
  | 0 => .connected
  | 1 => .closing
  | _ => .closed

def name : ConnectionPhase → String
  | .connected => "Connected"
  | .closing => "Closing"
  | .closed => "Closed"

theorem ofRank_rank (phase : ConnectionPhase) : ofRank phase.rank = phase := by
  cases phase <;> rfl

end ConnectionPhase

/-- What the other side takes. -/
inductive Acceptance where
  | all
  /-- So many bytes more, and then a failure. -/
  | upTo (room : Nat) (failure : Failure)
  /-- One more payload, and then a failure: the other side has gone. -/
  | last (failure : Failure)
deriving DecidableEq

/-- The writable side of a connection: what has been written, and what is taken still. -/
structure Outbound where
  sent : List UInt8
  acceptance : Acceptance
deriving DecidableEq

namespace Outbound

def opened : Outbound := ⟨[], .all⟩

/-- Write a payload. A payload that is not taken as a whole is cut off. -/
def write (outbound : Outbound) (payload : List UInt8) : Option Failure × Outbound :=
  match outbound.acceptance with
  | .all => (none, { outbound with sent := outbound.sent ++ payload })
  | .last failure => (none, ⟨outbound.sent ++ payload, .upTo 0 failure⟩)
  | .upTo room failure =>
    if payload.length ≤ room then
      (none, ⟨outbound.sent ++ payload, .upTo (room - payload.length) failure⟩)
    else (some failure, ⟨outbound.sent ++ payload.take room, .upTo 0 failure⟩)

end Outbound

structure Socket where
  input : Inbound
  output : Outbound
deriving DecidableEq

namespace Socket

def opened : Socket := ⟨.opened, .opened⟩

def arrive (socket : Socket) (bytes : List UInt8) : Socket :=
  { socket with input := socket.input.arrive bytes }

def peerEnds (socket : Socket) : Socket := { socket with input := socket.input.close }

/-- The other side goes away: the next payload is still taken, but no further one. -/
def peerLeaves (socket : Socket) : Socket :=
  ⟨socket.input.close, { socket.output with acceptance := .last (.system .brokenPipe) }⟩

/-- The other side breaks the connection off. -/
def peerResets (socket : Socket) : Socket :=
  let reset := Failure.system .connectionReset
  ⟨socket.input.broken reset, { socket.output with acceptance := .upTo 0 reset }⟩

end Socket

inductive TransportError where
  | ended
  | closed
  | failed (failure : Failure)
deriving DecidableEq

def TransportError.name : TransportError → String
  | .ended => "Eof"
  | .closed => "Closed"
  | .failed _ => "Io"

def TransportError.phrase : TransportError → String
  | .ended => "Peer closed the connection"
  | .closed => "Connection already closed"
  | .failed failure => failure.phrase

/-- The connection of a client, which has a slot of the roster. -/
structure Connection where
  slot : Nat
  phase : ConnectionPhase
  socket : Socket
  /-- How often the socket has been shut down. -/
  shutdowns : Nat
deriving DecidableEq

/-- The name of the client in a slot. -/
def clientName (slot : Nat) : String := "client-" ++ toString slot

namespace Connection

def new (slot : Nat) (socket : Socket) : Connection := ⟨slot, .connected, socket, 0⟩

def isConnected (c : Connection) : Bool := c.phase = .connected

/-- Give a connection up. -/
def markClosing (c : Connection) : Connection :=
  if c.isConnected then { c with phase := .closing } else c

/-- Release a connection; the socket is shut down the first time. -/
def close (c : Connection) : Connection :=
  match c.phase with
  | .closed => c
  | _ => { c with phase := .closed, shutdowns := c.shutdowns + 1 }

/-- Read one message: its text without the end of its line, or the empty text if there is nothing
now. -/
def receive (c : Connection) : Except TransportError String × Connection :=
  if !c.isConnected then (.error .closed, c)
  else
    let (reading, input) := c.socket.input.read messageLimit
    let c := { c with socket := { c.socket with input } }
    match reading with
    | .bytes bytes => (.ok (String.ofList (Text.decodeLossy (Text.stripTerminator bytes))), c)
    | .ended => (.error .ended, c.markClosing)
    | .failed failure =>
      if failure.isTransient then (.ok "", c) else (.error (.failed failure), c.markClosing)

/-- Write one payload. A failure gives the connection up. -/
def send (c : Connection) (payload : List UInt8) : Except TransportError Unit × Connection :=
  if !c.isConnected then (.error .closed, c)
  else
    let (failure?, output) := c.socket.output.write payload
    let c := { c with socket := { c.socket with output } }
    match failure? with
    | none => (.ok (), c)
    | some failure => (.error (.failed failure), c.markClosing)

/-- Whether a wait for the connection returns at once. -/
def isReady (c : Connection) : Bool := c.socket.input.isReady

theorem rank_markClosing (c : Connection) : c.phase.rank ≤ c.markClosing.phase.rank := by
  unfold markClosing isConnected
  split
  · next connected =>
    simp at connected
    simp [connected, ConnectionPhase.rank]
  · exact Nat.le_refl _

theorem rank_close (c : Connection) : c.phase.rank ≤ c.close.phase.rank := by
  unfold close
  split
  · exact Nat.le_refl _
  · cases c.phase <;> simp [ConnectionPhase.rank]

end Connection
end TelemetryHub
