import TelemetryHub.Proofs.Net.Sockets

/-!
# What is done with a connection

A connection that is read or that is given a payload does one of a few things (`Connection.Receives`,
`Connection.Sends`): it refuses, it gives the text that has been read or has written its payload, or it is
given up and says why.
-/

namespace TelemetryHub

/-- The text of a message as it has been read: without the end of its line. -/
def said (piece : List UInt8) : String := String.ofList (Text.decodeLossy (Text.stripTerminator piece))

namespace Connection

variable {c : Connection}

/-! ## Phases -/

theorem isConnected_iff : c.isConnected = true ↔ c.phase = .connected := by
  simp [isConnected]

theorem not_isConnected_iff : c.isConnected = false ↔ c.phase ≠ .connected := by
  simp [isConnected]

theorem markClosing_of_connected (connected : c.isConnected = true) :
    c.markClosing = { c with phase := .closing } := if_pos connected

theorem markClosing_of_gone (gone : c.isConnected = false) : c.markClosing = c :=
  if_neg (by simp [gone])

theorem close_of_closed (closed : c.phase = .closed) : c.close = c := by
  unfold close
  rw [closed]

theorem close_of_not_closed (unreleased : c.phase ≠ .closed) :
    c.close = { c with phase := .closed, shutdowns := c.shutdowns + 1 } := by
  unfold close
  split
  · next closed => exact absurd closed unreleased
  · rfl

theorem phase_close (c : Connection) : c.close.phase = .closed := by
  by_cases closed : c.phase = .closed
  · rw [close_of_closed closed, closed]
  · rw [close_of_not_closed closed]

/-! ## Reading and writing -/

/-- What a connection comes to that is read. -/
inductive Receives (c : Connection) : Except TransportError String × Connection → Prop where
  | refused (gone : c.isConnected = false) : Receives c (.error .closed, c)
  | gives {piece : List UInt8} {input : Inbound} (connected : c.isConnected = true)
    (read : c.socket.input.read messageLimit = (.bytes piece, input)) :
    Receives c (.ok (said piece), { c with socket := { c.socket with input } })
  | waits {failure : Failure} {input : Inbound} (connected : c.isConnected = true)
    (read : c.socket.input.read messageLimit = (.failed failure, input))
    (passes : failure.isTransient = true) :
    Receives c (.ok "", { c with socket := { c.socket with input } })
  | ends {input : Inbound} (connected : c.isConnected = true)
    (read : c.socket.input.read messageLimit = (.ended, input)) :
    Receives c (.error .ended, { c with phase := .closing, socket := { c.socket with input } })
  | breaks {failure : Failure} {input : Inbound} (connected : c.isConnected = true)
    (read : c.socket.input.read messageLimit = (.failed failure, input))
    (lasts : failure.isTransient = false) :
    Receives c (.error (.failed failure), { c with phase := .closing, socket := { c.socket with input } })

/-- What a connection comes to that is given a payload. -/
inductive Sends (c : Connection) (payload : List UInt8) :
    Except TransportError Unit × Connection → Prop where
  | refused (gone : c.isConnected = false) : Sends c payload (.error .closed, c)
  | writes {output : Outbound} (connected : c.isConnected = true)
    (write : c.socket.output.write payload = (none, output)) :
    Sends c payload (.ok (), { c with socket := { c.socket with output } })
  | breaks {failure : Failure} {output : Outbound} (connected : c.isConnected = true)
    (write : c.socket.output.write payload = (some failure, output)) :
    Sends c payload
      (.error (.failed failure), { c with phase := .closing, socket := { c.socket with output } })

theorem receive_of_gone (gone : c.isConnected = false) : c.receive = (.error .closed, c) :=
  if_pos (by simp [gone])

theorem send_of_gone (gone : c.isConnected = false) (payload : List UInt8) :
    c.send payload = (.error .closed, c) :=
  if_pos (by simp [gone])

theorem receives (c : Connection) : Receives c c.receive := by
  cases connected : c.isConnected with
  | false =>
    rw [receive_of_gone connected]
    exact .refused connected
  | true =>
    have gaveUp : ∀ socket, markClosing { c with socket } = { c with phase := .closing, socket } :=
      fun _ => markClosing_of_connected connected
    unfold receive
    rw [connected, if_neg (by decide)]
    generalize read : c.socket.input.read messageLimit = result
    obtain ⟨reading, input⟩ := result
    cases reading with
    | bytes piece => exact .gives connected read
    | ended =>
      dsimp only
      rw [gaveUp]
      exact .ends connected read
    | failed failure =>
      dsimp only
      cases passes : failure.isTransient with
      | true => exact .waits connected read passes
      | false =>
        rw [if_neg (by decide), gaveUp]
        exact .breaks connected read passes

/-- A read that only fails for now gives the empty text. -/
theorem receive_of_transient {failure : Failure} {input : Inbound} (connected : c.isConnected = true)
    (read : c.socket.input.read messageLimit = (.failed failure, input))
    (passes : failure.isTransient = true) :
    c.receive = (.ok "", { c with socket := { c.socket with input } }) := by
  unfold receive
  rw [connected, if_neg (by decide), read]
  exact if_pos passes

theorem sends (c : Connection) (payload : List UInt8) : Sends c payload (c.send payload) := by
  cases connected : c.isConnected with
  | false =>
    rw [send_of_gone connected]
    exact .refused connected
  | true =>
    unfold send
    rw [connected, if_neg (by decide)]
    generalize write : c.socket.output.write payload = result
    obtain ⟨failure?, output⟩ := result
    cases failure? with
    | none => exact .writes connected write
    | some failure =>
      dsimp only
      have gaveUp : markClosing { c with socket := { c.socket with output } } =
          { c with phase := .closing, socket := { c.socket with output } } :=
        markClosing_of_connected connected
      rw [gaveUp]
      exact .breaks connected write

/-! ## What is left alone -/

theorem socket_close (c : Connection) : c.close.socket = c.socket := by
  unfold close
  split <;> rfl

theorem slot_close (c : Connection) : c.close.slot = c.slot := by
  unfold close
  split <;> rfl

theorem slot_receive (c : Connection) : c.receive.2.slot = c.slot := by
  have receives := c.receives
  generalize c.receive = result at receives ⊢
  cases receives <;> rfl

theorem slot_send (c : Connection) (payload : List UInt8) : (c.send payload).2.slot = c.slot := by
  have sends := c.sends payload
  generalize c.send payload = result at sends ⊢
  cases sends <;> rfl

theorem output_receive (c : Connection) : c.receive.2.socket.output = c.socket.output := by
  have receives := c.receives
  generalize c.receive = result at receives ⊢
  cases receives <;> rfl

/-! ## What a read gives -/

/-- What a read on the connection gives, if it is connected. -/
def reading? (c : Connection) : Option Reading :=
  if c.isConnected then some (c.socket.input.read messageLimit).1 else none

theorem input_receive (c : Connection) :
    c.receive.2.socket.input =
      if c.isConnected then (c.socket.input.read messageLimit).2 else c.socket.input := by
  have receives := c.receives
  generalize c.receive = result at receives ⊢
  cases receives with
  | refused gone => rw [if_neg (by simp [gone])]
  | gives connected read | waits connected read | ends connected read | breaks connected read =>
    rw [if_pos connected, read]

/-- What a client says when it is read: the text of the piece, or nothing now, or its end. -/
theorem fst_receive (connected : c.isConnected = true) :
    c.receive.1 =
      match (c.socket.input.read messageLimit).1 with
      | .bytes piece => .ok (said piece)
      | .ended => .error .ended
      | .failed failure => if failure.isTransient then .ok "" else .error (.failed failure) := by
  have receives := c.receives
  generalize c.receive = result at receives ⊢
  cases receives with
  | refused gone => exact absurd (connected.symm.trans gone) nofun
  | gives _ read | ends _ read => rw [read]
  | waits _ read passes => simp only [read, passes, if_true]
  | breaks _ read lasts => simp [read, lasts]

/-- A connection that is read is connected afterwards exactly if it has given a text. -/
theorem isConnected_receive (c : Connection) : c.receive.2.isConnected = c.receive.1.isOk := by
  have receives := c.receives
  generalize c.receive = result at receives ⊢
  cases receives with
  | refused gone => exact gone
  | gives connected | waits connected => exact connected
  | ends | breaks => rfl

end Connection
end TelemetryHub
