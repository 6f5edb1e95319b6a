import Mathlib.Data.List.Basic
import TelemetryHub.Proofs.Net.Connections

/-!
# The life of a connection

A connection is read, written to, given up and released in any order, and between all that anything may
happen on its other side (`Event`). It is connected until one of a few things ends that (`Leaves`): the
stream ends, a read fails for good, a payload is cut off, or somebody gives it up or releases it. From then
on it refuses to read and to write and leaves its socket alone, whatever comes (`after_of_gone`). Its phases
only go forward (`phases_forward`). It is closed once somebody has released it (`closed_after`), and its
socket has been shut down exactly if it is closed (`Counted.after`).
-/

namespace TelemetryHub

namespace Connection

/-! ## Events -/

/-- What is done with a connection, and what happens on its other side. -/
inductive Event where
  | receive
  | send (payload : List UInt8)
  | markClosing
  | close
  /-- Something arrives, the stream ends or fails, or more or less is taken from now on. -/
  | transport (input : Inbound) (acceptance : Acceptance)
deriving DecidableEq

/-- What happens to a socket when nobody reads it and nobody writes to it. -/
def Event.beside : Event → Socket → Socket
  | .transport input acceptance, socket => ⟨input, { socket.output with acceptance }⟩
  | _, socket => socket

/-- The connection behind an event. -/
def happen (c : Connection) : Event → Connection
  | .receive => c.receive.2
  | .send payload => (c.send payload).2
  | .markClosing => c.markClosing
  | .close => c.close
  | .transport input acceptance => { c with socket := (Event.transport input acceptance).beside c.socket }

/-- The connection behind events, one after the other. -/
def after (c : Connection) (events : List Event) : Connection := events.foldl happen c

/-- The phases that a connection goes through, with its first one. -/
def phases (c : Connection) : List Event → List ConnectionPhase
  | [] => [c.phase]
  | event :: later => c.phase :: (c.happen event).phases later

/-- What ends that a connection is connected. -/
inductive Leaves (c : Connection) : Event → Prop where
  | ended (read : (c.socket.input.read messageLimit).1 = .ended) : Leaves c .receive
  | broken {failure : Failure} (read : (c.socket.input.read messageLimit).1 = .failed failure)
    (block : failure.kind ≠ .wouldBlock) (signal : failure.kind ≠ .interrupted) : Leaves c .receive
  | cutOff {payload : List UInt8} {failure : Failure}
    (write : (c.socket.output.write payload).1 = some failure) : Leaves c (.send payload)
  | givenUp : Leaves c .markClosing
  | released : Leaves c .close

/-- How one phase comes behind another: in their order, and only a release passes over the one between. -/
inductive Follows : Event → ConnectionPhase → ConnectionPhase → Prop where
  | stays {event : Event} {phase : ConnectionPhase} (other : event ≠ .close) :
    Follows event phase phase
  | leaves {event : Event} (other : event ≠ .close) : Follows event .connected .closing
  | released {phase : ConnectionPhase} : Follows .close phase .closed

/-! ## One event -/

/-- What an event makes of a connection: it stays connected or leaves, it is left alone once it has gone, or
it is released. -/
inductive Moves (c : Connection) (event : Event) : Connection → Prop where
  | stays {socket : Socket} (connected : c.isConnected = true) (kept : ¬c.Leaves event) :
    Moves c event { c with socket }
  | leaves {socket : Socket} (connected : c.isConnected = true) (leaves : c.Leaves event)
    (other : event ≠ .close) : Moves c event { c with phase := .closing, socket }
  | gone (gone : c.isConnected = false) (other : event ≠ .close) :
    Moves c event { c with socket := event.beside c.socket }
  | releases (here : event = .close) (unreleased : c.phase ≠ .closed) :
    Moves c event { c with phase := .closed, shutdowns := c.shutdowns + 1 }
  | released (here : event = .close) (closed : c.phase = .closed) : Moves c event c

theorem moves_receive (c : Connection) : Moves c .receive c.receive.2 := by
  have receives := c.receives
  generalize c.receive = result at receives ⊢
  cases receives with
  | refused gone =>
    apply Moves.gone gone
    exact nofun
  | gives connected read =>
    apply Moves.stays connected
    intro leaves
    cases leaves with
    | ended read' | broken read' => rw [read] at read'; cases read'
  | waits connected read passes =>
    apply Moves.stays connected
    intro leaves
    cases leaves with
    | ended read' => rw [read] at read'; cases read'
    | broken read' block signal =>
      rw [read] at read'
      cases read'
      rcases Failure.isTransient_iff.mp passes with blocks | interrupts
      · exact block blocks
      · exact signal interrupts
  | ends connected read =>
    have leaves : c.Leaves .receive := .ended (by rw [read])
    exact .leaves connected leaves nofun
  | breaks connected read lasts =>
    have lasting := Failure.isTransient_iff.not.mp (Bool.eq_false_iff.mp lasts)
    rw [not_or] at lasting
    have leaves : c.Leaves .receive := .broken (by rw [read]) lasting.1 lasting.2
    exact .leaves connected leaves nofun

theorem moves_send (c : Connection) (payload : List UInt8) :
    Moves c (.send payload) (c.send payload).2 := by
  have sends := c.sends payload
  generalize c.send payload = result at sends ⊢
  cases sends with
  | refused gone =>
    apply Moves.gone gone
    exact nofun
  | writes connected write =>
    apply Moves.stays connected
    intro leaves
    cases leaves with
    | cutOff write' => rw [write] at write'; cases write'
  | breaks connected write =>
    have leaves : c.Leaves (.send payload) := .cutOff (by rw [write])
    exact .leaves connected leaves nofun

theorem moves (c : Connection) (event : Event) : Moves c event (c.happen event) := by
  cases event with
  | receive => exact moves_receive c
  | send payload => exact moves_send c payload
  | markClosing =>
    change Moves c .markClosing c.markClosing
    cases connected : c.isConnected with
    | true =>
      rw [markClosing_of_connected connected]
      exact .leaves connected .givenUp nofun
    | false =>
      rw [markClosing_of_gone connected]
      exact .gone connected nofun
  | close =>
    change Moves c .close c.close
    by_cases closed : c.phase = .closed
    · rw [close_of_closed closed]
      exact .released rfl closed
    · rw [close_of_not_closed closed]
      exact .releases rfl closed
  | transport input acceptance =>
    cases connected : c.isConnected with
    | true => exact .stays connected nofun
    | false => exact .gone connected nofun

variable {c c' : Connection} {event : Event}

theorem Moves.follows (moves : Moves c event c') : Follows event c.phase c'.phase := by
  cases moves with
  | stays connected kept => exact .stays fun here => kept (here ▸ .released)
  | leaves connected leaves other =>
    rw [isConnected_iff.mp connected]
    exact .leaves other
  | gone gone other => exact .stays other
  | releases here => exact here ▸ .released
  | released here closed =>
    rw [here, closed]
    exact .released

/-- A connection that is connected stays so exactly if the event is none of those that end it. -/
theorem Moves.isConnected_iff (moves : Moves c event c') :
    c'.isConnected = true ↔ c.isConnected = true ∧ ¬c.Leaves event := by
  cases moves with
  | stays connected kept => exact ⟨fun _ => ⟨connected, kept⟩, fun _ => connected⟩
  | leaves connected leaves => exact ⟨nofun, fun stays => absurd leaves stays.2⟩
  | gone gone =>
    have stillGone : isConnected { c with socket := event.beside c.socket } = false := gone
    simp [gone, stillGone]
  | releases here => exact ⟨nofun, fun stays => absurd (here ▸ .released) stays.2⟩
  | released here closed =>
    have gone : c.isConnected = false := not_isConnected_iff.mpr (by simp [closed])
    simp [gone]

theorem Moves.socket_of_gone (moves : Moves c event c') (gone : c.isConnected = false) :
    c'.socket = event.beside c.socket := by
  cases moves with
  | stays connected | leaves connected => exact absurd (connected.symm.trans gone) nofun
  | gone => rfl
  | releases here | released here => rw [here]; rfl

theorem rank_of_follows {phase phase' : ConnectionPhase} (follows : Follows event phase phase') :
    phase.rank ≤ phase'.rank := by
  cases follows with
  | stays => exact Nat.le_refl _
  | leaves => exact Nat.zero_le _
  | released => cases phase <;> decide

/-! ## Events one after the other -/

/-- A connection that has gone leaves its socket to the other side, and does not come back. -/
theorem after_of_gone (gone : c.isConnected = false) (events : List Event) :
    (c.after events).isConnected = false ∧
      (c.after events).socket = events.foldl (fun socket event => event.beside socket) c.socket := by
  induction events generalizing c with
  | nil => exact ⟨gone, rfl⟩
  | cons event events ih =>
    have moves := moves c event
    have stillGone : (c.happen event).isConnected = false := by
      rw [Bool.eq_false_iff]
      intro connected
      cases gone.symm.trans (moves.isConnected_iff.mp connected).1
    have behind := ih stillGone
    rw [moves.socket_of_gone gone] at behind
    exact behind

/-- **Run**: a connection is connected as long as nothing has ended it. -/
theorem isConnected_after (connected : c.isConnected = true) (events : List Event) :
    (c.after events).isConnected = true ↔
      ∀ before event behind, events = before ++ event :: behind → ¬(c.after before).Leaves event := by
  induction events generalizing c with
  | nil => exact ⟨fun _ before _ _ same => absurd same (by simp), fun _ => connected⟩
  | cons event events ih =>
    have stays := (moves c event).isConnected_iff
    change ((c.happen event).after events).isConnected = true ↔ _
    -- either the rest of the events decides, or the first one has ended it already
    cases now : (c.happen event).isConnected with
    | true =>
      rw [ih now]
      constructor
      · intro kept before event' behind same
        cases before with
        | nil =>
          cases same
          exact (stays.mp now).2
        | cons first before =>
          cases same
          exact kept before event' behind rfl
      · intro kept before event' behind same
        exact kept (event :: before) event' behind (by rw [same]; rfl)
    | false =>
      have gone := (after_of_gone now events).1
      rw [gone]
      refine ⟨nofun, fun kept => ?_⟩
      exact absurd (stays.mpr ⟨connected, kept [] event events rfl⟩) (by simp [now])

theorem rank_le_phases (events : List Event) : ∀ phase ∈ c.phases events, c.phase.rank ≤ phase.rank := by
  induction events generalizing c with
  | nil => simp [phases]
  | cons event events ih =>
    intro phase isIn
    rcases List.mem_cons.mp isIn with rfl | later
    · exact Nat.le_refl _
    · exact Nat.le_trans (rank_of_follows (moves c event).follows) (ih phase later)

theorem phases_forward (c : Connection) (events : List Event) :
    (c.phases events).Pairwise (·.rank ≤ ·.rank) := by
  induction events generalizing c with
  | nil => exact List.pairwise_singleton _ _
  | cons event events ih =>
    refine List.pairwise_cons.mpr ⟨fun phase isIn => ?_, ih _⟩
    exact Nat.le_trans (rank_of_follows (moves c event).follows) (rank_le_phases events phase isIn)

/-- **Run**: a connection is released exactly if it was or somebody releases it. -/
theorem closed_after (c : Connection) (events : List Event) :
    (c.after events).phase = .closed ↔ c.phase = .closed ∨ .close ∈ events := by
  induction events generalizing c with
  | nil => simp [after]
  | cons event events ih =>
    have follows := (moves c event).follows
    -- only a release closes, so the question passes on to the connection behind the first event
    have here : (c.happen event).phase = .closed ↔ c.phase = .closed ∨ .close = event := by
      generalize c.phase = phase, (c.happen event).phase = phase' at follows
      cases follows with
      | stays other => simp [other.symm]
      | leaves other => simp [other.symm]
      | released => simp
    rw [List.mem_cons, ← or_assoc, ← here]
    exact ih _

/-- The socket of a connection is shut down when it is released. -/
def Counted (c : Connection) : Prop := c.shutdowns = if c.phase = .closed then 1 else 0

theorem Counted.moves (counted : c.Counted) (moves : Moves c event c') : c'.Counted := by
  unfold Counted at counted ⊢
  cases moves with
  | stays | gone | released => exact counted
  | leaves connected =>
    rw [isConnected_iff.mp connected] at counted
    exact counted
  | releases here unreleased =>
    rw [if_neg unreleased] at counted
    simp [counted]

theorem Counted.after (counted : c.Counted) (events : List Event) : (c.after events).Counted := by
  induction events generalizing c with
  | nil => exact counted
  | cons event events ih => exact ih (counted.moves (Connection.moves c event))

/-! ## The life of a connection -/

/-- What a connection does next. -/
structure Behaves (c : Connection) : Prop where
  follows : ∀ event, Follows event c.phase (c.happen event).phase
  /-- Only some things end that it is connected, and each of them does. -/
  leaves : c.phase = .connected → ∀ event, (c.happen event).phase ≠ .connected ↔ c.Leaves event
  /-- While it is connected it does not refuse, -/
  serves : c.phase = .connected →
    c.receive.1 ≠ .error .closed ∧ ∀ payload, (c.send payload).1 ≠ .error .closed
  /-- and afterwards it does for ever, taking nothing from its socket and giving nothing to it. -/
  refuses : c.phase ≠ .connected → ∀ later, let c' := c.after later
    c'.phase ≠ .connected ∧ c'.receive = (.error .closed, c') ∧
      (∀ payload, c'.send payload = (.error .closed, c')) ∧
      c'.socket = later.foldl (fun socket event => event.beside socket) c.socket
  /-- A read that would wait, or that a signal gets in the way of, gives the empty text. The same bytes are
  to be read as before, and unless the stream has failed, nothing is in the way of it any more and the rest is
  as it was. -/
  waits : c.phase = .connected → ∀ failure input,
    c.socket.input.read messageLimit = (.failed failure, input) →
    failure.kind = .wouldBlock ∨ failure.kind = .interrupted →
    c.receive = (.ok "", { c with socket := { c.socket with input } }) ∧
      input.queue = c.socket.input.queue ∧
      ((∀ failure, c.socket.input.finish ≠ .failed failure) →
        input = { c.socket.input with interruption := none })
  /-- Where nothing has arrived and nothing is in the way, it is all as it was. -/
  idles : c.phase = .connected → c.socket.input = .opened → c.receive = (.ok "", c)

theorem behaves (c : Connection) : c.Behaves where
  follows event := (moves c event).follows
  leaves connected event := by
    have stays := (moves c event).isConnected_iff
    rw [isConnected_iff, isConnected_iff] at stays
    rw [not_iff_comm, stays]
    exact ⟨fun kept => ⟨connected, kept⟩, And.right⟩
  serves connected := by
    rw [← isConnected_iff] at connected
    have refused : c.isConnected ≠ false := by simp [connected]
    refine ⟨fun closed => ?_, fun payload closed => ?_⟩
    · have receives := c.receives
      generalize c.receive = result at receives closed
      cases receives with
      | refused gone => exact refused gone
      | gives | waits | ends | breaks => cases closed
    · have sends := c.sends payload
      generalize c.send payload = result at sends closed
      cases sends with
      | refused gone => exact refused gone
      | writes | breaks => cases closed
  refuses gone later := by
    rw [← not_isConnected_iff] at gone
    obtain ⟨stillGone, socket⟩ := after_of_gone gone later
    exact ⟨not_isConnected_iff.mp stillGone, receive_of_gone stillGone, send_of_gone stillGone, socket⟩
  waits connected failure input read passes :=
    ⟨receive_of_transient (isConnected_iff.mpr connected) read (Failure.isTransient_iff.mpr passes),
      Inbound.queue_of_failed read, Inbound.of_read_failed read⟩
  idles connected nothing := by
    have read : c.socket.input.read messageLimit = (.failed (.system .tryAgain), c.socket.input) := by
      rw [nothing]
      rfl
    exact receive_of_transient (isConnected_iff.mpr connected) read (by decide)

/-- **The life of a connection.** From its acceptance on, whatever is done with it in whatever order and
whatever happens on its other side in between, its phases come in their order. It is connected until one of
the things happens that end this, and closed once it has been released; its socket is shut down with the
first release and never again. As long as it is connected it reads and writes, and from then on it refuses. -/
theorem lifecycle (slot : Nat) (socket : Socket) (events : List Event) :
    let first := new slot socket
    let c := first.after events
    (first.phases events).Pairwise (·.rank ≤ ·.rank) ∧
      (c.phase = .connected ↔ ∀ before event behind,
        events = before ++ event :: behind → ¬(first.after before).Leaves event) ∧
      (c.phase = .closed ↔ .close ∈ events) ∧
      (c.shutdowns = if .close ∈ events then 1 else 0) ∧ c.Behaves := by
  intro first c
  have closed : c.phase = .closed ↔ .close ∈ events := (first.closed_after events).trans (by simp [first, new])
  have counted : c.Counted := Counted.after (c := first) rfl events
  refine ⟨first.phases_forward events, ?_, closed, ?_, c.behaves⟩
  · rw [← isConnected_iff]
    exact isConnected_after rfl events
  · simpa only [Counted, closed] using counted

/-- A client sends a line and ends its stream; the server has a last record for it and releases it twice. -/
example :
    let line : List UInt8 := [0x78, 0x0A]
    let first := new 3 ⟨⟨line, none, .opened⟩, .opened⟩
    let events := [.receive, .receive, .send line, .transport ⟨[], none, .ended⟩ .all, .receive, .receive,
      .send line, .close, .close]
    first.phases events = [.connected, .connected, .connected, .connected, .connected, .closing, .closing,
        .closing, .closed, .closed] ∧
      (first.after events).socket.output.sent = line ∧ (first.after events).shutdowns = 1 := by
  decide

end Connection
end TelemetryHub
