import TelemetryHub.Proofs.Server.Streams
import TelemetryHub.Relay

/-!
# The course of a client

Around the turns of a client bytes come from the server and from the operator, in any pieces and at any
time, and either stream may end (`Event`). When nothing fails (`Unfailing`), a turn first prints what its
read from the server takes, and then forwards what its read from the input takes (`Turned`); if only the
input fails (`Sound`), the turn may end with this failure instead (`Went`). What comes from the server is
read in pieces that follow each other (`Ran.unread`) and is printed as it is read (`Ran.sent`). The last
piece ends the client with the word (`Ran.done_iff`), or the server's end does (`Ran.closed`), and there is
an end once the server has hung up (`exists_end`).
-/

namespace TelemetryHub

/-! ## Streams -/

/-- Bytes arrive, unless the other side has ended the stream. -/
def Inbound.gets (inbound : Inbound) (bytes : List UInt8) : Inbound :=
  if inbound.finish = .opened then inbound.arrive bytes else inbound

theorem Inbound.finish_gets (inbound : Inbound) (bytes : List UInt8) :
    (inbound.gets bytes).finish = inbound.finish := by
  unfold gets
  split <;> rfl

theorem Inbound.interruption_gets (inbound : Inbound) (bytes : List UInt8) :
    (inbound.gets bytes).interruption = inbound.interruption := by
  unfold gets
  split <;> rfl

/-- How what a read from the server gives ends the client, if it does. -/
def Reading.reason? : Reading → Option RelayEnd
  | .bytes piece => if Relay.isTerminal piece then some .done else none
  | .ended => some .serverClosed
  | .failed _ => none

theorem Reading.of_reason? {reading : Reading} {reason : RelayEnd} (gives : reading.reason? = some reason) :
    reason = .done ∨ reason = .serverClosed := by
  cases reading with
  | bytes piece =>
    simp only [Reading.reason?] at gives
    split at gives <;> cases gives
    exact .inl rfl
  | ended =>
    cases gives
    exact .inr rfl
  | failed => cases gives

/-- The end of a client as far as it comes from the server, and not from a failure. -/
def RelayEnd.byServer? : RelayEnd → Option RelayEnd
  | .failed _ => none
  | reason => some reason

namespace Relay

/-! ## Events -/

/-- What happens around a client, and its turns. -/
inductive Event where
  /-- Bytes arrive from the server; none do once it has hung up. -/
  | served (bytes : List UInt8)
  | hungUp
  /-- A signal gets in the way of the next read from the server. -/
  | interrupted
  | typed (bytes : List UInt8)
  | inputEnded
  | turn

def happen (relay : Relay) : Event → Option RelayEnd × Relay
  | .served bytes => (none, { relay with fromServer := relay.fromServer.gets bytes })
  | .hungUp => (none, { relay with fromServer := relay.fromServer.close })
  | .interrupted => (none, { relay with fromServer := relay.fromServer.interrupt (.plain .interrupted) })
  | .typed bytes => (none, { relay with input := relay.input.map (·.gets bytes) })
  | .inputEnded => (none, { relay with input := relay.input.map Inbound.close })
  | .turn => relay.turn

/-- The course of a client up to its end: how it ends if it does, and the client then. -/
def course (relay : Relay) : List Event → Option RelayEnd × Relay
  | [] => (none, relay)
  | event :: events =>
    match relay.happen event with
    | (some reason, after) => (some reason, after)
    | (none, after) => after.course events

/-- What the read from the server gives that an event comes with, if it comes with one. -/
def reading? (relay : Relay) : Event → Option Reading
  | .turn => some (relay.fromServer.read readLimit).1
  | _ => none

/-- The piece that is read from the server, if one is. -/
def piece? (relay : Relay) (event : Event) : Option (List UInt8) :=
  (relay.reading? event).bind Reading.piece?

/-- The pieces that are read from the server up to the end of the client. -/
def pieces (relay : Relay) : List Event → List (List UInt8)
  | [] => []
  | event :: events =>
    (relay.piece? event).toList ++
      match relay.happen event with
      | (some _, _) => []
      | (none, after) => after.pieces events

/-- What the server sends before it hangs up. -/
def stream : List Event → List UInt8
  | [] => []
  | .served bytes :: events => bytes ++ stream events
  | .hungUp :: _ => []
  | .interrupted :: events | .typed _ :: events | .inputEnded :: events | .turn :: events => stream events

/-- What is still to come from the server. -/
def coming (relay : Relay) (events : List Event) : List UInt8 :=
  if relay.fromServer.finish = .opened then stream events else []

/-- A run of the client is a course of turns alone. -/
theorem course_turns (relay : Relay) (turns : Nat) :
    relay.course (List.replicate turns .turn) = run turns relay := by
  induction turns generalizing relay with
  | zero => rfl
  | succ turns ih =>
    rw [List.replicate_succ, course, run, show relay.happen .turn = relay.turn from rfl]
    generalize relay.turn = result
    obtain ⟨reason?, after⟩ := result
    cases reason? with
    | none => exact ih after
    | some => rfl

theorem course_append (relay : Relay) (first second : List Event) :
    relay.course (first ++ second) =
      match relay.course first with
      | (some reason, after) => (some reason, after)
      | (none, after) => after.course second := by
  induction first generalizing relay with
  | nil => rfl
  | cons event events ih =>
    rw [List.cons_append, course, course]
    split
    · rfl
    · exact ih _

/-! ## Turns -/

/-- Neither the connection nor the output fails: the stream from the server is open or ends, what is
written is taken, and all that gets in the way of a read from the server is a signal. The input may do
anything. -/
structure Sound (relay : Relay) : Prop where
  fromServer : ∀ failure, relay.fromServer.finish ≠ .failed failure
  interruption : ∀ failure ∈ relay.fromServer.interruption, failure.isInterruption = true
  toServer : relay.toServer.acceptance = .all
  output : relay.output.acceptance = .all

/-- Nothing fails: the streams are open or end, what is written is taken, and all that gets in the way of
a read from the server is a signal. -/
structure Unfailing (relay : Relay) : Prop where
  fromServer : ∀ failure, relay.fromServer.finish ≠ .failed failure
  interruption : ∀ failure ∈ relay.fromServer.interruption, failure.isInterruption = true
  input : ∀ input ∈ relay.input, input.interruption = none ∧ ∀ failure, input.finish ≠ .failed failure
  toServer : relay.toServer.acceptance = .all
  output : relay.output.acceptance = .all

/-- What the first half of a turn comes to. -/
inductive Received (relay : Relay) : Half → Relay → Prop where
  | nothing (waits : relay.fromServer.isReady = false) : Received relay .goOn relay
  | interrupted {failure : Failure} (stands : relay.fromServer.interruption = some failure) :
    Received relay .nextTurn { relay with fromServer := { relay.fromServer with interruption := none } }
  | prints {piece : List UInt8} {fromServer : Inbound}
    (read : relay.fromServer.read readLimit = (.bytes piece, fromServer))
    (other : isTerminal piece = false) :
    Received relay .goOn { relay with fromServer, output := ⟨relay.output.sent ++ piece, .all⟩ }
  | done {piece : List UInt8} {fromServer : Inbound}
    (read : relay.fromServer.read readLimit = (.bytes piece, fromServer))
    (terminal : isTerminal piece = true) :
    Received relay (.stop .done) { relay with fromServer, output := ⟨relay.output.sent ++ piece, .all⟩ }
  | closed (read : relay.fromServer.read readLimit = (.ended, relay.fromServer)) :
    Received relay (.stop .serverClosed) relay

/-- What the second half of a turn comes to. -/
inductive Forwarded (relay : Relay) : Relay → Prop where
  | nothing (waits : ∀ input ∈ relay.input, input.isReady = false) : Forwarded relay relay
  | sends {piece : List UInt8} {input after : Inbound} (typed : relay.input = some input)
    (read : input.read readLimit = (.bytes piece, after)) :
    Forwarded relay { relay with input := some after, toServer := ⟨relay.toServer.sent ++ piece, .all⟩ }
  | ends {input : Inbound} (typed : relay.input = some input)
    (read : input.read readLimit = (.ended, input)) : Forwarded relay { relay with input := none }

/-- The second half of a turn comes to a failure of the input. -/
inductive Breaks (relay : Relay) (failure : Failure) : Relay → Prop where
  | intro {input after : Inbound} (typed : relay.input = some input) (ready : input.isReady = true)
    (read : input.read readLimit = (.failed failure, after)) :
    Breaks relay failure { relay with input := some after }

/-- What a turn comes to. -/
inductive Turned (relay : Relay) : Option RelayEnd → Relay → Prop where
  | stops {reason : RelayEnd} {after : Relay} (received : Received relay (.stop reason) after) :
    Turned relay (some reason) after
  | interrupted {after : Relay} (received : Received relay .nextTurn after) : Turned relay none after
  | goesOn {between after : Relay} (received : Received relay .goOn between)
    (forwarded : Forwarded between after) : Turned relay none after

/-- What a turn comes to when the input may fail. -/
inductive Went (relay : Relay) : Option RelayEnd → Relay → Prop where
  | turned {reason : Option RelayEnd} {after : Relay} (turned : Turned relay reason after) :
    Went relay reason after
  | breaks {failure : Failure} {between after : Relay} (received : Received relay .goOn between)
    (breaks : Breaks between failure after) : Went relay (some (.failed failure)) after

variable {relay after : Relay} {events : List Event} {reason : Option RelayEnd}

theorem Unfailing.sound (unfailing : relay.Unfailing) : relay.Sound :=
  ⟨unfailing.fromServer, unfailing.interruption, unfailing.toServer, unfailing.output⟩

theorem received (sound : relay.Sound) : Received relay relay.receive.1 relay.receive.2 := by
  unfold receive
  split
  · next waits => exact .nothing (by simpa using waits)
  next ready =>
  have reads := relay.fromServer.reads readLimit
  generalize read : relay.fromServer.read readLimit = result at reads ⊢
  cases reads with
  | interrupted stands =>
    simp only [sound.interruption _ stands, if_true]
    exact .interrupted stands
  | takes =>
    simp only [Outbound.write_of_all sound.output]
    split
    · next terminal => exact .done read terminal
    · next other => exact .prints read (Bool.eq_false_iff.mpr other)
  | waits empty opened => exact absurd opened (Inbound.not_waits (by simpa using ready) empty)
  | ends => exact .closed read
  | breaks broken => exact absurd broken (sound.fromServer _)

theorem forwarded_or_breaks (sound : relay.Sound) :
    (∃ after, relay.forward = (.goOn, after) ∧ Forwarded relay after) ∨
      ∃ failure after, relay.forward = (.stop (.failed failure), after) ∧
        Breaks relay failure after := by
  unfold forward
  split
  · next none => exact .inl ⟨_, rfl, .nothing (by simp [none])⟩
  next input typed =>
  split
  · next waits => exact .inl ⟨_, rfl, .nothing (by simpa [typed] using waits)⟩
  next notWaits =>
  have ready : input.isReady = true := by simpa using notWaits
  have reads := input.reads readLimit
  generalize read : input.read readLimit = result at reads ⊢
  cases reads with
  | takes =>
    simp only [Outbound.write_of_all sound.toServer]
    exact .inl ⟨_, rfl, .sends typed read⟩
  | ends => exact .inl ⟨_, rfl, .ends typed read⟩
  | waits empty opened => exact absurd opened (Inbound.not_waits ready empty)
  | interrupted | breaks => exact .inr ⟨_, _, rfl, .intro typed ready read⟩

theorem Unfailing.not_breaks {failure : Failure} (unfailing : relay.Unfailing) :
    ¬Breaks relay failure after := by
  intro breaks
  obtain @⟨input, _, typed, ready, read⟩ := breaks
  obtain ⟨undisturbed, proper⟩ := unfailing.input input typed
  have reads := input.reads readLimit
  rw [read] at reads
  cases reads with
  | interrupted stands => exact absurd (undisturbed.symm.trans stands) nofun
  | waits empty opened => exact absurd opened (Inbound.not_waits ready empty)
  | breaks broken => exact absurd broken (proper _)

/-- What a turn reads from the server has nothing to do with the direction to the server. -/
theorem Received.toServer {half : Half} (received : Received relay half after) :
    after.input = relay.input ∧ after.toServer = relay.toServer := by
  cases received <;> exact ⟨rfl, rfl⟩

theorem Received.sound {half : Half} (received : Received relay half after) (sound : relay.Sound) :
    after.Sound := by
  cases received with
  | nothing | closed => exact sound
  | interrupted => exact { sound with interruption := nofun }
  | prints read | done read =>
    obtain ⟨-, -, -, rfl⟩ := Inbound.of_read_bytes read
    exact { sound with output := rfl }

theorem Received.unfailing {half : Half} (received : Received relay half after)
    (unfailing : relay.Unfailing) : after.Unfailing :=
  { received.sound unfailing.sound with input := received.toServer.1 ▸ unfailing.input }

theorem Forwarded.sound (forwarded : Forwarded relay after) (sound : relay.Sound) : after.Sound := by
  cases forwarded with
  | nothing | ends => exact { sound with }
  | sends => exact { sound with toServer := rfl }

theorem Forwarded.unfailing (forwarded : Forwarded relay after) (unfailing : relay.Unfailing) :
    after.Unfailing := by
  refine { forwarded.sound unfailing.sound with input := ?_ }
  cases forwarded with
  | nothing => exact unfailing.input
  | sends typed read =>
    obtain ⟨-, -, -, rfl⟩ := Inbound.of_read_bytes read
    rintro input ⟨⟩
    have before := unfailing.input _ typed
    exact before
  | ends => exact nofun

/-- **What a turn does when neither the connection nor the output fails.** -/
theorem went (sound : relay.Sound) : Went relay relay.turn.1 relay.turn.2 := by
  have first := received sound
  unfold turn
  generalize relay.receive = result at first ⊢
  obtain ⟨half, between⟩ := result
  cases half with
  | stop reason => exact .turned (.stops first)
  | nextTurn => exact .turned (.interrupted first)
  | goOn =>
    rcases forwarded_or_breaks (first.sound sound) with
      ⟨after, forward, second⟩ | ⟨failure, after, forward, second⟩
    · simp only [forward]
      exact .turned (.goesOn first second)
    · simp only [forward]
      exact .breaks first second

/-- **What a turn does when nothing fails.** -/
theorem turned (unfailing : relay.Unfailing) : Turned relay relay.turn.1 relay.turn.2 := by
  have went := went unfailing.sound
  generalize relay.turn.1 = reason, relay.turn.2 = after at went
  cases went with
  | turned turned => exact turned
  | breaks received breaks => exact absurd breaks (received.unfailing unfailing).not_breaks

theorem Went.sound (went : Went relay reason after) (sound : relay.Sound) : after.Sound := by
  cases went with
  | turned turned =>
    cases turned with
    | stops received | interrupted received => exact received.sound sound
    | goesOn received forwarded => exact forwarded.sound (received.sound sound)
  | breaks received breaks =>
    cases breaks
    exact { received.sound sound with }

theorem Turned.unfailing (turned : Turned relay reason after) (unfailing : relay.Unfailing) :
    after.Unfailing := by
  cases turned with
  | stops received | interrupted received => exact received.unfailing unfailing
  | goesOn received forwarded => exact forwarded.unfailing (received.unfailing unfailing)

/-! ## Steps -/

/-- What half a turn says about the end of the client. -/
def Half.reason? : Half → Option RelayEnd
  | .goOn | .nextTurn => none
  | .stop reason => some reason

/-- What an event does to the direction from the server, as long as nothing fails. -/
structure Step (relay : Relay) (event : Event) (reason : Option RelayEnd) (after : Relay) : Prop where
  /-- What has not been read or is to come is read now or later. -/
  unread : ∀ events, relay.fromServer.queue ++ relay.coming (event :: events) =
    (relay.piece? event).toList.flatten ++ (after.fromServer.queue ++ after.coming events)
  sent : after.output.sent = relay.output.sent ++ (relay.piece? event).toList.flatten
  ends : reason = (relay.reading? event).bind Reading.reason?
  closed : reason = some RelayEnd.serverClosed →
    after.fromServer.queue = [] ∧ after.fromServer.finish ≠ .opened

/-- The forwarding has nothing to do with the direction from the server. -/
theorem Forwarded.fromServer (forwarded : Forwarded relay after) : after.fromServer = relay.fromServer := by
  cases forwarded <;> rfl

theorem Forwarded.output (forwarded : Forwarded relay after) : after.output = relay.output := by
  cases forwarded <;> rfl

theorem Step.forwarded {event : Event} {between : Relay} (step : Step relay event reason between)
    (forwarded : Forwarded between after) : Step relay event reason after where
  unread := by simpa only [coming, forwarded.fromServer] using step.unread
  sent := by rw [forwarded.output, step.sent]
  ends := step.ends
  closed := by
    rw [forwarded.fromServer]
    exact step.closed

/-- A failure of the input leaves the direction from the server as it is. -/
theorem Step.breaks {event : Event} {between : Relay} {failure : Failure}
    (step : Step relay event reason between) (breaks : Breaks between failure after) :
    Step relay event reason after := by
  cases breaks
  exact { step with }

/-- A read that fails takes nothing and ends nothing. -/
theorem Step.of_failed {failure : Failure} (failed : (relay.fromServer.read readLimit).1 = .failed failure)
    (queue : after.fromServer.queue = relay.fromServer.queue)
    (finish : after.fromServer.finish = relay.fromServer.finish) (output : after.output = relay.output) :
    Step relay .turn none after where
  unread events := by simp [piece?, reading?, failed, Reading.piece?, coming, stream, queue, finish]
  sent := by simp [piece?, reading?, failed, Reading.piece?, output]
  ends := by simp [reading?, failed, Reading.reason?]
  closed := nofun

/-- A piece is printed, and may be the last. -/
theorem Step.of_piece {piece : List UInt8} {fromServer : Inbound}
    (read : relay.fromServer.read readLimit = (.bytes piece, fromServer))
    (left : after.fromServer = fromServer) (sent : after.output.sent = relay.output.sent ++ piece)
    (ends : reason = (Reading.bytes piece).reason?) (open' : reason ≠ some .serverClosed) :
    Step relay .turn reason after := by
  obtain ⟨front, -⟩ := Inbound.read_bytes read
  obtain ⟨-, -, -, rest⟩ := Inbound.of_read_bytes read
  have finish : fromServer.finish = relay.fromServer.finish := by rw [rest]
  refine { unread := fun events => ?_, sent := ?_, ends := ?_, closed := fun closed => absurd closed open' }
  · simp [piece?, reading?, read, Reading.piece?, coming, stream, front, left, finish]
  · simp [piece?, reading?, read, Reading.piece?, sent]
  · simpa only [reading?, read, Option.bind_some] using ends

theorem Received.step {half : Half} (received : Received relay half after) :
    Step relay .turn half.reason? after := by
  cases received with
  | nothing waits =>
    have idle : relay.fromServer.queue = [] ∧ relay.fromServer.finish = .opened := by
      simpa [Inbound.isReady] using waits
    have reads := relay.fromServer.reads readLimit
    obtain ⟨failure, failed⟩ : ∃ failure, (relay.fromServer.read readLimit).1 = .failed failure := by
      generalize relay.fromServer.read readLimit = result at reads ⊢
      cases reads with
      | interrupted | waits | breaks => exact ⟨_, rfl⟩
      | takes _ nonempty => exact absurd idle.1 nonempty
      | ends _ _ ended => cases idle.2.symm.trans ended
    exact .of_failed failed rfl rfl rfl
  | @interrupted failure stands =>
    have failed : (relay.fromServer.read readLimit).1 = .failed failure := by
      unfold Inbound.read
      rw [stands]
    exact .of_failed failed rfl rfl rfl
  | prints read other =>
    apply Step.of_piece read rfl rfl
    · simp [Half.reason?, Reading.reason?, other]
    · intro closed
      cases closed
  | done read terminal =>
    apply Step.of_piece read rfl rfl
    · simp [Half.reason?, Reading.reason?, terminal]
    · intro closed
      cases closed
  | closed read =>
    refine { unread := fun events => ?_, sent := ?_, ends := ?_, closed := fun _ => ?_ }
    · simp [piece?, reading?, read, Reading.piece?, coming, stream]
    · simp [piece?, reading?, read, Reading.piece?]
    · simp [reading?, read, Reading.reason?, Half.reason?]
    · exact Inbound.of_read_ended _ (congrArg Prod.fst read)

theorem Turned.step (turned : Turned relay reason after) : Step relay .turn reason after := by
  cases turned with
  | stops received | interrupted received => exact received.step
  | goesOn received forwarded => exact received.step.forwarded forwarded

/-- The reads from the server end a client in two ways. -/
theorem Turned.byServer (turned : Turned relay reason after) :
    reason.bind RelayEnd.byServer? = reason := by
  cases same : reason with
  | none => rfl
  | some reason =>
    obtain ⟨reading, -, gives⟩ := Option.bind_eq_some_iff.mp (turned.step.ends.symm.trans same)
    rcases Reading.of_reason? gives with rfl | rfl <;> rfl

/-- The bytes that a read takes decide on the first half of the turn. -/
theorem Received.of_bytes {half : Half} {piece : List UInt8} {rest : Inbound}
    (received : Received relay half after) (read : relay.fromServer.read readLimit = (.bytes piece, rest)) :
    half.reason? = (Reading.bytes piece).reason? ∧ after.fromServer = rest := by
  obtain ⟨undisturbed, nonempty, -, -⟩ := Inbound.of_read_bytes read
  cases received with
  | nothing waits => simp [Inbound.isReady, nonempty] at waits
  | interrupted stands => simp [stands] at undisturbed
  | prints same other =>
    cases same.symm.trans read
    exact ⟨by simp [Half.reason?, Reading.reason?, other], rfl⟩
  | done same terminal =>
    cases same.symm.trans read
    exact ⟨by simp [Half.reason?, Reading.reason?, terminal], rfl⟩
  | closed same => cases same.symm.trans read

theorem Turned.of_bytes {piece : List UInt8} {rest : Inbound} (turned : Turned relay reason after)
    (read : relay.fromServer.read readLimit = (.bytes piece, rest)) :
    reason = (Reading.bytes piece).reason? ∧ after.fromServer = rest := by
  cases turned with
  | stops received | interrupted received => exact received.of_bytes read
  | goesOn received forwarded =>
    rw [forwarded.fromServer]
    exact received.of_bytes read

/-- **Step**: this is what any event does. -/
theorem step_happen (sound : relay.Sound) (event : Event) :
    Step relay event ((relay.happen event).1.bind RelayEnd.byServer?) (relay.happen event).2 := by
  cases event with
  | served bytes =>
    refine { unread := fun events => ?_, sent := (List.append_nil _).symm, ends := rfl, closed := nofun }
    simp only [happen, coming, stream, Inbound.gets, piece?, reading?]
    split
    · next opened => simp [Inbound.arrive, opened]
    · simp
  | hungUp =>
    refine { unread := fun events => ?_, sent := (List.append_nil _).symm, ends := rfl, closed := nofun }
    simp only [happen, coming, stream, Inbound.close, piece?, reading?]
    split <;> simp [*]
  | interrupted | typed | inputEnded =>
    exact { unread := fun events => rfl, sent := (List.append_nil _).symm, ends := rfl, closed := nofun }
  | turn =>
    have went := went sound
    change Step relay .turn (relay.turn.1.bind RelayEnd.byServer?) relay.turn.2
    generalize relay.turn.1 = reason, relay.turn.2 = after at went
    cases went with
    | turned turned =>
      rw [turned.byServer]
      exact turned.step
    | breaks received breaks => exact received.step.breaks breaks

theorem sound_happen (sound : relay.Sound) (event : Event) : (relay.happen event).2.Sound := by
  cases event with
  | served bytes =>
    refine { sound with fromServer := ?_, interruption := ?_ }
    · simpa only [happen, Inbound.finish_gets] using sound.fromServer
    · simpa only [happen, Inbound.interruption_gets] using sound.interruption
  | hungUp =>
    refine { sound with fromServer := Inbound.not_failed_close sound.fromServer, interruption := ?_ }
    simpa only [happen, Inbound.interruption_close] using sound.interruption
  | interrupted =>
    refine { sound with interruption := ?_ }
    rintro failure ⟨⟩
    rfl
  | typed | inputEnded => exact { sound with }
  | turn => exact (went sound).sound sound

theorem unfailing_happen (unfailing : relay.Unfailing) (event : Event) :
    (relay.happen event).2.Unfailing := by
  refine { sound_happen unfailing.sound event with input := ?_ }
  cases event with
  | served | hungUp | interrupted => exact unfailing.input
  | typed bytes =>
    intro input isIn
    obtain ⟨before, typed, rfl⟩ := Option.map_eq_some_iff.mp isIn
    rw [Inbound.interruption_gets, Inbound.finish_gets]
    exact unfailing.input before typed
  | inputEnded =>
    intro input isIn
    obtain ⟨before, typed, rfl⟩ := Option.map_eq_some_iff.mp isIn
    obtain ⟨undisturbed, proper⟩ := unfailing.input before typed
    rw [Inbound.interruption_close]
    exact ⟨undisturbed, Inbound.not_failed_close proper⟩
  | turn => exact ((turned unfailing).unfailing unfailing).input

/-- When nothing fails, every end comes from the server. -/
theorem byServer_happen (unfailing : relay.Unfailing) (event : Event) :
    (relay.happen event).1.bind RelayEnd.byServer? = (relay.happen event).1 := by
  cases event with
  | turn => exact (turned unfailing).byServer
  | served | hungUp | interrupted | typed | inputEnded => rfl

/-! ## Courses -/

/-- Every piece has bytes, and no more than a read takes. -/
theorem length_pieces {piece : List UInt8} (isIn : piece ∈ relay.pieces events) :
    piece ≠ [] ∧ piece.length ≤ readLimit := by
  have first : ∀ {relay : Relay} {event : Event}, piece ∈ relay.piece? event →
      piece ≠ [] ∧ piece.length ≤ readLimit := by
    intro relay event taken
    cases event with
    | turn => exact Inbound.length_piece _ (by decide) taken
    | served | hungUp | interrupted | typed | inputEnded => cases taken
  induction events generalizing relay with
  | nil => cases isIn
  | cons event events ih =>
    rcases List.mem_append.mp isIn with now | later
    · exact first (Option.mem_toList.mp now)
    · split at later
      · cases later
      · exact ih later

/-- A course from event to event, with the pieces that are read and the end that comes from the server. A
course may stop without one: the input has failed. -/
inductive Ran : Relay → List Event → List (List UInt8) → Option RelayEnd → Relay → Prop where
  | nil {relay : Relay} : Ran relay [] [] none relay
  | stops {relay after : Relay} {event : Event} {events : List Event} {reason : Option RelayEnd}
    (step : Step relay event reason after) :
    Ran relay (event :: events) (relay.piece? event).toList reason after
  | goesOn {relay between after : Relay} {event : Event} {events : List Event} {pieces : List (List UInt8)}
    {reason : Option RelayEnd} (step : Step relay event none between)
    (ran : Ran between events pieces reason after) :
    Ran relay (event :: events) ((relay.piece? event).toList ++ pieces) reason after

theorem ran_of_sound (sound : relay.Sound) (events : List Event) :
    Ran relay events (relay.pieces events) ((relay.course events).1.bind RelayEnd.byServer?)
      (relay.course events).2 := by
  fun_induction course relay events with
  | case1 => exact .nil
  | case2 relay event events reason after happened =>
    have step := step_happen sound event
    rw [happened] at step
    rw [pieces, happened, List.append_nil]
    exact .stops step
  | case3 relay event events after happened ih =>
    have step := step_happen sound event
    have kept := sound_happen sound event
    rw [happened] at step kept
    rw [pieces, happened]
    exact .goesOn step (ih kept)

theorem byServer_course (unfailing : relay.Unfailing) (events : List Event) :
    (relay.course events).1.bind RelayEnd.byServer? = (relay.course events).1 := by
  fun_induction course relay events with
  | case1 => rfl
  | case2 relay event events reason after happened =>
    have same := byServer_happen unfailing event
    rwa [happened] at same
  | case3 relay event events after happened ih =>
    have kept := unfailing_happen unfailing event
    rw [happened] at kept
    exact ih kept

theorem ran (unfailing : relay.Unfailing) (events : List Event) :
    Ran relay events (relay.pieces events) (relay.course events).1 (relay.course events).2 := by
  have ran := ran_of_sound unfailing.sound events
  rwa [byServer_course unfailing] at ran

/-- What every event keeps, a course keeps. -/
theorem course_keeps {P : Relay → Prop}
    (keeps : ∀ {relay : Relay}, P relay → ∀ event, P (relay.happen event).2) (holds : P relay)
    (events : List Event) : P (relay.course events).2 := by
  fun_induction course relay events with
  | case1 => exact holds
  | case2 relay event events reason after happened =>
    have kept := keeps holds event
    rwa [happened] at kept
  | case3 relay event events after happened ih =>
    have kept := keeps holds event
    rw [happened] at kept
    exact ih kept

theorem sound_course (sound : relay.Sound) (events : List Event) : (relay.course events).2.Sound :=
  course_keeps sound_happen sound events

theorem unfailing_course (unfailing : relay.Unfailing) (events : List Event) :
    (relay.course events).2.Unfailing :=
  course_keeps unfailing_happen unfailing events

/-- What a read gives ends the client with the word if it is a piece that ends with it. -/
theorem reason_eq_done {event : Event} :
    (relay.reading? event).bind Reading.reason? = some .done ↔
      ∃ piece ∈ relay.piece? event, isTerminal piece = true := by
  unfold piece?
  cases relay.reading? event with
  | none => simp
  | some reading => cases reading <;> simp [Reading.reason?, Reading.piece?]

namespace Ran

variable {pieces : List (List UInt8)}

/-- **Nothing from the server is lost or added**: what had not been read and what comes is what is read, in
its order, what is left unread and what comes behind the course; and nothing does once the server has hung
up. -/
theorem unread (ran : Ran relay events pieces reason after) :
    ∃ behind, relay.fromServer.queue ++ relay.coming events =
        pieces.flatten ++ (after.fromServer.queue ++ behind) ∧
      (after.fromServer.finish ≠ .opened → behind = []) := by
  induction ran with
  | @nil relay => exact ⟨relay.coming [], rfl, fun finished => by rw [coming, if_neg finished]⟩
  | @stops relay after event events _ step =>
    exact ⟨after.coming events, step.unread events, fun finished => by rw [coming, if_neg finished]⟩
  | goesOn step _ ih =>
    obtain ⟨behind, parts, nothing⟩ := ih
    refine ⟨behind, ?_, nothing⟩
    rw [List.flatten_append, List.append_assoc, ← parts]
    exact step.unread _

/-- **What is read is printed**, as it comes. -/
theorem sent (ran : Ran relay events pieces reason after) :
    after.output.sent = relay.output.sent ++ pieces.flatten := by
  induction ran with
  | nil => exact (List.append_nil _).symm
  | stops step => exact step.sent
  | goesOn step _ ih => rw [ih, step.sent, List.flatten_append, List.append_assoc]

/-- **The client ends with the word exactly when a piece does.** -/
theorem done_iff (ran : Ran relay events pieces reason after) :
    reason = some .done ↔ ∃ piece ∈ pieces, isTerminal piece = true := by
  induction ran with
  | nil => simp
  | stops step =>
    rw [step.ends, reason_eq_done]
    simp
  | @goesOn relay _ _ event _ pieces _ step _ ih =>
    have goesOn : ∀ piece ∈ relay.piece? event, isTerminal piece ≠ true := fun piece now terminal =>
      nomatch step.ends.trans (reason_eq_done.mpr ⟨piece, now, terminal⟩)
    rw [ih]
    refine exists_congr fun piece => and_congr_left fun terminal => ?_
    rw [List.mem_append, Option.mem_toList]
    exact ⟨.inr, fun isIn => isIn.resolve_left fun now => goesOn piece now terminal⟩

/-- The only other end is the one of the server, up to which everything has been read. -/
theorem closed {reason : RelayEnd} (ran : Ran relay events pieces (some reason) after)
    (other : reason ≠ .done) :
    reason = .serverClosed ∧ after.fromServer.queue = [] ∧ after.fromServer.finish ≠ .opened := by
  generalize ended : some reason = reason? at ran
  induction ran with
  | nil => cases ended
  | @stops relay _ event _ reason step =>
    cases ended
    suffices same : reason = .serverClosed from ⟨same, step.closed (congrArg some same)⟩
    obtain ⟨reading, -, gives⟩ := Option.bind_eq_some_iff.mp step.ends.symm
    exact (Reading.of_reason? gives).resolve_left other
  | goesOn _ _ ih => exact ih ended

/-- When the client has ended by itself, it has printed all that the server sent. -/
theorem flatten_of_closed (ran : Ran relay events pieces (some .serverClosed) after) :
    pieces.flatten = relay.fromServer.queue ++ relay.coming events := by
  obtain ⟨behind, parts, nothing⟩ := ran.unread
  obtain ⟨-, empty, finished⟩ := ran.closed nofun
  rw [parts, empty, nothing finished, List.append_nil, List.append_nil]

end Ran

/-! ## The end of a client -/

/-- What the client still has to get over before the end of the server. -/
def left (relay : Relay) : Nat :=
  relay.fromServer.queue.length + relay.fromServer.interruption.toList.length

/-- A turn behind the end of the server gets over something, or it is the last. -/
theorem Turned.left_lt (turned : Turned relay none after) (finished : relay.fromServer.finish ≠ .opened) :
    after.left < relay.left ∧ after.fromServer.finish = relay.fromServer.finish := by
  cases turned with
  | interrupted received =>
    cases received with
    | interrupted stands => simp [left, stands]
  | goesOn received forwarded =>
    have same := forwarded.fromServer
    cases received with
    | nothing waits => simp [Inbound.isReady, finished] at waits
    | prints read =>
      obtain ⟨undisturbed, nonempty, -, rest⟩ := Inbound.of_read_bytes read
      have some := List.length_pos_of_ne_nil nonempty
      refine ⟨?_, by rw [same, rest]⟩
      simp only [left, same, rest, undisturbed, List.length_drop, readLimit]
      omega

/-- **Once the server has hung up, the client ends.** -/
theorem exists_end {turns : Nat} (unfailing : relay.Unfailing)
    (finished : relay.fromServer.finish ≠ .opened) (enough : relay.left < turns) :
    ∃ reason, (run turns relay).1 = some reason := by
  induction turns generalizing relay with
  | zero => exact absurd enough (Nat.not_lt_zero _)
  | succ turns ih =>
    have turned := turned unfailing
    unfold run
    generalize relay.turn = result at turned ⊢
    obtain ⟨reason?, after⟩ := result
    cases reason? with
    | some reason => exact ⟨reason, rfl⟩
    | none =>
      obtain ⟨fewer, same⟩ := turned.left_lt finished
      have enough' : after.left < turns := Nat.lt_of_lt_of_le fewer (Nat.lt_succ_iff.mp enough)
      exact ih (turned.unfailing unfailing) (same ▸ finished) enough'

theorem exists_end_of_hungUp {turns : Nat} (unfailing : relay.Unfailing)
    (enough : relay.fromServer.queue.length + 1 < turns) :
    ∃ reason, (relay.course (.hungUp :: List.replicate turns .turn)).1 = some reason := by
  have finished : relay.fromServer.close.finish ≠ .opened := by
    rw [Inbound.finish_close]
    split
    · exact nofun
    · assumption
  have left : (relay.happen .hungUp).2.left ≤ relay.fromServer.queue.length + 1 := by
    have one : relay.fromServer.interruption.toList.length ≤ 1 := by
      cases relay.fromServer.interruption <;> simp
    simp [happen, Relay.left, Inbound.interruption_close, Inbound.queue_close, one]
  change ∃ reason, ((relay.happen .hungUp).2.course (List.replicate turns .turn)).1 = some reason
  rw [course_turns]
  exact exists_end (unfailing_happen unfailing .hungUp) finished (Nat.lt_of_le_of_lt left enough)

end Relay
end TelemetryHub
