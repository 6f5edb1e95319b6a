import TelemetryHub.Proofs.Relay.Course

/-!
# What a client passes on

Beside the direction from the server there is the one to it: reads from the input, which are forwarded
(`typedReadings`). As long as neither the connection nor the output fails (`Sound`), every event keeps the
two directions apart (`Feeds`, `Shadows`), and so does every course (`Relayed`): what has been read on one
side has been written on the other, in its order and unchanged, the end of the input ends only the
forwarding, and the session goes as it would without an input (`relays_transparently`).
-/

namespace TelemetryHub.Relay

/-! ## The direction to the server -/

/-- What the read from the input gives that the second half of a turn comes with, if it comes with one. -/
def inputReading? (relay : Relay) : Option Reading :=
  (relay.input.filter Inbound.isReady).map fun input => (input.read readLimit).1

/-- What the read from the input gives that an event comes with, if it comes with one. -/
def typedReading? (relay : Relay) : Event → Option Reading
  | .turn =>
    match relay.receive with
    | (.goOn, between) => between.inputReading?
    | (_, _) => none
  | _ => none

/-- What the reads from the input give up to the end of the client. -/
def typedReadings (relay : Relay) : List Event → List Reading
  | [] => []
  | event :: events =>
    (relay.typedReading? event).toList ++
      match relay.happen event with
      | (some _, _) => []
      | (none, after) => after.typedReadings events

/-- The pieces that are read from the input up to the end of the client. -/
def typedPieces (relay : Relay) (events : List Event) : List (List UInt8) :=
  (relay.typedReadings events).filterMap Reading.piece?

/-- What has been typed and not been read; an input that is not read any more has nothing. -/
def typedQueue (relay : Relay) : List UInt8 := relay.input.elim [] Inbound.queue

/-- What the operator types before the input ends. -/
def typing : List Event → List UInt8
  | [] => []
  | .typed bytes :: events => bytes ++ typing events
  | .inputEnded :: _ => []
  | .interrupted :: events | .served _ :: events | .hungUp :: events | .turn :: events => typing events

/-- What is still to come from the input. -/
def typedComing (relay : Relay) (events : List Event) : List UInt8 :=
  if relay.input.any (·.finish = .opened) then typing events else []

variable {relay after : Relay} {event : Event} {events : List Event} {reading? : Option Reading}
  {reason : Option RelayEnd}

/-- What an event does to the direction to the server, when it comes with this read from the input. -/
structure Feeds (relay : Relay) (event : Event) (reading? : Option Reading) (reason : Option RelayEnd)
    (after : Relay) : Prop where
  /-- What has not been read or is to come is read now or later. -/
  unread : ∀ events, relay.typedQueue ++ relay.typedComing (event :: events) =
    (reading?.bind Reading.piece?).toList.flatten ++ (after.typedQueue ++ after.typedComing events)
  sent : after.toServer.sent = relay.toServer.sent ++ (reading?.bind Reading.piece?).toList.flatten
  failed : ∀ failure, reason = some (.failed failure) ↔ reading? = some (.failed failure)
  ended : after.input = none ↔ relay.input = none ∨ reading? = some .ended
  unheard : relay.input = none → reading? = none

/-- Most events do not touch the direction to the server. -/
theorem Feeds.of_same (input : after.input = relay.input) (toServer : after.toServer = relay.toServer)
    (coming : ∀ events, typing (event :: events) = typing events)
    (unfailed : ∀ failure, reason ≠ some (.failed failure)) : Feeds relay event none reason after where
  unread events := by simp [typedQueue, typedComing, input, coming]
  sent := by simp [toServer]
  failed failure := by simp [unfailed failure]
  ended := by simp [input]
  unheard _ := rfl

/-- The first half of a turn makes no difference to what the second one feeds. -/
theorem Feeds.received {between : Relay} {half : Half} (feeds : Feeds between event reading? reason after)
    (received : Received relay half between) : Feeds relay event reading? reason after := by
  obtain ⟨input, toServer⟩ := received.toServer
  refine { unread := fun events => ?_, sent := ?_, failed := feeds.failed, ended := ?_, unheard := ?_ }
  · rw [← feeds.unread, typedQueue, typedComing, typedQueue, typedComing, input]
  · rw [feeds.sent, toServer]
  · rw [feeds.ended, input]
  · rw [← input]
    exact feeds.unheard

theorem inputReading?_of_ready {input : Inbound} (typed : relay.input = some input)
    (ready : input.isReady = true) : relay.inputReading? = some (input.read readLimit).1 := by
  simp [inputReading?, typed, ready]

theorem Forwarded.feeds (forwarded : Forwarded relay after) :
    Feeds relay .turn relay.inputReading? none after := by
  cases forwarded with
  | nothing waits =>
    have idle : relay.inputReading? = none := by simpa [inputReading?] using waits
    rw [idle]
    exact .of_same rfl rfl (fun _ => rfl) nofun
  | @sends piece input after typed read =>
    obtain ⟨front, -⟩ := Inbound.read_bytes read
    obtain ⟨-, nonempty, -, rest⟩ := Inbound.of_read_bytes read
    have finish : after.finish = input.finish := by rw [rest]
    rw [inputReading?_of_ready typed (by simp [Inbound.isReady, nonempty]), read]
    refine { unread := fun events => ?_, sent := ?_, failed := by simp, ended := ?_, unheard := ?_ }
    · simp [typedQueue, typedComing, typed, front, finish, typing, Reading.piece?]
    · simp [Reading.piece?]
    · simp [typed]
    · simp [typed]
  | @ends input typed read =>
    obtain ⟨empty, finished⟩ := Inbound.of_read_ended input (congrArg Prod.fst read)
    rw [inputReading?_of_ready typed (by simp [Inbound.isReady, finished]), read]
    refine { unread := fun events => ?_, sent := (List.append_nil _).symm, failed := by simp, ended := ?_,
             unheard := ?_ }
    · simp [typedQueue, typedComing, typed, empty, finished, Reading.piece?]
    · simp
    · simp [typed]

theorem Breaks.feeds {failure : Failure} (breaks : Breaks relay failure after) :
    Feeds relay .turn relay.inputReading? (some (.failed failure)) after := by
  obtain @⟨input, after, typed, ready, read⟩ := breaks
  have kept : after.queue = input.queue ∧ (after.finish = .opened ↔ input.finish = .opened) := by
    have reads := input.reads readLimit
    rw [read] at reads
    cases reads with
    | interrupted | waits => exact ⟨rfl, Iff.rfl⟩
    | breaks broken => simp [broken]
  rw [inputReading?_of_ready typed ready, read]
  refine { unread := fun events => ?_, sent := (List.append_nil _).symm, failed := fun other => ?_,
           ended := ?_, unheard := ?_ }
  · simp [typedQueue, typedComing, typed, kept, typing, Reading.piece?]
  · simp
  · simp [typed]
  · simp [typed]

theorem turn_feeds (sound : relay.Sound) :
    Feeds relay .turn (relay.typedReading? .turn) relay.turn.1 relay.turn.2 := by
  have first := received sound
  unfold turn typedReading?
  generalize relay.receive = result at first ⊢
  obtain ⟨half, between⟩ := result
  obtain ⟨input, toServer⟩ := first.toServer
  cases half with
  | stop reason =>
    refine .of_same input toServer (fun _ => rfl) fun failure failed => ?_
    cases failed
    exact nomatch (Turned.stops first).byServer
  | nextTurn => exact .of_same input toServer (fun _ => rfl) nofun
  | goOn =>
    rcases forwarded_or_breaks (first.sound sound) with
      ⟨after, forward, forwarded⟩ | ⟨failure, after, forward, breaks⟩
    · simp only [forward]
      exact forwarded.feeds.received first
    · simp only [forward]
      exact breaks.feeds.received first

/-- **Step**: this is what any event does in the direction to the server. -/
theorem happen_feeds (sound : relay.Sound) (event : Event) :
    Feeds relay event (relay.typedReading? event) (relay.happen event).1 (relay.happen event).2 := by
  cases event with
  | served | hungUp | interrupted => exact .of_same rfl rfl (fun _ => rfl) nofun
  | typed bytes =>
    refine { unread := fun events => ?_, sent := (List.append_nil _).symm, ended := ?_,
             failed := by simp [happen, typedReading?], unheard := fun _ => rfl }
    · cases typed : relay.input with
      | none => simp [typedQueue, typedComing, happen, typedReading?, typed]
      | some input =>
        by_cases opened : input.finish = .opened <;>
          simp [typedQueue, typedComing, happen, typedReading?, typed, typing, Inbound.gets, Inbound.arrive,
            opened]
    · simp [happen, typedReading?]
  | inputEnded =>
    refine { unread := fun events => ?_, sent := (List.append_nil _).symm, ended := ?_,
             failed := by simp [happen, typedReading?], unheard := fun _ => rfl }
    · cases typed : relay.input with
      | none => simp [typedQueue, typedComing, happen, typedReading?, typed]
      | some input =>
        by_cases opened : input.finish = .opened <;>
          simp [typedQueue, typedComing, happen, typedReading?, typed, typing, Inbound.close, opened]
    · simp [happen, typedReading?]
  | turn => exact turn_feeds sound

/-! ## Courses -/

/-- What a course does to the direction to the server, when it comes with these reads from the input. -/
structure Fed (relay : Relay) (events : List Event) (readings : List Reading) (reason : Option RelayEnd)
    (after : Relay) : Prop where
  /-- What had not been read and what comes is read, in its order, or is left; nothing comes behind a course
  that goes on, or behind the end of the input. -/
  unread : ∃ behind, relay.typedQueue ++ relay.typedComing events =
      (readings.filterMap Reading.piece?).flatten ++ (after.typedQueue ++ behind) ∧
    (reason = none ∨ after.input = none → behind = [])
  sent : after.toServer.sent = relay.toServer.sent ++ (readings.filterMap Reading.piece?).flatten
  failed : ∀ failure, reason = some (.failed failure) ↔ .failed failure ∈ readings
  ended : after.input = none ↔ relay.input = none ∨ .ended ∈ readings
  unheard : relay.input = none → readings = []
  /-- The end of the input is the last that is read from it. -/
  last : ∀ front back, readings = front ++ .ended :: back → back = []

theorem typedComing_nil (relay : Relay) : relay.typedComing [] = [] := by
  simp [typedComing, typing]

theorem flatten_pieces (reading? : Option Reading) :
    (reading?.toList.filterMap Reading.piece?).flatten = (reading?.bind Reading.piece?).toList.flatten := by
  cases reading? with
  | none => rfl
  | some reading => cases reading <;> rfl

theorem Fed.nil (relay : Relay) : Fed relay [] [] none relay where
  unread := ⟨[], by simp [typedComing_nil], fun _ => rfl⟩
  sent := (List.append_nil _).symm
  failed := by simp
  ended := by simp
  unheard _ := rfl
  last front back := by simp

theorem Feeds.stops {ending : RelayEnd} (feeds : Feeds relay event reading? (some ending) after)
    (events : List Event) : Fed relay (event :: events) reading?.toList (some ending) after where
  unread := by
    refine ⟨after.typedComing events, ?_, ?_⟩
    · rw [feeds.unread, flatten_pieces]
    · rintro (impossible | closed)
      · cases impossible
      · simp [typedComing, closed]
  sent := by rw [feeds.sent, flatten_pieces]
  failed failure := by rw [feeds.failed, Option.mem_toList]
  ended := by rw [feeds.ended, Option.mem_toList]
  unheard dropped := by rw [feeds.unheard dropped, Option.toList_none]
  last front back same := by
    have fewer := congrArg List.length same
    cases reading? <;> simp at fewer
    exact List.eq_nil_of_length_eq_zero (by omega)

theorem Feeds.goesOn {between : Relay} {readings : List Reading}
    (feeds : Feeds relay event reading? none between)
    (fed : Fed between events readings reason after) :
    Fed relay (event :: events) (reading?.toList ++ readings) reason after where
  unread := by
    obtain ⟨behind, parts, nothing⟩ := fed.unread
    refine ⟨behind, ?_, nothing⟩
    rw [feeds.unread, parts, List.filterMap_append, List.flatten_append, flatten_pieces, List.append_assoc]
  sent := by
    rw [fed.sent, feeds.sent, List.filterMap_append, List.flatten_append, flatten_pieces, List.append_assoc]
  failed failure := by
    have unfailed : reading? ≠ some (.failed failure) :=
      fun failed => nomatch (feeds.failed failure).mpr failed
    rw [fed.failed, List.mem_append, Option.mem_toList]
    exact (or_iff_right unfailed).symm
  ended := by rw [fed.ended, feeds.ended, or_assoc, List.mem_append, Option.mem_toList]
  unheard dropped := by
    rw [feeds.unheard dropped, fed.unheard (feeds.ended.mpr (.inl dropped))]
    rfl
  last front back same := by
    cases reading? with
    | none => exact fed.last front back same
    | some reading =>
      cases front with
      | nil =>
        -- Behind the end there is no input to read from.
        obtain ⟨rfl, rfl⟩ := List.cons.inj same
        exact fed.unheard (feeds.ended.mpr (.inr rfl))
      | cons first front => exact fed.last front back (List.cons.inj same).2

theorem fed (sound : relay.Sound) (events : List Event) :
    Fed relay events (relay.typedReadings events) (relay.course events).1 (relay.course events).2 := by
  fun_induction course relay events with
  | case1 relay => exact .nil relay
  | case2 relay event events reason after happened =>
    have feeds := happen_feeds sound event
    rw [happened] at feeds
    rw [typedReadings, happened, List.append_nil]
    exact feeds.stops events
  | case3 relay event events after happened ih =>
    have feeds := happen_feeds sound event
    have kept := sound_happen sound event
    rw [happened] at feeds kept
    rw [typedReadings, happened]
    exact feeds.goesOn (ih kept)

/-- As long as the client goes on, all that has come from the server has been read or waits. -/
theorem unread_of_goesOn (sound : relay.Sound) (goesOn : (relay.course events).1 = none) :
    relay.fromServer.queue ++ relay.coming events =
      (relay.pieces events).flatten ++ (relay.course events).2.fromServer.queue := by
  fun_induction course relay events with
  | case1 relay => simp [coming, stream, pieces]
  | case2 => cases goesOn
  | case3 relay event events after happened ih =>
    have step := step_happen sound event
    have kept := sound_happen sound event
    rw [happened] at step kept
    rw [step.unread, ih kept goesOn, pieces, happened, List.flatten_append, List.append_assoc]

/-- The piece that ends the client with the word is the last one. -/
theorem Ran.exists_last {pieces : List (List UInt8)} (ran : Ran relay events pieces (some .done) after) :
    ∃ front last, pieces = front ++ [last] ∧ isTerminal last = true ∧
      ∀ piece ∈ front, isTerminal piece = false := by
  generalize ended : some RelayEnd.done = reason at ran
  induction ran with
  | nil => cases ended
  | stops step =>
    obtain ⟨piece, taken, terminal⟩ := reason_eq_done.mp (step.ends.symm.trans ended.symm)
    rw [Option.mem_def.mp taken]
    exact ⟨[], piece, rfl, terminal, by simp⟩
  | @goesOn relay _ _ event _ _ _ step _ ih =>
    obtain ⟨front, last, rfl, terminal, others⟩ := ih ended
    refine ⟨(relay.piece? event).toList ++ front, last, (List.append_assoc ..).symm, terminal, ?_⟩
    intro piece isIn
    rcases List.mem_append.mp isIn with now | earlier
    · refine Bool.eq_false_iff.mpr fun terminal' => ?_
      exact nomatch step.ends.trans (reason_eq_done.mpr ⟨piece, Option.mem_toList.mp now, terminal'⟩)
    · exact others piece earlier

/-! ## The client without its input -/

def withoutInput (relay : Relay) : Relay := { relay with input := none }

/-- Another client has read and printed the same, and has no input. -/
structure Shadows (other relay : Relay) : Prop where
  fromServer : other.fromServer = relay.fromServer
  output : other.output = relay.output
  input : other.input = none

theorem shadows_withoutInput (relay : Relay) : Shadows relay.withoutInput relay := ⟨rfl, rfl, rfl⟩

variable {other : Relay}

/-- The first half of a turn goes by what is there from the server. -/
theorem Shadows.receive (shadows : Shadows other relay) :
    other.receive.1 = relay.receive.1 ∧ Shadows other.receive.2 relay.receive.2 := by
  obtain ⟨_, toServer, input, _⟩ := relay
  obtain ⟨inbound, toServer', _, outbound⟩ := other
  obtain ⟨rfl, rfl, rfl⟩ := shadows
  unfold Relay.receive
  dsimp only
  split
  · exact ⟨rfl, rfl, rfl, rfl⟩
  generalize inbound.read readLimit = result
  obtain ⟨reading, inbound⟩ := result
  cases reading with
  | ended => exact ⟨rfl, rfl, rfl, rfl⟩
  | failed failure =>
    dsimp only
    split <;> exact ⟨rfl, rfl, rfl, rfl⟩
  | bytes piece =>
    dsimp only
    generalize outbound.write piece = written
    obtain ⟨failure?, outbound⟩ := written
    cases failure? with
    | some failure => exact ⟨rfl, rfl, rfl, rfl⟩
    | none =>
      dsimp only
      split <;> exact ⟨rfl, rfl, rfl, rfl⟩

/-- **Without its input a client goes through the same events alike**, but for a failure of the input. -/
theorem Shadows.happen (shadows : Shadows other relay) (sound : relay.Sound) (event : Event) :
    (other.happen event).1 = (relay.happen event).1.bind RelayEnd.byServer? ∧
      Shadows (other.happen event).2 (relay.happen event).2 := by
  obtain ⟨fromServer, output, input⟩ := shadows
  cases event with
  | served bytes => exact ⟨rfl, congrArg (·.gets bytes) fromServer, output, input⟩
  | hungUp => exact ⟨rfl, congrArg Inbound.close fromServer, output, input⟩
  | interrupted => exact ⟨rfl, congrArg (·.interrupt (.plain .interrupted)) fromServer, output, input⟩
  | typed bytes => exact ⟨rfl, fromServer, output, by simp [Relay.happen, input]⟩
  | inputEnded => exact ⟨rfl, fromServer, output, by simp [Relay.happen, input]⟩
  | turn =>
    obtain ⟨half, alike⟩ := Shadows.receive ⟨fromServer, output, input⟩
    have first := received sound
    change other.turn.1 = relay.turn.1.bind RelayEnd.byServer? ∧ Shadows other.turn.2 relay.turn.2
    unfold turn
    generalize relay.receive = result at first half alike ⊢
    generalize other.receive = result' at half alike ⊢
    obtain ⟨half, between⟩ := result
    obtain ⟨_, between'⟩ := result'
    cases half
    cases half with
    | stop reason => exact ⟨(Turned.stops first).byServer.symm, alike⟩
    | nextTurn => exact ⟨rfl, alike⟩
    | goOn =>
      have idle : between'.forward = (.goOn, between') := by
        unfold forward
        rw [alike.input]
      dsimp only
      rw [idle]
      rcases forwarded_or_breaks (first.sound sound) with
        ⟨after, forward, forwarded⟩ | ⟨failure, after, forward, breaks⟩
      · rw [forward]
        have fromServer := alike.fromServer.trans forwarded.fromServer.symm
        exact ⟨rfl, fromServer, alike.output.trans forwarded.output.symm, alike.input⟩
      · rw [forward]
        cases breaks
        exact ⟨rfl, alike.fromServer, alike.output, alike.input⟩

/-- **The input makes no difference to a session**, unless it fails. -/
theorem Shadows.course (shadows : Shadows other relay) (sound : relay.Sound) {events : List Event}
    (unfailed : ∀ failure, (relay.course events).1 ≠ some (.failed failure)) :
    (other.course events).1 = (relay.course events).1 ∧
      (other.course events).2.output = (relay.course events).2.output := by
  fun_induction Relay.course relay events generalizing other with
  | case1 => exact ⟨rfl, shadows.output⟩
  | case2 relay event events reason after happened =>
    obtain ⟨same, alike⟩ := shadows.happen sound event
    rw [happened] at same alike
    have ends : RelayEnd.byServer? reason = some reason := by
      cases reason with
      | failed failure => exact absurd rfl (unfailed failure)
      | done | serverClosed => rfl
    rw [Option.bind_some, ends] at same
    rw [Relay.course]
    generalize other.happen event = result at same alike
    obtain ⟨_, after'⟩ := result
    cases same
    exact ⟨rfl, alike.output⟩
  | case3 relay event events after happened ih =>
    obtain ⟨same, alike⟩ := shadows.happen sound event
    have kept := sound_happen sound event
    rw [happened] at same alike kept
    rw [Relay.course]
    generalize other.happen event = result at same alike
    obtain ⟨_, after'⟩ := result
    cases same
    exact ih alike kept unfailed

/-! ## Transparency -/

/-- What a client has passed on in a course, up to its end if it has ended. -/
structure Transparent (relay : Relay) (events : List Event) : Prop where
  /-- What has been read from the server has been printed. -/
  printed : (relay.course events).2.output.sent = relay.output.sent ++ (relay.pieces events).flatten
  /-- What has been read from the input has been sent to the server. -/
  forwarded : (relay.course events).2.toServer.sent =
    relay.toServer.sent ++ (relay.typedPieces events).flatten
  /-- Between the two halves of a turn this is so as well. -/
  between : (relay.course events).1 = none →
    let now := (relay.course events).2
    now.receive.2.output.sent =
        relay.output.sent ++ ((relay.pieces events).flatten ++ (now.piece? .turn).toList.flatten) ∧
      now.receive.2.toServer.sent = relay.toServer.sent ++ (relay.typedPieces events).flatten
  /-- What came from the server is what has been read, in its order, what waits and what comes behind. -/
  fromServer : ∃ behind, relay.fromServer.queue ++ relay.coming events =
      (relay.pieces events).flatten ++ ((relay.course events).2.fromServer.queue ++ behind) ∧
    ((relay.course events).1 = none → behind = [])
  /-- What came from the input is what has been read, in its order, what waits and what comes behind. -/
  fromInput : ∃ behind, relay.typedQueue ++ relay.typedComing events =
      (relay.typedPieces events).flatten ++ ((relay.course events).2.typedQueue ++ behind) ∧
    ((relay.course events).1 = none → behind = [])
  /-- The input is given up when its end has been read, which is the last that is read from it. -/
  dropped : (relay.course events).2.input = none ↔
    relay.input = none ∨ .ended ∈ relay.typedReadings events
  ended : ∀ front back, relay.typedReadings events = front ++ .ended :: back →
    back = [] ∧ (relay.typedPieces events).flatten = relay.typedQueue ++ relay.typedComing events
  /-- The only thing about the input that ends a client is a failure. -/
  failed : ∀ failure, (relay.course events).1 = some (.failed failure) ↔
    .failed failure ∈ relay.typedReadings events
  /-- Without one the client ends, and has printed, as if it had no input. -/
  alone : (∀ failure, (relay.course events).1 ≠ some (.failed failure)) →
    (relay.withoutInput.course events).1 = (relay.course events).1 ∧
      (relay.withoutInput.course events).2.output = (relay.course events).2.output
  /-- At the end of the server all that it sent has been printed. -/
  closed : (relay.course events).1 = some .serverClosed →
    (relay.course events).2.output.sent =
      relay.output.sent ++ (relay.fromServer.queue ++ relay.coming events)
  /-- At the end with the word the last piece is the one that has it. -/
  done : (relay.course events).1 = some .done → ∃ front last,
    relay.pieces events = front ++ [last] ∧ isTerminal last = true ∧
      ∀ piece ∈ front, isTerminal piece = false

theorem between_halves (sound : relay.Sound) :
    relay.receive.2.output.sent = relay.output.sent ++ (relay.piece? .turn).toList.flatten ∧
      relay.receive.2.toServer = relay.toServer :=
  ⟨(received sound).step.sent, (received sound).toServer.2⟩

/-- **A client relays transparently**: whatever comes on its two sides and whenever it takes its turns, as
long as neither the connection nor the output fails. -/
theorem relays_transparently (sound : relay.Sound) (events : List Event) : Transparent relay events := by
  have ran := ran_of_sound sound events
  have fed := fed sound events
  obtain ⟨behind, parts, -⟩ := ran.unread
  obtain ⟨behind', parts', nothing'⟩ := fed.unread
  refine
    { printed := ran.sent
      forwarded := fed.sent
      between := fun _ => ?_
      fromServer := ?_
      fromInput := ⟨behind', parts', fun goesOn => nothing' (.inl goesOn)⟩
      dropped := fed.ended
      ended := fun front back same => ⟨fed.last front back same, ?_⟩
      failed := fed.failed
      alone := (shadows_withoutInput relay).course sound
      closed := fun closed => ?_
      done := fun done => ?_ }
  · obtain ⟨sent, toServer⟩ := between_halves (sound_course sound events)
    exact ⟨by rw [sent, ran.sent, List.append_assoc], by rw [toServer]; exact fed.sent⟩
  · by_cases goesOn : (relay.course events).1 = none
    · exact ⟨[], by rw [List.append_nil]; exact unread_of_goesOn sound goesOn, fun _ => rfl⟩
    · exact ⟨behind, parts, fun goesOn' => absurd goesOn' goesOn⟩
  · have closed : (relay.course events).2.input = none := fed.ended.mpr (.inr (by simp [same]))
    rw [typedPieces, parts', nothing' (.inr closed)]
    simp [typedQueue, closed]
  · rw [closed] at ran
    rw [ran.sent, ran.flatten_of_closed]
  · rw [done] at ran
    exact ran.exists_last

/-- A client that has just connected, with an input. -/
def attended : Relay := ⟨.opened, .opened, some .opened, .opened⟩

/-- A command goes to the server and two lines come from it, the second one behind the end of the input. -/
theorem relays_transparently_both_ways :
    let events := [Event.typed (Text.encode "stop\n".toList), .served (Text.encode "x\n".toList), .turn,
      .inputEnded, .turn, .served (Text.encode "y\n".toList), .turn, .hungUp, .turn]
    attended.Sound ∧ Transparent attended events ∧
      (attended.course events).1 = some .serverClosed ∧
      (attended.course events).2.output.sent = Text.encode "x\ny\n".toList ∧
      (attended.course events).2.toServer.sent = Text.encode "stop\n".toList := by
  intro events
  have sound : attended.Sound := ⟨nofun, nofun, rfl, rfl⟩
  exact ⟨sound, relays_transparently sound events, by decide, by decide, by decide⟩

end TelemetryHub.Relay
