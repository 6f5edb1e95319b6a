import TelemetryHub.Proofs.Server.Streams
import TelemetryHub.Proofs.Text.Utf8

/-!
# What clients say

What is handled under the name of a client as long as it is connected are the texts of the pieces read from it,
whoever else says whatever (`Housed.texts_eq`): the name is the one of its slot, and nobody else is in this slot.
A text is handled in the turn in which the client says it, by what the server does with a message of this name,
and a turn in which it says nothing leaves alone whatever messages change (`Housed.heeds`). What the log has under
the name are the entries of these texts (`Housed.filter_entries_eq`).
-/

namespace TelemetryHub
namespace Server

open Log (Entry)

/-! ## What is handled -/

/-- The text that is handled under a name. -/
def Processed.textOf (name : String) : Processed → Option String
  | .text message origin => if origin = name then some message else none
  | .command _ _ | .record _ => none

theorem Processed.eq_of_textOf {name text : String} {processed : Processed}
    (same : processed.textOf name = some text) : processed = .text text name := by
  cases processed with
  | text message origin =>
    change (if origin = name then some message else none) = some text at same
    by_cases named : origin = name
    · rw [if_pos named] at same
      cases same
      rw [named]
    · rw [if_neg named] at same
      cases same
  | command | record => cases same

/-- The texts that an event makes the server handle under the name of a client, as long as it is
connected. -/
def handledFor (server : Server) (peer : Nat) (event : Event) : List String :=
  match server.connection? peer with
  | none => []
  | some c =>
    if c.isConnected then
      (server.processed (event.operation server)).filterMap (Processed.textOf (clientName c.slot))
    else []

/-- The texts that are handled under the name of a client while it is connected. -/
def texts (server : Server) (peer : Nat) : List Event → List String
  | [] => []
  | event :: events => server.handledFor peer event ++ (server.happen event).texts peer events

/-- The texts of pieces: a piece without a text is passed over. -/
def textsOf (pieces : List (List UInt8)) : List String := (pieces.map said).filter fun text => !text.isEmpty

theorem textOf_records (name : String) (records : List Json) :
    (records.map Processed.record).filterMap (Processed.textOf name) = [] := by
  rw [List.filterMap_map]
  exact List.filterMap_eq_nil_iff.mpr fun _ _ => rfl

theorem textOf_handled (server : Server) (name text : String) :
    (server.handled name (.raw text)).filterMap (Processed.textOf name) = [text] := by
  unfold handled
  rw [List.filterMap_cons, textOf_records]
  simp [Processed.ofIncoming, Processed.textOf]

/-- Only who is connected says something. -/
theorem isConnected_of_received {c : Connection} {text : String} (received : c.receive.1 = .ok text) :
    c.isConnected = true := by
  by_contra gone
  rw [Connection.receive_of_gone (Bool.eq_false_iff.mpr gone)] at received
  cases received

/-- What a client says in its turn is the text of the piece that is read from it. -/
theorem textOf_heard (server : Server) {peer : Nat} {c : Connection}
    (found : server.connection? peer = some c) (connected : c.isConnected = true) (name : String) :
    (server.heard (server.said? peer) (some name)).filterMap (Processed.textOf name) =
      textsOf ((c.reading?.bind Reading.piece?).toList) := by
  have received := c.fst_receive connected
  have reads : c.reading? = some (c.socket.input.read messageLimit).1 := if_pos connected
  unfold said?
  rw [found, reads]
  dsimp only
  cases reading : (c.socket.input.read messageLimit).1 with
  | bytes piece =>
    rw [reading] at received
    rw [received]
    dsimp only
    change _ = textsOf [piece]
    cases empty : (said piece).isEmpty with
    | true =>
      rw [if_pos rfl]
      simp [textsOf, empty, heard]
    | false =>
      rw [if_neg Bool.false_ne_true]
      refine (server.textOf_handled name (said piece)).trans ?_
      simp [textsOf, empty]
  | ended =>
    rw [reading] at received
    rw [received]
    rfl
  | failed failure =>
    rw [reading] at received
    rw [received]
    dsimp only
    generalize failure.isTransient = transient
    cases transient <;> rfl

variable {capacity : Nat} {server : Server}

/-- Whoever is connected is in its slot, and the server runs. -/
theorem Housed.of_connected (housed : server.Housed capacity) {peer : Nat} {c : Connection}
    (found : server.connection? peer = some c) (connected : c.isConnected = true) :
    server.terminating = false ∧ server.roster.get c.slot = some peer := by
  have isConnected : server.isConnected peer = true := (isConnected_of_some found).trans connected
  refine ⟨?_, ?_⟩
  · cases terminating : server.terminating with
    | false => rfl
    | true =>
      rw [(housed.sound.ended terminating).gone] at isConnected
      cases isConnected
  · obtain ⟨slot, held⟩ := Roster.exists_get_of_mem_clients (housed.sound.coherent.listed peer isConnected)
    obtain ⟨c', found', rfl⟩ := housed.seated.exists_connection held
    cases found.symm.trans found'
    exact held

/-! ## In whose turn -/

/-- A client whose turn it is says a text. -/
structure Tells (server : Server) (peer : Nat) (c : Connection) (text : String) : Prop where
  point : ∃ ready readable, server.loop = .serving (peer :: ready) readable
  found : server.connection? peer = some c
  received : c.receive.1 = .ok text
  something : text.isEmpty = false

theorem happen_turn_of_serving {peer : Nat} {ready : List Nat} {readable : Bool}
    (point : server.loop = .serving (peer :: ready) readable) :
    server.happen .turn = serve { server with loop := .serving ready readable } peer := by
  change server.advance = _
  unfold advance
  rw [point]

/-- What a client says in its turn is handled under the name of its slot. -/
theorem Tells.happen_turn {peer : Nat} {c : Connection} {text : String} (tells : server.Tells peer c text)
    {ready : List Nat} {readable : Bool} (point : server.loop = .serving (peer :: ready) readable) :
    server.happen .turn = (handle { server.setConnection peer c.receive.2 with loop := .serving ready readable }
      (.raw text) (clientName c.slot)).2 := by
  rw [happen_turn_of_serving point]
  exact @serve_eq_handle { server with loop := .serving ready readable } peer c text tells.found tells.received
    tells.something

/-- An event in which something is processed is not one of a peer. -/
theorem Event.exists_does {event : Event} {processed : Processed}
    (isIn : processed ∈ server.processed (event.operation server)) :
    ∃ operation own, event = .does operation own := by
  cases event with
  | does operation own => exact ⟨operation, own, rfl⟩
  | connects acceptance =>
    have nothing : server.processed (.connect .opened acceptance) = [] := ite_self _
    exact absurd (nothing ▸ isIn) List.not_mem_nil
  | arrives | ends | leaves | resets | interrupts | takes =>
    unfold Event.operation at isIn
    rw [processed_transported] at isIn
    exact absurd isIn List.not_mem_nil

/-- What comes in the name of a client is a text that one with its slot says in its turn. -/
theorem exists_tells (apart : server.NamedApart) {event : Event} {processed : Processed}
    (isIn : processed ∈ server.processed (event.operation server)) {slot : Nat}
    (named : processed.origin? = some (clientName slot)) :
    event = .turn ∧ ∃ peer c text, server.Tells peer c text ∧ c.slot = slot ∧
      processed = .text text (clientName slot) := by
  obtain ⟨operation, own, rfl⟩ := Event.exists_does isIn
  have comes : server.Comes operation processed := comes_of_mem isIn
  cases comes with
  | record body => cases named
  | text text source | command command source => exact absurd (Option.some.inj named) (own slot)
  | @turn incoming origin told whose =>
    have same : origin = clientName slot := by
      cases incoming <;> exact Option.some.inj named
    refine ⟨rfl, ?_⟩
    unfold incoming? at told
    unfold origin? turn? at whose
    cases point : server.loop with
    | idle | top | held | woken | ended =>
      rw [point] at told
      cases told
    | serving ready readable =>
      rw [point] at told whose
      cases ready with
      | nil => exact absurd same (apart origin whose slot)
      | cons peer ready =>
        obtain ⟨c, text, found, received, something, rfl⟩ := exists_received_of_said told
        dsimp only at whose
        unfold slot? at whose
        rw [found] at whose
        have slots : clientName c.slot = clientName slot := (Option.some.inj whose).trans same
        rw [same]
        exact ⟨peer, c, text, ⟨⟨ready, readable, point⟩, found, received, something⟩, clientName_inj slots, rfl⟩

/-! ## Texts and pieces -/

/-- Nobody else is in the slot of a client that is connected. -/
theorem Housed.eq_of_tells (housed : server.Housed capacity) {peer peer' : Nat} {c c' : Connection} {text : String}
    (found : server.connection? peer = some c) (connected : c.isConnected = true)
    (tells : server.Tells peer' c' text) (slot : c'.slot = c.slot) : peer' = peer := by
  obtain ⟨running, held⟩ := housed.of_connected found connected
  obtain ⟨ready, readable, point⟩ := tells.point
  obtain ⟨other, found', held'⟩ := housed.held_of_pending running
    (show peer' ∈ server.loop.pending by rw [point]; exact List.mem_cons_self)
  cases tells.found.symm.trans found'
  rw [slot, held] at held'
  exact (Option.some.inj held').symm

/-- Nothing is read from a client but in its turn. -/
theorem reading?_of_not_turn {peer : Nat} {event : Event}
    (away : ¬(event = .turn ∧ ∃ ready readable, server.loop = .serving (peer :: ready) readable)) :
    server.reading? peer event = none := by
  unfold reading?
  split
  · split
    · next target ready readable point =>
      apply if_neg
      rintro rfl
      exact away ⟨rfl, ready, readable, point⟩
    · rfl
  · rfl

theorem reading?_of_gone {peer : Nat} {event : Event}
    (gone : (server.connection? peer).bind Connection.reading? = none) : server.reading? peer event = none := by
  unfold reading?
  split
  · split
    · rw [gone]
      exact ite_self _
    · rfl
  · rfl

/-- **Step**: what is handled under the name of a client is the text of the piece that is read from it. -/
theorem Housed.handledFor_eq (housed : server.Housed capacity) (apart : server.NamedApart)
    (peer : Nat) (event : Event) :
    server.handledFor peer event = textsOf (server.piece? peer event).toList := by
  have unheard : server.reading? peer event = none → [] = textsOf (server.piece? peer event).toList := by
    intro left
    unfold piece?
    rw [left]
    rfl
  unfold handledFor
  cases found : server.connection? peer with
  | none =>
    apply unheard
    apply reading?_of_gone
    rw [found]
    rfl
  | some c =>
    dsimp only
    by_cases connected : c.isConnected = true
    · rw [if_pos connected]
      by_cases turn : event = .turn ∧ ∃ ready readable, server.loop = .serving (peer :: ready) readable
      · obtain ⟨rfl, ready, readable, point⟩ := turn
        have running := (housed.of_connected found connected).1
        have heard : server.processed .advance = server.heard (server.said? peer) (some (clientName c.slot)) := by
          unfold processed
          rw [if_neg (Bool.eq_false_iff.mp running)]
          unfold incoming? origin? turn? slot?
          rw [point]
          dsimp only
          rw [found]
          rfl
        have reading : server.reading? peer .turn = c.reading? := by
          unfold reading? Event.turn
          rw [point]
          dsimp only
          rw [if_pos rfl, found]
          rfl
        change (server.processed .advance).filterMap _ = _
        rw [heard, server.textOf_heard found connected, piece?, reading]
      · rw [← unheard (reading?_of_not_turn turn), List.filterMap_eq_nil_iff]
        intro one isIn
        by_contra other
        obtain ⟨text, isText⟩ := Option.ne_none_iff_exists'.mp other
        rw [Processed.eq_of_textOf isText] at isIn
        obtain ⟨rfl, peer', c', text', tells, slot, -⟩ := exists_tells apart isIn rfl
        cases housed.eq_of_tells found connected tells slot
        exact turn ⟨rfl, tells.point⟩
    · rw [if_neg connected]
      apply unheard
      apply reading?_of_gone
      rw [found, Option.bind_some, Connection.reading?, if_neg connected]

theorem textsOf_append (first second : List (List UInt8)) :
    textsOf (first ++ second) = textsOf first ++ textsOf second := by
  unfold textsOf
  rw [List.map_append, List.filter_append]

/-- **Run**: what is handled under the name of a client are the texts of the pieces read from it. -/
theorem Housed.texts_eq (housed : server.Housed capacity) (apart : server.NamedApart) (peer : Nat)
    (events : List Event) : server.texts peer events = textsOf (server.pieces peer events) := by
  induction events generalizing server with
  | nil => rfl
  | cons event events ih =>
    have housed' : (server.happen event).Housed capacity := housed.operate _
    rw [texts, pieces, textsOf_append, housed.handledFor_eq apart, ih housed' (apart.happen event)]

/-- A line is handled without its end. -/
theorem said_line {line : List Char} (last : line.getLast? ≠ some '\r') :
    said (Text.encode line ++ [0x0A]) = String.ofList line := by
  unfold said
  rw [Text.stripTerminator_lf, Text.decodeLossy_encode]
  intro carriageReturn
  obtain ⟨c, found, same⟩ := Text.getLast?_of_encode carriageReturn (by decide)
  have isReturn : c = '\r' := Char.toNat_inj.mp same
  exact last (isReturn ▸ found)

/-- A line that is all there is to be read from a client whose turn it is is what is handled. -/
theorem Housed.handledFor_line (housed : server.Housed capacity) (apart : server.NamedApart)
    {peer : Nat} {ready : List Nat} {source : Bool} (point : server.loop = .serving (peer :: ready) source)
    {c : Connection} (found : server.connection? peer = some c) (connected : c.isConnected = true)
    (undisturbed : c.socket.input.interruption = none) {line : List Char} (something : line ≠ [])
    (last : line.getLast? ≠ some '\r') (short : (Text.encode line).length < messageLimit)
    (unread : server.unread peer = Text.encode line ++ [0x0A]) :
    server.handledFor peer .turn = [String.ofList line] := by
  have queue : c.socket.input.queue = Text.encode line ++ [0x0A] := by
    rw [← unread, Server.unread, input?_of_some found]
    rfl
  have reading : (c.socket.input.read messageLimit).1 = .bytes (Text.encode line ++ [0x0A]) := by
    rw [Inbound.fst_read undisturbed (by rw [queue]; simp), queue]
    exact congrArg Reading.bytes (List.take_of_length_le (by rw [List.length_append]; exact short))
  have piece : server.piece? peer .turn = some (Text.encode line ++ [0x0A]) := by
    unfold piece? reading? Event.turn
    rw [point]
    dsimp only
    rw [if_pos rfl, found, Option.bind_some, Connection.reading?, if_pos connected, reading]
    rfl
  have nonempty : (String.ofList line).isEmpty = false := by
    cases line with
    | nil => exact absurd rfl something
    | cons c line => simp
  rw [housed.handledFor_eq apart, piece]
  simp [textsOf, said_line last, nonempty]

/-! ## What becomes of a text -/

/-- A text that is handled under the name of a client is one that the client says in its turn. -/
theorem Housed.tells (housed : server.Housed capacity) (apart : server.NamedApart) {peer : Nat}
    {event : Event} {text : String} (isIn : text ∈ server.handledFor peer event) :
    event = .turn ∧ ∃ c, server.Tells peer c text := by
  unfold handledFor at isIn
  cases found : server.connection? peer with
  | none =>
    rw [found] at isIn
    cases isIn
  | some c =>
    rw [found] at isIn
    dsimp only at isIn
    split at isIn
    · next connected =>
      obtain ⟨one, isOne, isText⟩ := List.mem_filterMap.mp isIn
      have same := Processed.eq_of_textOf isText
      subst same
      obtain ⟨rfl, peer', c', text', tells, slot, same⟩ := exists_tells apart isOne rfl
      cases same
      cases housed.eq_of_tells found connected tells slot
      exact ⟨rfl, c', tells⟩
    · cases isIn

/-- What a client says in its turn is the text of a piece that is read from it. -/
theorem mem_textsOf_of_said {peer : Nat} {ready : List Nat} {readable : Bool} {text : String}
    (point : server.loop = .serving (peer :: ready) readable) (told : server.said? peer = some (.raw text)) :
    text ∈ textsOf (server.piece? peer .turn).toList := by
  have reading : server.reading? peer .turn = (server.connection? peer).bind Connection.reading? := by
    unfold reading? Event.turn
    rw [point]
    exact if_pos rfl
  unfold piece?
  rw [reading]
  cases found : server.connection? peer with
  | none =>
    unfold said? at told
    rw [found] at told
    cases told
  | some c =>
    obtain ⟨c', text', found', received, -⟩ := exists_received_of_said told
    cases found.symm.trans found'
    have heard := textOf_heard server found (isConnected_of_received received) ""
    rw [told] at heard
    rw [Option.bind_some, ← heard]
    exact (textOf_handled server "" text) ▸ List.mem_singleton_self text

/-- What a client says in its turn is handled under its name. -/
theorem Housed.mem_handledFor (housed : server.Housed capacity) (apart : server.NamedApart)
    {peer : Nat} {ready : List Nat} {readable : Bool} {text : String}
    (point : server.loop = .serving (peer :: ready) readable)
    (told : server.said? peer = some (.raw text)) : text ∈ server.handledFor peer .turn := by
  rw [housed.handledFor_eq apart]
  exact mem_textsOf_of_said point told

/-- A client that says nothing in its turn changes nothing but itself. -/
theorem serve_of_silent {peer : Nat} (silent : server.said? peer = none) :
    (server.serve peer).gates = server.gates ∧ (server.serve peer).session = server.session ∧
      server.SameLog (server.serve peer) := by
  unfold said? at silent
  unfold serve
  cases found : server.connection? peer with
  | none => exact ⟨rfl, rfl, rfl, rfl, rfl, rfl⟩
  | some c =>
    rw [found] at silent
    dsimp only at silent ⊢
    cases received : c.receive.1 with
    | error lost =>
      dsimp only
      rcases evict_cases (server.setConnection peer c.receive.2) c.slot with same | ⟨client, roster, removed, same⟩ <;>
        rw [same] <;> exact ⟨rfl, rfl, rfl, rfl, rfl, rfl⟩
    | ok text =>
      rw [received] at silent
      dsimp only at silent ⊢
      split at silent
      · next nothing =>
        rw [if_pos nothing]
        exact ⟨rfl, rfl, rfl, rfl, rfl, rfl⟩
      · cases silent

/-- What becomes of what a client says: in its turn the text is handled as it has been read, under the name of
its slot and no other one with it, and a turn without a text leaves the gates, the session and the log alone. -/
structure Heeds (server : Server) (peer : Nat) (event : Event) : Prop where
  single : (server.handledFor peer event).length ≤ 1
  handled : ∀ text ∈ server.handledFor peer event, event = .turn ∧ ∃ c ready readable,
    server.loop = .serving (peer :: ready) readable ∧ server.connection? peer = some c ∧
    c.receive.1 = .ok text ∧
    server.happen event =
      (handle { server.setConnection peer c.receive.2 with loop := .serving ready readable } (.raw text)
        (clientName c.slot)).2
  silent : event = .turn → (∃ ready readable, server.loop = .serving (peer :: ready) readable) →
    server.handledFor peer event = [] →
      (server.happen event).gates = server.gates ∧ (server.happen event).session = server.session ∧
        server.SameLog (server.happen event)

theorem Housed.heeds (housed : server.Housed capacity) (apart : server.NamedApart) (peer : Nat)
    (event : Event) : server.Heeds peer event where
  single := by
    rw [housed.handledFor_eq apart]
    refine (List.length_filter_le _ _).trans ?_
    rw [List.length_map]
    exact Option.length_toList_le
  handled text isIn := by
    obtain ⟨rfl, c, tells⟩ := housed.tells apart isIn
    obtain ⟨ready, readable, point⟩ := tells.point
    exact ⟨rfl, c, ready, readable, point, tells.found, tells.received, tells.happen_turn point⟩
  silent := by
    rintro rfl ⟨ready, readable, point⟩ nothing
    have unsaid : server.said? peer = none := by
      cases told : server.said? peer with
      | none => rfl
      | some incoming =>
        obtain ⟨-, text, -, -, -, rfl⟩ := exists_received_of_said told
        have isIn := housed.mem_handledFor apart point told
        rw [nothing] at isIn
        cases isIn
    obtain ⟨gates, session, same⟩ := @serve_of_silent { server with loop := .serving ready readable } peer unsaid
    rw [happen_turn_of_serving point]
    exact ⟨gates, session, same.log, same.logFile, same.logRefusal, same.terminating⟩

/-! ## What the log has -/

/-- The entries under a name are those of the texts, if nothing else comes in this name. -/
theorem filter_entries {name : String} (foreign : name ≠ ownName) (now : String) {processed : List Processed}
    (texts : ∀ one ∈ processed, one.origin? = some name → ∃ text, one = .text text name) :
    (processed.map (·.entry now)).filter (fun entry => entry.source = name) =
      (processed.filterMap (Processed.textOf name)).map fun text => .text text name now := by
  induction processed with
  | nil => rfl
  | cons one processed ih =>
    have rest := ih fun one isIn => texts one (List.mem_cons_of_mem _ isIn)
    have first := texts one List.mem_cons_self
    rw [List.map_cons, List.filter_cons, List.filterMap_cons, rest]
    cases one with
    | text text origin =>
      by_cases same : origin = name
      · simp [Processed.entry, Entry.source, Processed.textOf, same]
      · simp [Processed.entry, Entry.source, Processed.textOf, same]
    | command command origin =>
      have other : origin ≠ name := by
        rintro rfl
        obtain ⟨text, same⟩ := first rfl
        cases same
      simp [Processed.entry, Entry.source, Processed.textOf, other]
    | record body => simp [Processed.entry, Entry.source, Processed.textOf, foreign.symm]

/-- Whoever is connected behind events has been so before them, in the same slot. -/
theorem Sound.exists_connected (sound : server.Sound) {peer : Nat} {c : Connection}
    (found : server.connection? peer = some c) (events : List Event) :
    ∃ c', (server.happenAll events).connection? peer = some c' ∧ c'.slot = c.slot ∧
      (c'.isConnected = true → c.isConnected = true) := by
  obtain ⟨c', found', sent⟩ := sound.sends_operateAll (server.operations events) peer c found
  rw [← happenAll_eq] at found'
  have has : server.slot? peer = some c.slot := congrArg (·.map Connection.slot) found
  have has' : (server.happenAll events).slot? peer = some c'.slot := congrArg (·.map Connection.slot) found'
  have slot := Option.some.inj (has'.symm.trans (slot?_happenAll has events))
  exact ⟨c', found', slot, fun connected => (sent connected).1⟩

/-- **Step**: what an event leaves in the log under the name of a client that is connected are the texts that
are handled. -/
theorem filter_processed (apart : server.NamedApart) {peer : Nat} {c : Connection}
    (found : server.connection? peer = some c) (connected : c.isConnected = true) (event : Event) :
    ((server.processed (event.operation server)).map (·.entry server.now)).filter
        (fun entry => entry.source = clientName c.slot) =
      (server.handledFor peer event).map fun text => .text text (clientName c.slot) server.now := by
  have handled : server.handledFor peer event =
      (server.processed (event.operation server)).filterMap (Processed.textOf (clientName c.slot)) := by
    unfold handledFor
    rw [found]
    exact if_pos connected
  rw [handled]
  refine filter_entries (clientName_ne_ownName c.slot) server.now fun one isIn named => ?_
  obtain ⟨-, -, -, text, -, -, same⟩ := exists_tells apart isIn named
  exact ⟨text, same⟩

/-- **Run**: as long as a client is connected, what the log gets under its name are the texts that are
handled, each with its own entry and in order. -/
theorem Housed.filter_entries_eq (housed : server.Housed capacity) (apart : server.NamedApart)
    {peer : Nat} {c : Connection} (found : server.connection? peer = some c) {events : List Event}
    (connected : (server.happenAll events).isConnected peer = true) :
    ((server.entries (server.operations events)).filter fun entry => entry.source = clientName c.slot).map
      Entry.body = (server.texts peer events).map Json.ofMessage := by
  induction events generalizing server c with
  | nil => rfl
  | cons event events ih =>
    have housed' : (server.happen event).Housed capacity := housed.operate _
    obtain ⟨c', found', slot, -⟩ := housed.sound.exists_connected found [event]
    obtain ⟨last, isLast, -, back⟩ := housed.sound.exists_connected found (event :: events)
    have stays : c.isConnected = true := back ((isConnected_of_some isLast).symm.trans connected)
    have later := ih housed' (apart.happen event) found' connected
    rw [slot] at later
    rw [operations, entries, texts, List.filter_append, List.map_append, List.map_append,
      filter_processed apart found stays, List.map_map]
    exact congrArg (_ ++ ·) later

/-- **Streams**: whatever happens, the pieces read from a peer are not empty, not longer than the limit,
and put together they are its stream up to what has not been read; once its end has been read they are all
of it. Between two reads on a connection an iteration begins. The texts handled under the name of a client
while it is connected are those of its pieces, each once and in order, and empty ones are passed over: with a
text the server becomes what handling it under this name makes of it, and a turn without one leaves the gates,
the session and the log alone. A log has an entry for each of them and, as long as the client is connected, no
others under its name. So a line that is all there is to be read from a client in its turn is handled as it is,
and a client that has said something when the loop waits for it has its turn before the next iteration. -/
theorem client_streams (capacity : Nat) (log : Option Log) (source : Option Source)
    (sampler : Option Sampler) (deadline : Deadline) (now : String)
    (foreign : ∀ given, source = some given → ∀ slot, given.label ≠ clientName slot)
    (events : List Event) (peer : Nat) :
    let start := new capacity log source sampler deadline now
    let reached := start.happenAll events
    let pieces := start.pieces peer events
    (∀ piece ∈ pieces, piece ≠ [] ∧ piece.length ≤ 255) ∧
    start.stream peer events = pieces.flatten ++ reached.unread peer ∧
    (reached.reading? peer .turn = some .ended →
      ∀ more, start.stream peer (events ++ more) = pieces.flatten) ∧
    (∀ before between first second, (start.happenAll before).reading? peer .turn = some first →
      (start.happenAll (before ++ .turn :: between)).reading? peer .turn = some second →
        let read := (start.happenAll before).happen .turn
        .begins ∈ read.turns (read.operations between)) ∧
    start.texts peer events = (pieces.map said).filter (fun text => !text.isEmpty) ∧
    (∀ event, reached.Heeds peer event) ∧
    (∀ path given, log = some given → Log.create path (.ok ()) none = .ok given → ∀ more,
      ∃ earlier later, reached.Logs earlier ∧ (reached.happenAll more).Logs (earlier ++ later) ∧
        ∀ c, reached.connection? peer = some c → (reached.happenAll more).isConnected peer = true →
          (later.filter fun entry => entry.source = clientName c.slot).map Entry.body =
            (textsOf (reached.pieces peer more)).map Json.ofMessage) ∧
    (∀ line ready readable c, reached.loop = .serving (peer :: ready) readable →
      reached.connection? peer = some c → c.isConnected = true → c.socket.input.interruption = none →
      line ≠ [] → line.getLast? ≠ some '\r' → (Text.encode line).length ≤ 254 →
      start.stream peer events = pieces.flatten ++ (Text.encode line ++ [0x0A]) →
        reached.handledFor peer .turn = [String.ofList line]) ∧
    ∀ polled more, reached.loop = .held polled → peer ∈ polled → reached.unread peer ≠ [] →
      (reached.happenAll more).loop = .top → ∃ before after, more = before ++ .turn :: after ∧
        ∃ ready readable, (reached.happenAll before).loop = .serving (peer :: ready) readable := by
  intro start reached pieces
  have begins : start.Housed capacity := housed_new capacity log source sampler deadline now
  have housed : reached.Housed capacity := begins.happenAll events
  have apart : start.NamedApart := namedApart_new foreign
  have apart' : reached.NamedApart := apart.happenAll events
  have split : start.stream peer events = pieces.flatten ++ reached.unread peer :=
    unread_happenAll start peer events
  refine ⟨fun _ => length_of_mem_pieces, split, fun ended more => ?_,
    fun _ _ _ _ => begins.seated.begins_between .idle, begins.texts_eq apart peer events,
    housed.heeds apart' peer, fun path given same created more => ?_, ?_, ?_⟩
  · obtain ⟨finished, nothing⟩ := finished_of_ended ended
    rw [stream_append, split, nothing, List.append_nil,
      show (start.happenAll events).stream peer more = [] from finished.stream more, List.append_nil]
  · subst same
    obtain ⟨logs, accepts⟩ :=
      logs_new created capacity source sampler deadline now (start.operations events)
    rw [← happenAll_eq] at logs accepts
    obtain ⟨logs', -⟩ := housed.sound.logs_operateAll logs accepts (reached.operations more)
    rw [← happenAll_eq] at logs'
    refine ⟨_, _, logs, logs', fun c found connected => ?_⟩
    rw [housed.filter_entries_eq apart' found connected, housed.texts_eq apart']
  · intro line ready readable c point found connected undisturbed something last short arrived
    refine housed.handledFor_line apart' point found connected undisturbed something last
      (Nat.lt_succ_of_le short) ?_
    exact List.append_cancel_left (split.symm.trans arrived)
  · intro polled more point isIn something
    refine housed.exists_turn_of_awaited ?_
    unfold Awaited
    rw [point]
    exact .inr ⟨isIn, something⟩

/-- A line and the start of another one are two pieces, which are handled under the name of the client, and the
log has them in this name. -/
theorem client_streams_two_pieces :
    let log : Log := ⟨"log", "[\n", "", 0⟩
    let source := Source.interactive (.new "stdin" .opened)
    let start := new 1 (some log) (some source) none ⟨⟨0⟩, ⟨0⟩⟩ ""
    let iteration := List.replicate 5 Event.turn
    let before := [.connects .all, .does .start trivial] ++ List.replicate 4 .turn
    let during := [.arrives 0 (Text.encode "stop\r\n".toList)] ++ iteration ++
      [.arrives 0 (Text.encode "st".toList)] ++ iteration
    (∀ given, some source = some given → ∀ slot, given.label ≠ clientName slot) ∧
      start.texts 0 (before ++ during) = ["stop", "st"] ∧
      ∃ earlier later, (start.happenAll before).Logs earlier ∧
        ((start.happenAll before).happenAll during).Logs (earlier ++ later) ∧
        (later.filter fun entry => entry.source = clientName 0).map Entry.body = [.str "stop", .str "st"] := by
  intro log source start iteration before during
  have foreign : ∀ given, some source = some given → ∀ slot, given.label ≠ clientName slot := by
    rintro given same slot named
    cases same
    have first := congrArg (fun name => name.toList.head?) named
    simp [source, clientName, Source.label, Interactive.new] at first
  have streams := client_streams 1 (some log) (some source) none ⟨⟨0⟩, ⟨0⟩⟩ "" foreign
  have pieces : start.pieces 0 (before ++ during) = [Text.encode "stop\r\n".toList, Text.encode "st".toList] := by
    decide +kernel
  refine ⟨foreign, (streams (before ++ during) 0).2.2.2.2.1.trans ?_, ?_⟩
  · rw [pieces]
    decide +kernel
  · have created : Log.create "log" (.ok ()) none = .ok log := by decide +kernel
    obtain ⟨earlier, later, logs, logs', kept⟩ := (streams before 0).2.2.2.2.2.2.1 "log" log rfl created during
    have read : (start.happenAll before).pieces 0 during =
        [Text.encode "stop\r\n".toList, Text.encode "st".toList] := by
      decide +kernel
    have slot : ((start.happenAll before).connection? 0).map Connection.slot = some 0 := by decide +kernel
    have connected : ((start.happenAll before).happenAll during).isConnected 0 = true := by decide +kernel
    obtain ⟨c, found, here⟩ := Option.map_eq_some_iff.mp slot
    have told : textsOf [Text.encode "stop\r\n".toList, Text.encode "st".toList] = ["stop", "st"] := by
      decide +kernel
    have bodies := kept c found connected
    rw [here, read, told] at bodies
    exact ⟨earlier, later, logs, logs', bodies.trans (by rfl)⟩

end Server
end TelemetryHub
