import TelemetryHub.Proofs.Log.Legible
import TelemetryHub.Proofs.Server.Audit
import TelemetryHub.Proofs.Server.Texts

/-!
# When the log of a server is read back

A server logs the texts that it is handed, its commands in their wire form, and records. The file that the
shutdown leaves is read as the list of all of them if and only if no text is taken for a value with more
than 125 containers inside each other (`legible_log`). The limit matters: a client can send a text with
127 of them in a single message, and the file that has its record is read no more
(`deep_message_illegible`).
-/

namespace TelemetryHub

open Json (KeysDistinct Nested Proper)

/-- What the program itself logs: keys kept apart, doubles of the format, and no more containers inside
each other than a record has room for. -/
structure Json.Storable (body : Json) : Prop where
  proper : Proper body
  distinct : KeysDistinct body
  nested : Nested 125 body

/-- A command in its wire form can be stored. -/
theorem Message.storable_toJson (message : Message) : message.toJson.Storable := by
  have keys : (message.members.map Prod.fst).Nodup := by
    obtain ⟨functionality, command, sampleRate, time⟩ := message
    cases sampleRate <;> cases time <;> simp [Message.members]
  have simple : ∀ member ∈ message.members,
      Proper member.2 ∧ KeysDistinct member.2 ∧ Nested 124 member.2 := by
    intro member isIn
    have scalar : (∃ s, member.2 = .str s) ∨ ∃ n, member.2 = .num (.whole n) := by
      obtain ⟨functionality, command, sampleRate, time⟩ := message
      cases sampleRate <;> cases time <;>
        simp only [Message.members, Option.map_none, Option.map_some, Option.toList_none,
          Option.toList_some, List.append_nil, List.cons_append, List.nil_append, List.mem_cons,
          List.not_mem_nil, or_false] at isIn <;>
        rcases isIn with rfl | rfl | rfl | rfl <;> first | exact .inl ⟨_, rfl⟩ | exact .inr ⟨_, rfl⟩
    rcases scalar with ⟨s, same⟩ | ⟨n, same⟩
    · rw [same]
      exact ⟨.str s, .str s, by simp [Nested]⟩
    · rw [same]
      exact ⟨.num trivial, .num _, by simp [Nested]⟩
  exact ⟨.obj fun member isIn => (simple member isIn).1,
    .obj keys fun member isIn => (simple member isIn).2.1,
    fun member isIn => (simple member isIn).2.2⟩

namespace Server

open Log (Entry)

/-- All that operations make the server process, in order. -/
def allProcessed (server : Server) : List Operation → List Processed
  | [] => []
  | operation :: operations =>
    server.processed operation ++ (server.operate operation).allProcessed operations

theorem of_mem_entries {server : Server} {operations : List Operation} {entry : Entry}
    (isIn : entry ∈ server.entries operations) :
    ∃ processed ∈ server.allProcessed operations, ∃ now, entry = processed.entry now := by
  induction operations generalizing server with
  | nil => exact absurd isIn List.not_mem_nil
  | cons operation operations ih =>
    rcases List.mem_append.mp isIn with first | later
    · obtain ⟨processed, isProcessed, rfl⟩ := List.mem_map.mp first
      exact ⟨processed, List.mem_append_left _ isProcessed, server.now, rfl⟩
    · obtain ⟨processed, isProcessed, same⟩ := ih later
      exact ⟨processed, List.mem_append_right _ isProcessed, same⟩

theorem exists_entry {server : Server} {operations : List Operation} {processed : Processed}
    (isIn : processed ∈ server.allProcessed operations) :
    ∃ now, processed.entry now ∈ server.entries operations := by
  induction operations generalizing server with
  | nil => exact absurd isIn List.not_mem_nil
  | cons operation operations ih =>
    rcases List.mem_append.mp isIn with first | later
    · exact ⟨server.now, List.mem_append_left _ (List.mem_map_of_mem first)⟩
    · obtain ⟨now, isEntry⟩ := ih later
      exact ⟨now, List.mem_append_right _ isEntry⟩

/-- What is processed can be stored, but for a text of a client, which may be anything. -/
def Processed.Stored : Processed → Prop
  | .record body => body.Storable
  | .command _ _ => True
  | .text message origin => (∀ slot, origin ≠ clientName slot) → Nested 125 (Json.ofMessage message)

/-- Whether it is the text of a client in a slot. -/
def Processed.isSaid (slot : Nat) : Processed → Bool
  | .text _ origin => origin = clientName slot
  | .command _ _ | .record _ => false

theorem stored_of_said (slot : Nat) {server : Server} {operations : List Operation}
    (said : (server.allProcessed operations).all (Processed.isSaid slot)) :
    ∀ processed ∈ server.allProcessed operations, processed.Stored := by
  intro processed isIn
  have isSaid := List.all_eq_true.mp said processed isIn
  cases processed with
  | text text origin => exact fun other => absurd (of_decide_eq_true isSaid) (other slot)
  | command | record => cases isSaid

section Runs

variable {server : Server} {operations : List Operation}
  (stored : ∀ processed ∈ server.allProcessed operations, processed.Stored)

include stored

theorem sane_entries : ∀ entry ∈ server.entries operations, entry.Sane := by
  intro entry isIn
  obtain ⟨processed, isProcessed, now, rfl⟩ := of_mem_entries isIn
  have kept := stored processed isProcessed
  cases processed with
  | text text origin => trivial
  | command command origin =>
    have storable := command.message.storable_toJson
    exact ⟨storable.proper, storable.distinct⟩
  | record record =>
    have storable : record.Storable := kept
    exact ⟨storable.proper, storable.distinct⟩

/-- Only the text of a client can be too deep for a record. -/
theorem nested_entries_iff : (∀ entry ∈ server.entries operations, Nested 125 entry.body) ↔
    ∀ text slot, .text text (clientName slot) ∈ server.allProcessed operations →
      Nested 125 (Json.ofMessage text) := by
  constructor
  · intro nested text slot isIn
    obtain ⟨now, isEntry⟩ := exists_entry isIn
    exact nested _ isEntry
  · intro nested entry isIn
    obtain ⟨processed, isProcessed, now, rfl⟩ := of_mem_entries isIn
    have kept := stored processed isProcessed
    cases processed with
    | text text origin =>
      by_cases client : ∃ slot, origin = clientName slot
      · obtain ⟨slot, rfl⟩ := client
        exact nested text slot isProcessed
      · exact kept fun slot same => client ⟨slot, same⟩
    | command command origin => exact command.message.storable_toJson.nested
    | record record =>
      have storable : record.Storable := kept
      exact storable.nested

end Runs

/-! ## The texts of clients -/

section Clients

variable {capacity : Nat} {server : Server}

/-- The text of a client is handled in a turn of the loop in which it is read. -/
theorem exists_handledFor (apart : server.NamedApart) {event : Event} {text : String} {slot : Nat}
    (isIn : .text text (clientName slot) ∈ server.processed (event.operation server)) :
    ∃ peer, text ∈ server.handledFor peer event := by
  obtain ⟨-, peer, c, told, tells, rfl, -⟩ := exists_tells apart isIn rfl
  refine ⟨peer, ?_⟩
  unfold handledFor
  rw [tells.found]
  dsimp only
  rw [if_pos (isConnected_of_received tells.received)]
  exact List.mem_filterMap.mpr ⟨_, isIn, if_pos rfl⟩

theorem exists_processed {peer : Nat} {events : List Event} {text : String}
    (isIn : text ∈ server.texts peer events) :
    ∃ slot, .text text (clientName slot) ∈ server.allProcessed (server.operations events) := by
  induction events generalizing server with
  | nil => exact absurd isIn List.not_mem_nil
  | cons event events ih =>
    rcases List.mem_append.mp isIn with first | later
    · unfold handledFor at first
      split at first
      · exact absurd first List.not_mem_nil
      · next c _ =>
        split at first
        · obtain ⟨processed, isProcessed, same⟩ := List.mem_filterMap.mp first
          rw [Processed.eq_of_textOf same] at isProcessed
          exact ⟨c.slot, List.mem_append_left _ isProcessed⟩
        · exact absurd first List.not_mem_nil
    · obtain ⟨slot, isProcessed⟩ := ih later
      exact ⟨slot, List.mem_append_right _ isProcessed⟩

/-- The texts that are handled in the name of clients are those of the pieces that are read from them. -/
theorem Housed.client_text_iff (housed : server.Housed capacity) (apart : server.NamedApart)
    (events : List Event) (text : String) :
    (∃ slot, .text text (clientName slot) ∈ server.allProcessed (server.operations events)) ↔
      ∃ peer, text ∈ textsOf (server.pieces peer events) := by
  constructor
  · rintro ⟨slot, isIn⟩
    suffices found : ∃ peer, text ∈ server.texts peer events by
      obtain ⟨peer, isText⟩ := found
      exact ⟨peer, housed.texts_eq apart peer events ▸ isText⟩
    induction events generalizing server with
    | nil => exact absurd isIn List.not_mem_nil
    | cons event events ih =>
      rcases List.mem_append.mp isIn with first | later
      · obtain ⟨peer, isText⟩ := exists_handledFor apart first
        exact ⟨peer, List.mem_append_left _ isText⟩
      · obtain ⟨peer, isText⟩ := ih (housed.operate _) (apart.happen event) later
        exact ⟨peer, List.mem_append_right _ isText⟩
  · rintro ⟨peer, isIn⟩
    rw [← housed.texts_eq apart peer events] at isIn
    exact exists_processed isIn

end Clients

/-! ## Whole runs -/

/-- The file that the shutdown leaves is the closed log of all entries. -/
theorem exists_closed_log {path : String} {log : Log} (created : Log.create path (.ok ()) none = .ok log)
    (capacity : Nat) (source : Option Source) (sampler : Option Sampler) (deadline : Deadline)
    (now : String) (before after : List Operation) :
    let server := new capacity (some log) source sampler deadline now
    ∃ closed : Log, closed.Holds (server.entries before) ∧
      (server.operateAll (before ++ .shutdown :: after)).logText = some closed.closed := by
  intro server
  have begins : server.Sound := sound_new capacity (some log) source sampler deadline now
  obtain ⟨logs, accepts⟩ := logs_new created capacity source sampler deadline now before
  have ended := (begins.operateAll before).shutdown
  obtain ⟨closed, holds', text⟩ := (logs.shutdown accepts).exists_closed ended.terminating
  refine ⟨closed, holds', ?_⟩
  rw [operateAll_append]
  change ((server.operateAll before).shutdown.operateAll after).logText = _
  rw [(ended.operateAll after).1.rest]
  exact text

/-- The log is read back if and only if no piece that is read from a client is too deep for a record, and
then as the list of all entries. -/
theorem read_closed_log_iff {path : String} {log : Log} (created : Log.create path (.ok ()) none = .ok log)
    (capacity : Nat) {source : Option Source} (sampler : Option Sampler) (deadline : Deadline)
    (now : String) (foreign : ∀ given, source = some given → ∀ slot, given.label ≠ clientName slot)
    (events : List Event) (after : List Operation)
    (stored : ∀ processed ∈ (new capacity (some log) source sampler deadline now).allProcessed
      ((new capacity (some log) source sampler deadline now).operations events), processed.Stored)
    (value : Json) :
    let start := new capacity (some log) source sampler deadline now
    let last := start.operateAll (start.operations events ++ .shutdown :: after)
    last.logText.map Json.read = some (.ok value) ↔
      (∀ peer, ∀ piece ∈ start.pieces peer events, Nested 125 (Json.ofMessage (said piece))) ∧
      value = Json.reread (Log.recordList (start.entries (start.operations events))) := by
  intro start last
  have housed : start.Housed capacity := housed_new capacity (some log) source sampler deadline now
  have named : start.NamedApart := namedApart_new foreign
  have pieces : (∀ text slot, .text text (clientName slot) ∈ start.allProcessed (start.operations events) →
        Nested 125 (Json.ofMessage text)) ↔
      ∀ peer, ∀ piece ∈ start.pieces peer events, Nested 125 (Json.ofMessage (said piece)) := by
    constructor
    · intro nested peer piece isPiece
      by_cases empty : (said piece).isEmpty
      · rw [String.isEmpty_iff.mp empty]
        have scalar : Json.ofMessage "" = .str "" := by rfl
        rw [scalar]
        simp [Nested]
      · have isText : said piece ∈ textsOf (start.pieces peer events) :=
          List.mem_filter.mpr ⟨List.mem_map_of_mem isPiece, by simpa using empty⟩
        obtain ⟨slot, isProcessed⟩ := (housed.client_text_iff named events _).mpr ⟨peer, isText⟩
        exact nested _ slot isProcessed
    · intro nested text slot isProcessed
      obtain ⟨peer, isText⟩ := (housed.client_text_iff named events text).mp ⟨slot, isProcessed⟩
      obtain ⟨piece, isPiece, rfl⟩ := List.mem_map.mp (List.mem_filter.mp isText).1
      exact nested peer piece isPiece
  obtain ⟨closed, holds, text⟩ :=
    exists_closed_log created capacity source sampler deadline now (start.operations events) after
  rw [show last.logText = _ from text, Option.map_some, Option.some.injEq,
    holds.read_closed_iff (sane_entries stored), nested_entries_iff stored, pieces]

/-- **Legible log**: whatever peers send and whatever else happens, the file that a shutdown leaves is read
back if and only if no piece that is read from a client is taken for a value with more than 125 containers
inside each other; it is read as the list of all that was logged, in order, with doubles as they are
reread. What the server and its operators log themselves must fit in a record. -/
theorem legible_log (path : String) (capacity : Nat) (source : Option Source) (sampler : Option Sampler)
    (deadline : Deadline) (now : String)
    (foreign : ∀ given, source = some given → ∀ slot, given.label ≠ clientName slot)
    (events : List Event) (after : List Operation) :
    ∃ log, Log.create path (.ok ()) none = .ok log ∧
      let start := new capacity (some log) source sampler deadline now
      let last := start.operateAll (start.operations events ++ .shutdown :: after)
      (∀ processed ∈ start.allProcessed (start.operations events), processed.Stored) →
        ∀ value, last.logText.map Json.read = some (.ok value) ↔
          (∀ peer, ∀ piece ∈ start.pieces peer events, Nested 125 (Json.ofMessage (said piece))) ∧
          value = Json.reread (Log.recordList (start.entries (start.operations events))) := by
  obtain ⟨log, created, -⟩ := Log.holds_create path
  exact ⟨log, created, read_closed_log_iff created capacity sampler deadline now foreign events after⟩

/-- A line of a client, taken for a list, is read back. -/
theorem legible_log_line :
    let events := [.connects .all, .does .start trivial] ++ List.replicate 4 .turn ++
      [.arrives 0 (Text.encode "[1]\n".toList)] ++ List.replicate 5 .turn
    ∃ log, Log.create "log" (.ok ()) none = .ok log ∧
      let start := new 1 (some log) none none ⟨⟨0⟩, ⟨0⟩⟩ "noon"
      let last := start.operateAll (start.operations events ++ [.shutdown])
      (∀ given : Source, none = some given → ∀ slot, given.label ≠ clientName slot) ∧
      (∀ processed ∈ start.allProcessed (start.operations events), processed.Stored) ∧
      ∃ value, last.logText.map Json.read = some (.ok value) := by
  intro events
  have foreign : ∀ given : Source, none = some given → ∀ slot, given.label ≠ clientName slot :=
    fun _ impossible => nomatch impossible
  obtain ⟨log, created, legible⟩ := legible_log "log" 1 none none ⟨⟨0⟩, ⟨0⟩⟩ "noon" foreign events []
  cases (show Log.create "log" (.ok ()) none = .ok ⟨"log", "[\n", "", 0⟩ from rfl).symm.trans created
  refine ⟨_, created, ?_⟩
  extract_lets start last at legible
  have stored : ∀ processed ∈ start.allProcessed (start.operations events), processed.Stored :=
    stored_of_said 0 (by decide +kernel)
  have pieces : start.pieces 0 events = [Text.encode "[1]\n".toList] := by decide +kernel
  have silent : ∀ peer, peer ≠ 0 → start.stream peer events = [] := by
    intro peer other
    simp [events, stream, arriving, List.replicate, Event.turn, Ne.symm other]
  have shallow : Nested 125 (Json.ofMessage (said (Text.encode "[1]\n".toList))) := by
    have list : Json.ofMessage (said (Text.encode "[1]\n".toList)) =
        .arr [.num (.whole ⟨1, by decide, by decide⟩)] := rfl
    rw [list]
    simp [Nested]
  refine ⟨foreign, stored, _, (legible stored _).mpr ⟨fun peer piece isPiece => ?_, rfl⟩⟩
  by_cases here : peer = 0
  · rw [here, pieces, List.mem_singleton] at isPiece
    rw [isPiece]
    exact shallow
  · have parts := unread_happenAll start peer events
    rw [silent peer here] at parts
    have none := (List.append_eq_nil_iff.mp parts.symm).1
    exact absurd (List.flatten_eq_nil_iff.mp none piece isPiece) (length_of_mem_pieces isPiece).1

/-- **Illegible log**: a text of brackets is taken for 126 lists inside each other, and the log that has its
record is not read. -/
theorem deep_message_illegible :
    let events := [.connects .all, .does .start trivial] ++ List.replicate 4 .turn ++
      [.arrives 0 (Text.encode (Json.brackets 126) ++ [0x0A])] ++ List.replicate 5 .turn
    ∃ log, Log.create "log" (.ok ()) none = .ok log ∧
      let start := new 1 (some log) none none ⟨⟨0⟩, ⟨0⟩⟩ ""
      let last := start.operateAll (start.operations events ++ [.shutdown])
      start.stream 0 events = Text.encode (Json.brackets 126) ++ [0x0A] ∧
      ∀ value, last.logText.map Json.read ≠ some (.ok value) := by
  intro events
  have created : Log.create "log" (.ok ()) none = .ok ⟨"log", "[\n", "", 0⟩ := rfl
  refine ⟨_, created, ?_⟩
  extract_lets start last
  have foreign : ∀ given : Source, none = some given → ∀ slot, given.label ≠ clientName slot :=
    fun _ impossible => nomatch impossible
  have stored : ∀ processed ∈ start.allProcessed (start.operations events), processed.Stored :=
    stored_of_said 0 (by decide +kernel)
  have pieces : start.pieces 0 events = [Text.encode (Json.brackets 126) ++ [0x0A]] := by decide +kernel
  refine ⟨by decide +kernel, fun value read => ?_⟩
  have nested := ((read_closed_log_iff created 1 none ⟨⟨0⟩, ⟨0⟩⟩ "" foreign events [] stored value).mp read).1
  have taken : Json.ofMessage (said (Text.encode (Json.brackets 126) ++ [0x0A])) = Json.lists 125 := by
    rw [said_line (by decide +kernel), Json.ofMessage_brackets (by decide)]
  have all := nested 0
  rw [pieces, List.forall_mem_singleton, taken, Json.nested_lists] at all
  exact absurd all (by decide)

end Server
end TelemetryHub
