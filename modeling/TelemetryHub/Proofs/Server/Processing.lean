import TelemetryHub.Proofs.Server.Dispatching
import TelemetryHub.Proofs.Server.Frames

/-!
# What the server processes

`processed` says, without the log and the clients, what an operation makes the server process: a text or a
command that is handed to it, the message of the client or of the command source whose turn it is, and the
records that producers and sessions broadcast. That this is what the server does is said here once. Each of
them reaches the log and the clients, in this order and once, refused ones like all others, and nothing else
does (`Sound.records_operate`): a run leaves the entries of all that it processes in the log
(`Sound.logs_operateAll`), and whoever is connected through it has been sent the lines of all records in it
(`Sound.sends_operateAll`). A message that comes to the loop is handled, in the name of those whose turn it is
(`exists_turn`), and nothing comes in another name than that of those who say it (`comes_of_mem`).
-/

namespace TelemetryHub

namespace Server

open Log (Entry)

/-! ## What is processed -/

/-- What the server processes: a text, a command, or a record that is broadcast. -/
inductive Processed where
  | text (text origin : String)
  | command (command : Command) (origin : String)
  | record (record : Json)

namespace Processed

def ofIncoming (origin : String) : Incoming → Processed
  | .raw message => .text message origin
  | .parsed request => .command request origin

/-- The entry that it has in the log: a text as it is, a command in its wire form, and a record as one
of the server itself. -/
def entry (now : String) : Processed → Entry
  | text message origin => .text message origin now
  | command request origin => .value request.message.toJson origin now
  | record body => .value body ownName now

/-- The name of those it comes from, unless it is a record. -/
def origin? : Processed → Option String
  | text _ origin | command _ origin => some origin
  | record _ => none

/-- The record that is broadcast, if it is one. -/
def record? : Processed → Option Json
  | record body => some body
  | _ => none

/-- The lines that clients are sent. -/
def lines (processed : List Processed) : List UInt8 := (processed.filterMap record?).flatMap payload

theorem lines_append (first second : List Processed) : lines (first ++ second) = lines first ++ lines second := by
  unfold lines
  rw [List.filterMap_append, List.flatMap_append]

theorem filterMap_record? (records : List Json) : (records.map record).filterMap record? = records := by
  rw [List.filterMap_map]
  exact List.filterMap_some

end Processed

/-- The records that the session publishes when a command stops it. -/
def stopped (server : Server) (command : Command) : List Json :=
  match command.action with
  | .sessionStop => server.session.elim [] fun session => (session.expire true).left
  | _ => []

theorem stopped_of_ne {server : Server} {command : Command} (goesOn : command.action ≠ .sessionStop) :
    server.stopped command = [] := by
  unfold stopped
  split
  · next stops => exact absurd stops goesOn
  · rfl

/-- What is processed when a message is handled. -/
def handled (server : Server) (origin : String) (incoming : Incoming) : List Processed :=
  .ofIncoming origin incoming :: (incoming.command?.elim [] server.stopped).map .record

/-- What is processed when a message may have come from somewhere. -/
def heard (server : Server) : Option Incoming → Option String → List Processed
  | some incoming, some origin => server.handled origin incoming
  | _, _ => []

/-- The name of those whose turn it is. -/
def origin? (server : Server) : Option String := server.turn?.bind Turn.origin?

/-- What an operation makes the server process: nothing once the shutdown has begun. -/
def processed (server : Server) (operation : Operation) : List Processed :=
  if server.terminating then []
  else
    match operation with
    | .broadcast record => [.record record]
    | .handleText text source => server.handled source (.raw text)
    | .handleCommand command source => server.handled source (.parsed command)
    | .dispatch command => (server.stopped command).map .record
    | .sessionPublishes => (server.session.elim [] fun session => session.left.take 1).map .record
    | .sessionFinishes =>
      (server.session.elim [] fun session => (session.expire false).left).map .record
    | .advance => server.heard server.incoming? server.origin?
    | _ => []

/-- How something comes to be processed: it is a record, it has been handed over in a name, or it is the
message of those whose turn it is. -/
inductive Comes (server : Server) : Operation → Processed → Prop where
  | record {operation : Operation} (body : Json) : Comes server operation (.record body)
  | text (text source : String) : Comes server (.handleText text source) (.text text source)
  | command (command : Command) (source : String) :
    Comes server (.handleCommand command source) (.command command source)
  | turn {incoming : Incoming} {origin : String} (told : server.incoming? = some incoming)
    (named : server.origin? = some origin) : Comes server .advance (.ofIncoming origin incoming)

theorem comes_of_mem_records {server : Server} {operation : Operation} {processed : Processed}
    {records : List Json} (isIn : processed ∈ records.map .record) : server.Comes operation processed := by
  obtain ⟨body, -, rfl⟩ := List.mem_map.mp isIn
  exact .record body

theorem comes_of_mem_handled {server : Server} {operation : Operation} {origin : String} (incoming : Incoming)
    (message : server.Comes operation (.ofIncoming origin incoming)) {processed : Processed}
    (isIn : processed ∈ server.handled origin incoming) : server.Comes operation processed := by
  rcases List.mem_cons.mp isIn with rfl | later
  · exact message
  · exact comes_of_mem_records later

theorem comes_of_mem {server : Server} {operation : Operation} {processed : Processed}
    (isIn : processed ∈ server.processed operation) : server.Comes operation processed := by
  unfold Server.processed at isIn
  split at isIn
  · cases isIn
  cases operation with
  | broadcast record => exact @comes_of_mem_records _ _ _ [record] isIn
  | handleText text source => exact comes_of_mem_handled (.raw text) (.text text source) isIn
  | handleCommand command source =>
    exact comes_of_mem_handled (.parsed command) (.command command source) isIn
  | dispatch | sessionPublishes | sessionFinishes => exact comes_of_mem_records isIn
  | advance =>
    dsimp only at isIn
    cases told : server.incoming? with
    | none =>
      rw [told] at isIn
      cases isIn
    | some incoming =>
      cases named : server.origin? with
      | none =>
        rw [told, named] at isIn
        cases isIn
      | some origin =>
        rw [told, named] at isIn
        exact comes_of_mem_handled incoming (.turn told named) isIn
  | connect | transport | typed | clock | sampler | setEnabled | setRate | samples | start | sessionExpires
  | shutdown => cases isIn

/-! ## What is written -/

/-- The second server is within the first one. If the log has been open its entries are those from before
and then those of what has been processed, and whoever stays connected is sent the lines of the records in
it. -/
structure Writes (server server' : Server) (processed : List Processed) : Prop where
  within : server.Within server'
  logs : server.terminating = false → server.logRefusal = none → ∀ entries, server.Logs entries →
    server'.Logs (entries ++ processed.map (·.entry server.now))
  sends : server.Coherent → server.Sends server' (Processed.lines processed)

namespace Writes

theorem silent {server server' : Server} (within : server.Within server') (sameLog : server.SameLog server')
    (sends : server.Coherent → server.Sends server' []) : server.Writes server' [] where
  within := within
  logs _ _ entries logs := by
    rw [List.map_nil, List.append_nil]
    exact logs.same sameLog
  sends := sends

/-- What concerns neither the log nor the clients. -/
theorem beside {server server' : Server} (within : server.Within server') (sameLog : server.SameLog server')
    (peers : server'.peers = server.peers) : server.Writes server' [] :=
  .silent within sameLog fun _ => .of_same_peers peers

theorem refl (server : Server) : server.Writes server [] := .beside (.refl server) ⟨rfl, rfl, rfl, rfl⟩ rfl

theorem trans {first second third : Server} {processed processed' : List Processed}
    (left : first.Writes second processed) (right : second.Writes third processed') :
    first.Writes third (processed ++ processed') where
  within := left.within.trans right.within
  logs running accepts entries logs := by
    have now := left.within.now
    have later := right.logs (left.within.terminating.trans running)
      (left.within.logRefusal.trans accepts) _ (left.logs running accepts entries logs)
    rw [now] at later
    rw [List.map_append, ← List.append_assoc]
    exact later
  sends coherent := by
    rw [Processed.lines_append]
    exact (left.sends coherent).trans (right.sends (coherent.evolve left.within.evolves))

/-- What is done first does not shut the server down. -/
theorem andThen {first second third : Server} {processed processed' : List Processed}
    (left : first.Writes second processed) (running : first.terminating = false)
    (right : second.terminating = false → second.Writes third processed') :
    first.Writes third (processed ++ processed') :=
  left.trans (right (left.within.terminating.trans running))

end Writes

theorem logs_appendLog {server : Server} (running : server.terminating = false) (accepts : server.logRefusal = none)
    {entries : List Entry} (logs : server.Logs entries) (processed : Processed) :
    (server.appendLog (processed.entry server.now).body (processed.entry server.now).source).Logs
      (entries ++ [processed.entry server.now]) := by
  have current : (processed.entry server.now).now = server.now := by cases processed <;> rfl
  have notes := notes_appendLog server (processed.entry server.now) current
  cases logs with
  | closed terminating => cases running.symm.trans terminating
  | opened _ found holds =>
    obtain ⟨log, found', -, holds'⟩ := notes.logged _ found
    exact .opened ((within_appendLog server _ _).terminating.trans running) found' (holds' accepts entries holds)

/-- A message has its entry, and clients are sent nothing. -/
theorem writes_ofIncoming (server : Server) (origin : String) (incoming : Incoming) :
    let message := Processed.ofIncoming origin incoming
    server.Writes (server.appendLog (message.entry server.now).body (message.entry server.now).source)
      [message] where
  within := within_appendLog server _ _
  logs running accepts _ logs := logs_appendLog running accepts logs _
  sends _ := by
    have nothing : Processed.lines [.ofIncoming origin incoming] = [] := by cases incoming <;> rfl
    rw [nothing]
    refine .of_same_peers ?_
    rw [appendLog_eq]

theorem writes_broadcast {server : Server} (running : server.terminating = false) (record : Json) :
    server.Writes (server.broadcast record) [.record record] where
  within := within_broadcast server record
  logs _ accepts entries logs := by
    rw [broadcast_of_running running]
    let sent := server.updateAll server.connected fun c => (c.send (payload record)).2
    have logs' : sent.Logs entries := logs.same ⟨rfl, rfl, rfl, rfl⟩
    exact @logs_appendLog sent running accepts _ logs' (.record record)
  sends coherent := by
    have line : Processed.lines [.record record] = Step.line (.broadcast record) := List.append_nil _
    rw [line]
    exact coherent.sends_perform (.broadcast record)

theorem writes_broadcastAll {server : Server} (running : server.terminating = false)
    (records : List Json) : server.Writes (server.broadcastAll records) (records.map .record) := by
  unfold broadcastAll
  induction records generalizing server with
  | nil => exact .refl server
  | cons record records ih =>
    exact (writes_broadcast running record).andThen running ih

theorem writes_dispatch {server : Server} (running : server.terminating = false) (command : Command) :
    server.Writes (server.dispatch command).2 ((server.stopped command).map .record) := by
  have answer := dispatched server command
  have within := within_dispatch server command
  generalize server.dispatch command = attempt at answer within ⊢
  have gate : command.action.onSession = false → command.action ≠ .sessionStop := by
    intro onGate stops
    rw [stops] at onGate
    cases onGate
  cases answer with
  | late ending => cases running.symm.trans ending
  | refused _ onGate | obeyed _ onGate =>
    rw [stopped_of_ne (gate onGate)]
    exact .beside within ⟨rfl, rfl, rfl, rfl⟩ rfl
  | noSampler _ starts | busy _ starts | started _ starts =>
    rw [stopped_of_ne (by rw [starts]; nofun)]
    exact .beside within ⟨rfl, rfl, rfl, rfl⟩ rfl
  | noSession _ stops missing =>
    have nothing : server.stopped command = [] := by simp [stopped, stops, missing]
    rw [nothing]
    exact .beside within ⟨rfl, rfl, rfl, rfl⟩ rfl
  | @stopped session _ stops found =>
    have left : server.stopped command = (session.expire true).left := by simp [stopped, stops, found]
    rw [left]
    have emptied : server.Writes { server with session := none } [] :=
      .beside (within_setSession server none) ⟨rfl, rfl, rfl, rfl⟩ rfl
    exact emptied.andThen running fun running => writes_broadcastAll running _

/-- A message has its record before anything that comes of it. -/
theorem writes_handle {server : Server} (running : server.terminating = false) (origin : String)
    (incoming : Incoming) :
    server.Writes (server.handle incoming origin).2 (server.handled origin incoming) := by
  have logged := writes_ofIncoming server origin incoming
  have same : ∀ body source command,
      (server.appendLog body source).stopped command = server.stopped command := by
    intro body source command
    unfold stopped
    rw [appendLog_eq]
  cases incoming with
  | parsed command =>
    have obeyed := logged.andThen running fun running => writes_dispatch running command
    rw [same] at obeyed
    exact obeyed
  | raw text =>
    unfold handle handleText handled Incoming.command?
    dsimp only
    cases Command.parse text with
    | ok command =>
      have obeyed := logged.andThen running fun running => writes_dispatch running command
      rw [same] at obeyed
      exact obeyed
    | error error => exact logged

/-! ## The turns of the loop -/

theorem writes_evict (server : Server) (slot : Nat) : server.Writes (server.evict slot) [] :=
  .silent (within_evict server slot) (sameLog_perform server (rfl : (Step.evict slot).logged = none) nofun)
    fun coherent => coherent.sends_perform (.evict slot)

/-- Reading a client is a step that writes nothing. -/
theorem writes_receive {server : Server} {peer : Nat} {connection : Connection}
    (found : server.connection? peer = some connection) :
    server.Writes (server.setConnection peer connection.receive.2) [] := by
  refine .silent (within_receive server found) ⟨rfl, rfl, rfl, rfl⟩ fun coherent => ?_
  have sends := coherent.sends_perform (.receive peer)
  rwa [show server.perform (.receive peer) = _ from
    modifyConnection_of_some found fun connection => connection.receive.2] at sends

/-- A client whose turn it is has its message processed under the name of its slot. -/
theorem writes_serve {server : Server} (running : server.terminating = false) (peer : Nat) :
    server.Writes (server.serve peer)
      (server.heard (server.said? peer) ((server.slot? peer).map clientName)) := by
  unfold serve said? slot?
  cases found : server.connection? peer with
  | none => exact .refl server
  | some connection =>
    have read := writes_receive found
    dsimp only
    cases connection.receive.1 with
    | error _ => exact read.trans (writes_evict _ _)
    | ok text =>
      dsimp only
      split
      · exact read
      · exact read.andThen running fun running =>
          writes_handle running (clientName connection.slot) (.raw text)

/-- The command source has its message processed under its label. -/
theorem writes_pollSource {server : Server} (running : server.terminating = false) (ready : Bool) :
    server.Writes (server.pollSource ready)
      (server.heard (server.supplied? ready) (server.source.map Source.label)) := by
  unfold pollSource supplied?
  cases server.source with
  | none => exact .refl server
  | some source =>
    have polled : server.Writes { server with source := some (source.poll ready).2 } [] :=
      .beside (within_setSource server _) ⟨rfl, rfl, rfl, rfl⟩ rfl
    simp only [Option.bind_some]
    cases (source.poll ready).1 with
    | none => exact polled
    | some incoming =>
      exact polled.andThen running fun running => writes_handle running source.label incoming

/-- What is processed reaches the log, whose device still takes everything, and the clients: the log of the
second server has the entries of it behind those of the first one, and whoever stays connected is sent the
lines of the records in it. -/
structure Records (server server' : Server) (processed : List Processed) : Prop where
  logs : ∀ entries, server.Logs entries → server.logRefusal = none →
    server'.Logs (entries ++ processed.map (·.entry server.now)) ∧ server'.logRefusal = none
  sends : server.Sends server' (Processed.lines processed)

theorem SameLog.records {server server' : Server} (same : server.SameLog server')
    (sends : server.Sends server' []) : server.Records server' [] where
  logs entries logs accepts := by
    rw [List.map_nil, List.append_nil]
    exact ⟨logs.same same, same.logRefusal.trans accepts⟩
  sends := sends

/-- What concerns neither the log nor the clients. -/
theorem records_beside {server server' : Server} (sameLog : server.SameLog server')
    (peers : server'.peers = server.peers) : server.Records server' [] :=
  sameLog.records (.of_same_peers peers)

/-- What is done first concerns neither of them. -/
theorem Records.behind {server between server' : Server} {processed : List Processed}
    (records : between.Records server' processed) (sameLog : server.SameLog between)
    (peers : between.peers = server.peers) (now : between.now = server.now) :
    server.Records server' processed where
  logs entries logs accepts := by
    rw [← now]
    exact records.logs entries (logs.same sameLog) (sameLog.logRefusal.trans accepts)
  sends := Sends.trans (.of_same_peers peers) records.sends

theorem Writes.records {server server' : Server} {processed : List Processed}
    (wrote : server.Writes server' processed) (running : server.terminating = false)
    (coherent : server.Coherent) : server.Records server' processed where
  logs entries logs accepts :=
    ⟨wrote.logs running accepts entries logs, wrote.within.logRefusal.trans accepts⟩
  sends := wrote.sends coherent

/-- A step of the loop records what it processes. -/
theorem Paced.records_advance {server : Server} (paced : server.Paced) (coherent : server.Coherent)
    (running : server.terminating = false) :
    server.Records server.advance (server.heard server.incoming? server.origin?) := by
  have step := server.advanced
  unfold origin? incoming? turn?
  generalize server.loop = point at step ⊢
  generalize server.advance = server' at step ⊢
  cases step with
  | idle | ended => exact records_beside ⟨rfl, rfl, rfl, rfl⟩ rfl
  | late ending | cut ending => cases running.symm.trans ending
  | deaf _ deaf =>
    -- a server that runs listens, so the loop does not shut it down
    rw [paced.listening, running] at deaf
    cases deaf
  | begins =>
    have sends := coherent.sends_perform .reap
    have sameLog := sameLog_perform server (rfl : Step.reap.logged = none) nofun
    exact SameLog.records ⟨sameLog.log, sameLog.logFile, sameLog.logRefusal, sameLog.terminating⟩ sends
  | wakes =>
    have same := sameLog_setPhase server .running
    exact SameLog.records ⟨same.log, same.logFile, same.logRefusal, same.terminating⟩
      (sends_setPhase server .running)
  | turns _ _ same silent =>
    exact SameLog.records ⟨same.log, same.logFile, same.logRefusal, same.terminating⟩ (silent coherent)
  | @serves peer ready source =>
    let moved : Server := { server with loop := .serving ready source }
    have running' : moved.terminating = false := running
    have wrote := (writes_serve running' peer).records running' (coherent.evolve (evolves_setLoop server _))
    have origin : ((server.slot? peer).map Turn.client).bind Turn.origin? =
        (server.slot? peer).map clientName := by cases server.slot? peer <;> rfl
    dsimp only
    rw [origin]
    exact wrote.behind ⟨rfl, rfl, rfl, rfl⟩ rfl rfl
  | @polls source =>
    let moved : Server := { server with loop := .top }
    have running' : moved.terminating = false := running
    have wrote := (writes_pollSource running' source).records running' (coherent.evolve (evolves_setLoop server _))
    exact wrote.behind ⟨rfl, rfl, rfl, rfl⟩ rfl rfl

/-! ## Every operation -/

theorem writes_sessionPublishes {server : Server} (running : server.terminating = false) :
    server.Writes server.sessionPublishes
      ((server.session.elim [] fun session => session.left.take 1).map .record) := by
  unfold sessionPublishes
  cases server.session with
  | none => exact .refl server
  | some session =>
    have moved : ∀ session, server.Writes { server with session := some session } [] :=
      fun _ => .beside (within_setSession server _) ⟨rfl, rfl, rfl, rfl⟩ rfl
    unfold Session.left
    dsimp only [Option.elim]
    cases session.progress with
    | sampling | finished => exact .refl server
    | publishing records =>
      cases records with
      | nil => exact moved session.finish
      | cons record rest =>
        exact (moved _).andThen running fun running => writes_broadcast running record

theorem writes_sessionFinishes {server : Server} (running : server.terminating = false) :
    server.Writes server.sessionFinishes
      ((server.session.elim [] fun session => (session.expire false).left).map .record) := by
  unfold sessionFinishes
  cases server.session with
  | none => exact .refl server
  | some session =>
    have moved : server.Writes { server with session := some session.finish } [] :=
      .beside (within_setSession server _) ⟨rfl, rfl, rfl, rfl⟩ rfl
    exact moved.andThen running fun running => writes_broadcastAll running _

/-- Nobody is connected to a server that has ended, and nothing is written any more. -/
theorem Ended.sends {server : Server} (ended : server.Ended) (operation : Operation) :
    server.Sends (server.operate operation) [] := by
  intro peer c found
  have has : server.slot? peer = some c.slot := congrArg (·.map Connection.slot) found
  obtain ⟨c', found', -⟩ := Option.map_eq_some_iff.mp ((evolves_operate server operation).slot? has)
  refine ⟨c', found', fun connected => ?_⟩
  have back := (ended.operate operation).1.back peer ((isConnected_of_some found').trans connected)
  rw [ended.gone] at back
  cases back

/-- **Step**: an operation records what it makes the server process, and nothing else. -/
theorem Sound.records_operate {server : Server} (sound : server.Sound) (operation : Operation) :
    server.Records (server.operate operation) (server.processed operation) := by
  have coherent := sound.coherent
  unfold processed
  cases running : server.terminating with
  | true =>
    have ended := sound.ended running
    exact (ended.operate operation).1.sameLog.records (ended.sends operation)
  | false =>
    rw [if_neg Bool.false_ne_true]
    cases operation with
    | connect input acceptance =>
      exact SameLog.records ⟨rfl, rfl, rfl, rfl⟩ (coherent.sends_perform (.connect input acceptance))
    | transport peer input acceptance =>
      exact SameLog.records ⟨rfl, rfl, rfl, rfl⟩ (coherent.sends_perform (.transport peer input acceptance))
    | clock | sampler | setEnabled | setRate | samples | sessionExpires =>
      exact records_beside ⟨rfl, rfl, rfl, rfl⟩ rfl
    | typed input =>
      change server.Records (server.typed fun _ => input) []
      unfold Server.typed
      split <;> exact records_beside ⟨rfl, rfl, rfl, rfl⟩ rfl
    | start =>
      change server.Records server.enterLoop []
      unfold enterLoop
      split <;> exact records_beside ⟨rfl, rfl, rfl, rfl⟩ rfl
    | broadcast record => exact (writes_broadcast running record).records running coherent
    | handleText text source => exact (writes_handle running source (.raw text)).records running coherent
    | handleCommand command source =>
      exact (writes_handle running source (.parsed command)).records running coherent
    | dispatch command => exact (writes_dispatch running command).records running coherent
    | sessionPublishes => exact (writes_sessionPublishes running).records running coherent
    | sessionFinishes => exact (writes_sessionFinishes running).records running coherent
    | advance => exact sound.paced.records_advance coherent running
    | shutdown =>
      refine ⟨fun entries logs accepts => ?_, coherent.sends_perform .shutdown⟩
      rw [List.map_nil, List.append_nil]
      exact ⟨logs.shutdown accepts, (logRefusal_perform server .shutdown).trans accepts⟩

/-- Only a client that has been read says something. -/
theorem exists_received_of_said {server : Server} {peer : Nat} {incoming : Incoming}
    (told : server.said? peer = some incoming) :
    ∃ c text, server.connection? peer = some c ∧ c.receive.1 = .ok text ∧ text.isEmpty = false ∧
      incoming = .raw text := by
  unfold said? at told
  cases found : server.connection? peer with
  | none =>
    rw [found] at told
    cases told
  | some c =>
    rw [found] at told
    dsimp only at told
    split at told
    · next text received =>
      split at told
      · cases told
      · next something =>
        cases told
        exact ⟨c, text, rfl, received, Bool.eq_false_iff.mpr something, rfl⟩
    · cases told

theorem serve_eq_handle {server : Server} {peer : Nat} {c : Connection} {text : String}
    (found : server.connection? peer = some c) (received : c.receive.1 = .ok text)
    (something : text.isEmpty = false) :
    server.serve peer = (handle (server.setConnection peer c.receive.2) (.raw text) (clientName c.slot)).2 := by
  unfold serve
  rw [found]
  dsimp only
  rw [received]
  dsimp only
  rw [if_neg (Bool.eq_false_iff.mp something)]
  rfl

/-- A client that says something has it handled under the name of its slot. -/
theorem exists_serve_eq_handle {server : Server} {peer : Nat} {incoming : Incoming}
    (told : server.said? peer = some incoming) :
    ∃ slot read, server.slot? peer = some slot ∧
      server.serve peer = (handle read incoming (clientName slot)).2 := by
  obtain ⟨c, text, found, received, something, rfl⟩ := exists_received_of_said told
  exact ⟨c.slot, _, congrArg (·.map Connection.slot) found, serve_eq_handle found received something⟩

theorem exists_pollSource_eq_handle {server : Server} {ready : Bool} {incoming : Incoming}
    (supplied : server.supplied? ready = some incoming) :
    ∃ label read, server.source.map Source.label = some label ∧
      server.pollSource ready = (handle read incoming label).2 := by
  obtain ⟨source, found, polled⟩ := Option.bind_eq_some_iff.mp supplied
  unfold pollSource
  rw [found]
  dsimp only
  rw [polled]
  exact ⟨source.label, _, rfl, rfl⟩

/-- A step of the loop that has a message handles it in the name of those whose turn it is. -/
theorem exists_turn {server : Server} {incoming : Incoming} (has : server.incoming? = some incoming) :
    ∃ turn origin read, server.turn? = some turn ∧ turn.origin? = some origin ∧
      server.advance = (handle read incoming origin).2 := by
  unfold incoming? at has
  unfold turn? advance
  generalize server.loop = point at has ⊢
  cases point with
  | serving ready source =>
    cases ready with
    | cons peer ready =>
      obtain ⟨slot, read, held, handled⟩ :=
        @exists_serve_eq_handle { server with loop := .serving ready source } peer incoming has
      exact ⟨.client slot, clientName slot, read, congrArg (·.map Turn.client) held, rfl, handled⟩
    | nil =>
      obtain ⟨label, read, labelled, handled⟩ :=
        @exists_pollSource_eq_handle { server with loop := .top } source incoming has
      exact ⟨.source label, label, read, congrArg (some ∘ Turn.source) labelled, rfl, handled⟩
  | _ => cases has

/-! ## Whole runs -/

/-- The entries of all that operations make the server process, in order. -/
def entries (server : Server) : List Operation → List Entry
  | [] => []
  | operation :: operations =>
    (server.processed operation).map (·.entry server.now) ++
      (server.operate operation).entries operations

/-- **Run**: the log has the entries of what operations make the server process, in order. -/
theorem Sound.logs_operateAll {server : Server} (sound : server.Sound) {before : List Entry}
    (logs : server.Logs before) (accepts : server.logRefusal = none) (operations : List Operation) :
    (server.operateAll operations).Logs (before ++ server.entries operations) ∧
      (server.operateAll operations).logRefusal = none := by
  induction operations generalizing server before with
  | nil =>
    unfold entries
    rw [List.append_nil]
    exact ⟨logs, accepts⟩
  | cons operation operations ih =>
    obtain ⟨logs', accepts'⟩ := (sound.records_operate operation).logs before logs accepts
    have later := ih (sound.operate operation) logs' accepts'
    rw [List.append_assoc] at later
    exact later

/-- A log that has been opened with the server has the entries of everything since. -/
theorem logs_new {path : String} {log : Log} (created : Log.create path (.ok ()) none = .ok log) (capacity : Nat)
    (source : Option Source) (sampler : Option Sampler) (deadline : Deadline) (now : String)
    (operations : List Operation) :
    let server := new capacity (some log) source sampler deadline now
    (server.operateAll operations).Logs (server.entries operations) ∧
      (server.operateAll operations).logRefusal = none := by
  intro server
  obtain ⟨log', created', holds⟩ := Log.holds_create path
  cases created.symm.trans created'
  have begins : server.Sound := sound_new capacity (some log) source sampler deadline now
  exact begins.logs_operateAll (.opened rfl rfl holds) rfl operations

/-- The records that operations make the server broadcast, in order. -/
def published (server : Server) : List Operation → List Json
  | [] => []
  | operation :: operations =>
    (server.processed operation).filterMap Processed.record? ++ (server.operate operation).published operations

theorem published_append (server : Server) (first second : List Operation) :
    server.published (first ++ second) =
      server.published first ++ (server.operateAll first).published second := by
  induction first generalizing server with
  | nil => rfl
  | cons operation first ih =>
    rw [List.cons_append, published, published, ih, List.append_assoc]
    rfl

/-- **Run**: whoever is connected through operations has been sent the lines of the records that they make
the server broadcast, in order, and nothing else. -/
theorem Sound.sends_operateAll {server : Server} (sound : server.Sound) (operations : List Operation) :
    server.Sends (server.operateAll operations) ((server.published operations).flatMap payload) := by
  induction operations generalizing server with
  | nil => exact .of_same_peers rfl
  | cons operation operations ih =>
    rw [published, List.flatMap_append]
    exact (sound.records_operate operation).sends.trans (ih (sound.operate operation))

/-! ## The server's own entries -/

/-- What is handed to the server does not come in its own name. -/
def Operation.Foreign : Operation → Prop
  | .handleText _ source | .handleCommand _ source => source ≠ ownName
  | _ => True

theorem Foreign.operate {server : Server} (foreign : server.Foreign) (operation : Operation) :
    (server.operate operation).Foreign := by
  intro source found same
  have label : (server.operate operation).label? = some source.label := congrArg (·.map Source.label) found
  rw [label?_operate] at label
  obtain ⟨given, before, named⟩ := Option.map_eq_some_iff.mp label
  exact foreign given before (named.trans same)

/-- No turn is the server's own. -/
theorem Foreign.origin?_ne {server : Server} (foreign : server.Foreign) : server.origin? ≠ some ownName := by
  intro named
  obtain ⟨turn, isTurn, origin⟩ := Option.bind_eq_some_iff.mp named
  unfold turn? at isTurn
  split at isTurn
  · split at isTurn
    · cases isTurn
    · cases isTurn
      cases origin
  · obtain ⟨slot, -, rfl⟩ := Option.map_eq_some_iff.mp isTurn
    exact clientName_ne_ownName slot (Option.some.inj origin)
  · cases isTurn
    obtain ⟨source, found, same⟩ := Option.map_eq_some_iff.mp origin
    exact foreign source found same
  · cases isTurn

/-- Only records are the server's own. -/
theorem Comes.origin?_ne {server : Server} {operation : Operation} {processed : Processed}
    (comes : server.Comes operation processed) (foreign : server.Foreign) (other : operation.Foreign) :
    processed.origin? ≠ some ownName := by
  cases comes with
  | record body =>
    intro same
    cases same
  | text text source | command command source =>
    intro same
    exact other (Option.some.inj same)
  | @turn incoming origin told named =>
    have same : (Processed.ofIncoming origin incoming).origin? = some origin := by cases incoming <;> rfl
    rw [same, ← named]
    exact foreign.origin?_ne

/-- The server's own entries of what comes in other names are those of the records. -/
theorem own_map_entry {processed : List Processed} (now : String)
    (others : ∀ one ∈ processed, one.origin? ≠ some ownName) :
    own (processed.map (·.entry now)) = processed.filterMap Processed.record? := by
  induction processed with
  | nil => rfl
  | cons one processed ih =>
    have rest := ih fun one isIn => others one (List.mem_cons_of_mem _ isIn)
    have first := others one List.mem_cons_self
    rw [List.map_cons, ← List.singleton_append, own_append, rest, List.filterMap_cons]
    cases one with
    | record body => rfl
    | text _ origin | command _ origin =>
      have other : origin ≠ ownName := fun same => first (congrArg some same)
      simp [own, Processed.entry, Entry.source, Processed.record?, other]

/-- **Run**: the server's own entries are those of the records that are broadcast, in order. -/
theorem Foreign.own_entries {server : Server} (foreign : server.Foreign) {operations : List Operation}
    (others : ∀ operation ∈ operations, operation.Foreign) :
    own (server.entries operations) = server.published operations := by
  induction operations generalizing server with
  | nil => rfl
  | cons operation operations ih =>
    have here := own_map_entry server.now fun one isIn =>
      (comes_of_mem isIn).origin?_ne foreign (others operation List.mem_cons_self)
    have later := ih (foreign.operate operation) fun operation isIn => others operation (List.mem_cons_of_mem _ isIn)
    rw [entries, published, own_append, here, later]

end Server
end TelemetryHub
