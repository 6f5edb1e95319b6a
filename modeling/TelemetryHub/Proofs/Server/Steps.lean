import TelemetryHub.Launch

/-!
# The server step by step

Whatever happens to the server happens to its clients, its roster and its log in steps of a few kinds
(`Step`): a client comes, is accepted, is read or is taken out, a record is broadcast, a command is
logged, the server shuts down. Everything else leaves them alone (`Step.elsewhere`). `Reaches` relates
two servers with such steps between them, and the loop (`reaches_steps`), the commands and the sessions
are made of them.
-/

namespace TelemetryHub

/-- A command source keeps its name. -/
theorem Source.label_poll (source : Source) (readable : Bool) :
    (source.poll readable).2.label = source.label := by
  cases source with
  | interactive source =>
    have kept : (source.poll readable).2.label = source.label := by
      unfold Interactive.poll
      split
      · rfl
      · simp only
        split
        · rfl
        · rfl
        · split <;> rfl
    unfold Source.poll
    simp only
    split
    · next turned => rw [turned] at kept; exact kept
    · next turned => rw [turned] at kept; exact kept
  | script script => rfl

namespace Server

/-- No command source is named like the server itself. -/
def Foreign (server : Server) : Prop := ∀ source, server.source = some source → source.label ≠ ownName

/-- What happens at once. -/
inductive Step where
  /-- A peer tries to connect; nothing has been written to it. -/
  | connect (input : Inbound) (acceptance : Acceptance)
  /-- Something arrives from a peer, or it takes more or less from now on. -/
  | transport (peer : Nat) (input : Inbound) (acceptance : Acceptance)
  /-- A peer that is waiting is accepted or turned away, as long as peers can connect. -/
  | accept (peer : Nat)
  | broadcast (record : Json)
  /-- One message of a client is read. -/
  | receive (peer : Nat)
  /-- The clients that are no longer connected are taken out. -/
  | reap
  | evict (slot : Nat)
  /-- A command is logged, whose source is not the server itself. -/
  | log (body : Json) (source : String) (foreign : source ≠ ownName)
  | shutdown
  /-- Something happens to the rest of the server, which becomes that of `other`. -/
  | elsewhere (other : Server) (foreign : other.Foreign)

/-- What a step makes of the server. -/
def perform (server : Server) : Step → Server
  | .connect input acceptance => server.connect ⟨input, [], acceptance⟩
  | .transport peer input acceptance =>
    server.modifySocket peer fun socket => ⟨input, { socket.output with acceptance }⟩
  | .accept peer => if server.listening then server.acceptOne peer else server
  | .broadcast record => server.broadcast record
  | .receive peer => server.modifyConnection peer fun connection => connection.receive.2
  | .reap => server.reap
  | .evict slot => server.evict slot
  | .log body source _ => server.appendLog body source
  | .shutdown => server.shutdown
  | .elsewhere other _ =>
    { other with
      peers := server.peers
      roster := server.roster
      listening := server.listening
      log := server.log
      logFile := server.logFile
      logRefusal := server.logRefusal
      terminating := server.terminating }

/-- What steps make of the server, one after the other. -/
def run (server : Server) (steps : List Step) : Server := steps.foldl perform server

theorem run_append (server : Server) (first second : List Step) :
    server.run (first ++ second) = (server.run first).run second := List.foldl_append

/-- Only the log is different behind an entry. -/
theorem appendLog_eq (server : Server) (body : Json) (source : String) :
    server.appendLog body source =
      { server with log := (server.appendLog body source).log } := by
  unfold appendLog
  split <;> rfl

/-- Only the phase is different behind a change of phase, if that. -/
theorem setPhase_eq (server : Server) (phase : ServerPhase) :
    server.setPhase phase = { server with phase := (server.setPhase phase).phase } := by
  unfold setPhase
  split <;> rfl

/-- Only the log and its file are different once the log has been closed. -/
theorem closeLog_eq (server : Server) :
    server.closeLog = { server with log := none, logFile := server.closeLog.logFile } := by
  unfold closeLog
  cases log : server.log with
  | none => exact congrArg (fun log => { server with log }) log
  | some _ => rfl

/-! ## The source -/

section Source

theorem source_modifyConnection (server : Server) (peer : Nat) (change : Connection → Connection) :
    (server.modifyConnection peer change).source = server.source := by
  unfold modifyConnection setConnection
  split <;> rfl

theorem source_closeAll (server : Server) (clients : List Nat) :
    (server.closeAll clients).source = server.source := by
  unfold closeAll
  induction clients generalizing server with
  | nil => rfl
  | cons peer clients ih =>
    rw [List.foldl_cons, ih, source_modifyConnection]

theorem source_appendLog (server : Server) (body : Json) (source : String) :
    (server.appendLog body source).source = server.source := by
  rw [appendLog_eq]

theorem source_broadcast (server : Server) (record : Json) :
    (server.broadcast record).source = server.source := by
  have sends : ∀ (clients : List Nat) (server : Server),
      (clients.foldl (sendTo (payload record)) server).source = server.source := by
    intro clients
    induction clients with
    | nil => exact fun _ => rfl
    | cons peer clients ih =>
      intro server
      rw [List.foldl_cons, ih]
      exact source_modifyConnection server peer _
  unfold broadcast
  split
  · rfl
  · rw [source_appendLog, sends]

theorem source_broadcastAll (server : Server) (records : List Json) :
    (server.broadcastAll records).source = server.source := by
  unfold broadcastAll
  induction records generalizing server with
  | nil => rfl
  | cons record records ih => rw [List.foldl_cons, ih, source_broadcast]

theorem source_setPhase (server : Server) (phase : ServerPhase) :
    (server.setPhase phase).source = server.source := by
  rw [setPhase_eq]

theorem source_shutdown (server : Server) : server.shutdown.source = server.source := by
  have dropped : ∀ server : Server, server.dropSession.source = server.source := by
    intro server
    unfold dropSession
    split
    · rfl
    · exact source_broadcastAll _ _
  have closed : ∀ server : Server, server.closeLog.source = server.source := fun server => by
    rw [closeLog_eq]
  unfold shutdown
  split
  · rfl
  · rw [source_setPhase]
    simp only [dropped, closed, dropClients, source_closeAll, source_setPhase]

theorem source_acceptOne (server : Server) (peer : Nat) :
    (server.acceptOne peer).source = server.source := by
  unfold acceptOne settle
  split
  · split
    · rfl
    · split <;> rfl
  · rfl

end Source

/-- No step makes a command source take the server's name. -/
theorem Foreign.perform {server : Server} (foreign : server.Foreign) (step : Step) :
    (server.perform step).Foreign := by
  have kept : ∀ {server' : Server}, server'.source = server.source → server'.Foreign := by
    intro server' same source found
    exact foreign source (same ▸ found)
  cases step with
  | connect input acceptance => exact kept rfl
  | transport peer input acceptance => exact kept rfl
  | accept peer =>
    change (if server.listening then server.acceptOne peer else server).Foreign
    split
    · exact kept (source_acceptOne server peer)
    · exact foreign
  | broadcast record => exact kept (source_broadcast server record)
  | receive peer => exact kept (source_modifyConnection server peer _)
  | reap => exact kept (source_closeAll _ _)
  | evict slot =>
    change (server.evict slot).Foreign
    unfold evict
    split
    · exact kept (source_modifyConnection _ _ _)
    · exact foreign
  | log body source other => exact kept (source_appendLog server body source)
  | shutdown => exact kept (source_shutdown server)
  | elsewhere other foreign' => exact foreign'

/-- The program opens no command source with the server's name. -/
theorem foreign_server (config : Config) (found : Launch.Surroundings) :
    (Launch.server config found).1.Foreign := by
  intro source given
  change (Launch.openSource config found).1 = some source at given
  unfold Launch.openSource at given
  split at given
  · cases given
  · cases given
    simp [Source.label, Interactive.new, Interactive.ownLabel, ownName]
  · split at given
    · cases given
      simp [Source.label, Script.label, ownName]
    · cases given

/-! ## Reaching -/

/-- The second server comes out of the first one by steps. -/
def Reaches (server server' : Server) : Prop := ∃ steps, server' = server.run steps

theorem Foreign.run {server : Server} (foreign : server.Foreign) (steps : List Step) :
    (server.run steps).Foreign := by
  induction steps generalizing server with
  | nil => exact foreign
  | cons step steps ih => exact ih (foreign.perform step)

theorem Foreign.reached {server server' : Server} (foreign : server.Foreign)
    (reaches : server.Reaches server') : server'.Foreign := by
  obtain ⟨steps, rfl⟩ := reaches
  exact foreign.run steps

namespace Reaches

theorem refl (server : Server) : server.Reaches server := ⟨[], rfl⟩

theorem trans {first second third : Server} (left : first.Reaches second)
    (right : second.Reaches third) : first.Reaches third := by
  obtain ⟨steps, rfl⟩ := left
  obtain ⟨steps', rfl⟩ := right
  exact ⟨steps ++ steps', (run_append first steps steps').symm⟩

theorem single (server : Server) (step : Step) : server.Reaches (server.perform step) := ⟨[step], rfl⟩

end Reaches

/-! ## Records and sessions -/

theorem reaches_broadcastAll (server : Server) (records : List Json) :
    server.Reaches (server.broadcastAll records) := by
  refine ⟨records.map .broadcast, ?_⟩
  unfold broadcastAll run
  rw [List.foldl_map]
  rfl

variable {server : Server} (foreign : server.Foreign)

include foreign

theorem reaches_setSession (session : Option Session) : server.Reaches { server with session } :=
  .single server (.elsewhere { server with session } foreign)

theorem reaches_sessionExpires : server.Reaches server.sessionExpires := reaches_setSession foreign _

theorem reaches_sessionPublishes : server.Reaches server.sessionPublishes := by
  unfold sessionPublishes
  split
  · exact .refl server
  split
  · exact reaches_setSession foreign _
  · exact (reaches_setSession foreign _).trans (.single _ (.broadcast _))
  · exact .refl server

theorem reaches_sessionFinishes : server.Reaches server.sessionFinishes := by
  unfold sessionFinishes
  split
  · exact .refl server
  · exact (reaches_setSession foreign _).trans (reaches_broadcastAll _ _)

/-! ## Commands -/

theorem reaches_startSession (seconds : UInt64) :
    server.Reaches (server.startSession seconds).2 := by
  unfold startSession takeSession
  split
  · exact .refl server
  cases server.session with
  | none => exact reaches_setSession foreign _
  | some previous =>
    dsimp only
    split <;> exact reaches_setSession foreign _

theorem reaches_stopSession : server.Reaches server.stopSession.2 := by
  unfold stopSession takeSession
  cases server.session with
  | none => exact reaches_setSession foreign none
  | some session => exact (reaches_setSession foreign none).trans (reaches_broadcastAll _ _)

theorem reaches_dispatch (command : Command) : server.Reaches (server.dispatch command).2 := by
  unfold dispatch
  split
  · exact .refl server
  cases command.action with
  | sessionStart seconds => exact reaches_startSession foreign seconds
  | sessionStop => exact reaches_stopSession foreign
  | _ =>
    dsimp only
    cases server.gates.apply command with
    | ok gates => exact .single server (.elsewhere { server with gates } foreign)
    | error refusal => exact .refl server

theorem reaches_handle (incoming : Incoming) {source : String} (other : source ≠ ownName) :
    server.Reaches (server.handle incoming source).2 := by
  cases incoming with
  | raw text =>
    have logged := Reaches.single server (.log (Json.ofMessage text) source other)
    unfold handle handleText
    simp only
    split
    · exact logged.trans (reaches_dispatch (foreign.reached logged) _)
    · exact logged
  | parsed command =>
    have logged := Reaches.single server (.log command.message.toJson source other)
    exact logged.trans (reaches_dispatch (foreign.reached logged) _)

/-! ## The loop -/

omit foreign in
theorem clientName_ne_ownName (slot : Nat) : clientName slot ≠ ownName := by
  intro same
  have first := congrArg (fun name => name.toList.head?) same
  simp [clientName, ownName] at first

omit foreign in
/-- A change of a client's connection that is made of its own. -/
theorem modifyConnection_of_some {peer : Nat} {connection : Connection}
    (found : server.connection? peer = some connection) (change : Connection → Connection) :
    server.modifyConnection peer change = server.setConnection peer (change connection) := by
  simp only [modifyConnection, found]

theorem reaches_serve (peer : Nat) : server.Reaches (server.serve peer) := by
  unfold serve
  split
  · exact .refl server
  next connection found =>
  have read : server.Reaches (server.setConnection peer connection.receive.2) := by
    rw [← modifyConnection_of_some found fun connection => connection.receive.2]
    exact .single server (.receive peer)
  simp only
  split
  · split
    · exact read
    · exact read.trans (reaches_handle (foreign.reached read) (.raw _)
        (clientName_ne_ownName connection.slot))
  · exact read.trans (.single _ (.evict connection.slot))

theorem reaches_pollSource (ready : Bool) : server.Reaches (server.pollSource ready) := by
  unfold pollSource
  split
  · exact .refl server
  next source found =>
  have own : source.label ≠ ownName := foreign source found
  have stillForeign : Foreign { server with source := some (source.poll ready).2 } := by
    rintro after same
    rw [← Option.some.inj same, Source.label_poll]
    exact own
  have polled : server.Reaches { server with source := some (source.poll ready).2 } :=
    .single server (.elsewhere { server with source := some (source.poll ready).2 } stillForeign)
  simp only
  split
  · exact polled
  · exact polled.trans (reaches_handle stillForeign _ own)

omit foreign in
theorem listening_acceptOne (server : Server) (peer : Nat) :
    (server.acceptOne peer).listening = server.listening := by
  unfold acceptOne settle
  split
  · split
    · rfl
    · split <;> rfl
  · rfl

omit foreign in
/-- Those who wait are accepted one after the other. -/
theorem exists_accepts (server : Server) :
    ∃ peers : List Nat, server.acceptAll = server.run (peers.map .accept) := by
  have turns : ∀ (peers : List Nat) (server : Server), server.listening = true →
      peers.foldl acceptOne server = server.run (peers.map .accept) := by
    intro peers
    induction peers with
    | nil => exact fun _ _ => rfl
    | cons peer peers ih =>
      intro server listening
      have accepted : server.perform (.accept peer) = server.acceptOne peer := if_pos listening
      rw [List.foldl_cons, ih _ ((listening_acceptOne server peer).trans listening), ← accepted]
      rfl
  unfold acceptAll
  split
  · next listening => exact ⟨_, turns _ server listening⟩
  · exact ⟨[], rfl⟩

omit foreign in
theorem reaches_acceptAll (server : Server) : server.Reaches server.acceptAll := by
  obtain ⟨peers, same⟩ := exists_accepts server
  exact ⟨peers.map .accept, same⟩

theorem reaches_setLoop (loop : LoopPoint) : server.Reaches { server with loop } :=
  .single server (.elsewhere { server with loop } foreign)

theorem reaches_setPhase (phase : ServerPhase) : server.Reaches (server.setPhase phase) := by
  rw [setPhase_eq]
  exact .single server (.elsewhere { server with phase := (server.setPhase phase).phase } foreign)

theorem reaches_leave : server.Reaches server.leave := by
  have ended := Reaches.single server .shutdown
  exact ended.trans (reaches_setLoop (foreign.reached ended) _)

/-- A step of the loop is made of steps. -/
theorem reaches_advance : server.Reaches server.advance := by
  unfold advance
  split
  · exact .refl server
  · exact .refl server
  · split
    · exact reaches_leave foreign
    · have reaped := Reaches.single server .reap
      have foreign' := foreign.reached reaped
      simp only
      split
      · exact reaped.trans (reaches_setLoop foreign' _)
      · exact reaped.trans (reaches_leave foreign')
  · have running := reaches_setPhase foreign .running
    exact running.trans (reaches_setLoop (foreign.reached running) _)
  · split
    · exact reaches_leave foreign
    · have dispatching := reaches_setPhase foreign .dispatching
      simp only
      split
      · have accepted := dispatching.trans (reaches_acceptAll _)
        exact accepted.trans (reaches_setLoop (foreign.reached accepted) _)
      · exact dispatching.trans (reaches_setLoop (foreign.reached dispatching) _)
  · next peer rest source atPoint =>
    have turned := reaches_setLoop foreign (.serving rest source)
    exact turned.trans (reaches_serve (foreign.reached turned) _)
  · have turned := reaches_setLoop foreign .top
    exact turned.trans (reaches_pollSource (foreign.reached turned) _)

theorem reaches_advanceToWait (count : Nat) : server.Reaches (advanceToWait count server) := by
  induction count generalizing server with
  | zero => exact .refl server
  | succ count ih =>
    have advanced := reaches_advance foreign
    unfold advanceToWait
    simp only
    split
    · exact advanced
    · exact advanced.trans (ih (foreign.reached advanced))

/-- The loop is made of steps over any number of waits. -/
theorem reaches_steps (count : Nat) : server.Reaches (steps count server) := by
  induction count generalizing server with
  | zero => exact .refl server
  | succ count ih =>
    have stepped : server.Reaches server.step := reaches_advanceToWait foreign _
    exact stepped.trans (ih (foreign.reached stepped))

end Server
end TelemetryHub
