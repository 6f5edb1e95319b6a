import TelemetryHub.Proofs.Server.Refusals

/-!
# Everything that is done to the server

`Operation` lists whatever may happen to a server between two moments: its peers, its producers, its
session, its operator and those who hold a handle on it are all heard here, the loop takes single steps
between them, and the shutdown may come at any point. Most operations leave the loop, the phase and
the clock to themselves (`Within`); what a step of the loop comes to is said once (`Advanced`). The
roster and the connections change by steps alone (`Evolves`), so what every step keeps is kept by every
operation.
-/

namespace TelemetryHub.Server

/-- What is done to a server at once. -/
inductive Operation where
  /-- A peer tries to connect; nothing has been written to it. -/
  | connect (input : Inbound) (acceptance : Acceptance)
  /-- Something arrives from a peer, or it takes more or less from now on. -/
  | transport (peer : Nat) (input : Inbound) (acceptance : Acceptance)
  /-- Something is typed, if there is an operator. -/
  | typed (input : Inbound)
  /-- Time goes on. -/
  | clock (now : String)
  /-- From now on the sampler, if there is one, answers like this, and the clock reads so much when it is
  told to stop. -/
  | sampler (answers : Sampler) (reading : Duration)
  | setEnabled (category : String) (enabled : Bool)
  | setRate (category : String) (rate : Int64)
  | samples (category : String) (count : Nat)
  | broadcast (record : Json)
  | handleText (text source : String)
  | handleCommand (command : Command) (source : String)
  | dispatch (command : Command)
  /-- The loop is started, if it has not been. -/
  | start
  /-- The loop takes a step. -/
  | advance
  | sessionExpires
  | sessionPublishes
  | sessionFinishes
  | shutdown

/-- The sessions that start from now on have these answers of the sampler and this reading of the clock.
Whether there is a sampler, and how long it may take to stop, is settled once for all. -/
def setSampler (server : Server) (answers : Sampler) (reading : Duration) : Server :=
  { server with
    sampler := server.sampler.map fun _ => answers
    deadline := { server.deadline with reading } }

/-- Start the loop, if it has not been started. -/
def enterLoop (server : Server) : Server :=
  match server.loop with
  | .idle => { server with loop := .top }
  | _ => server

def operate (server : Server) : Operation → Server
  | .connect input acceptance => server.connect ⟨input, [], acceptance⟩
  | .transport peer input acceptance =>
    server.modifySocket peer fun socket => ⟨input, { socket.output with acceptance }⟩
  | .typed input => server.typed fun _ => input
  | .clock now => { server with now }
  | .sampler answers reading => server.setSampler answers reading
  | .setEnabled category enabled => (server.setEnabled category enabled).2
  | .setRate category rate => (server.setRate category rate).2
  | .samples category count => (server.samples category count).2
  | .broadcast record => server.broadcast record
  | .handleText text source => (server.handleText text source).2
  | .handleCommand command source => (server.handleCommand command source).2
  | .dispatch command => (server.dispatch command).2
  | .start => server.enterLoop
  | .advance => server.advance
  | .sessionExpires => server.sessionExpires
  | .sessionPublishes => server.sessionPublishes
  | .sessionFinishes => server.sessionFinishes
  | .shutdown => server.shutdown

/-- What operations make of the server, one after the other. -/
def operateAll (server : Server) (operations : List Operation) : Server := operations.foldl operate server

theorem operateAll_append (server : Server) (first second : List Operation) :
    server.operateAll (first ++ second) = (server.operateAll first).operateAll second :=
  List.foldl_append

/-! ## The loop from wait to wait -/

theorem exists_advanceToWait (count : Nat) (server : Server) :
    ∃ turns, advanceToWait count server = server.operateAll (List.replicate turns .advance) := by
  induction count generalizing server with
  | zero => exact ⟨0, rfl⟩
  | succ count ih =>
    unfold advanceToWait
    dsimp only
    split
    · exact ⟨1, rfl⟩
    · obtain ⟨turns, same⟩ := ih server.advance
      exact ⟨turns + 1, same⟩

/-- Running the loop over any number of waits is a number of steps. -/
theorem exists_steps (count : Nat) (server : Server) :
    ∃ turns, steps count server = server.operateAll (List.replicate turns .advance) := by
  induction count generalizing server with
  | zero => exact ⟨0, rfl⟩
  | succ count ih =>
    obtain ⟨first, reached⟩ := exists_advanceToWait server.stepsLeft server
    obtain ⟨others, same⟩ := ih server.step
    refine ⟨first + others, ?_⟩
    rw [← List.replicate_append_replicate, operateAll_append, ← reached]
    exact same

/-- Starting the loop is its start and a number of steps. -/
theorem exists_startLoop (server : Server) : ∃ operations, server.startLoop = server.operateAll operations := by
  unfold startLoop
  split
  · next idle =>
    obtain ⟨turns, same⟩ := exists_advanceToWait 1 { server with loop := .top }
    refine ⟨.start :: List.replicate turns .advance, ?_⟩
    have started : server.enterLoop = { server with loop := .top } := by simp only [enterLoop, idle]
    rw [same, ← started]
    rfl
  · exact ⟨[], rfl⟩

/-! ## The roster and the connections -/

/-- The roster and the connections of the second server come out of those of the first one by steps. -/
inductive Evolves : Server → Server → Prop where
  | beside {server server' : Server} (peers : server'.peers = server.peers)
    (roster : server'.roster = server.roster) (listening : server'.listening = server.listening)
    (terminating : server'.terminating = server.terminating) : Evolves server server'
  | step (server : Server) (step : Step) : Evolves server (server.perform step)
  | trans {first second third : Server} (left : Evolves first second) (right : Evolves second third) :
    Evolves first third

theorem Evolves.refl (server : Server) : server.Evolves server := .beside rfl rfl rfl rfl

theorem Coherent.evolve {server server' : Server} (coherent : server.Coherent)
    (evolves : server.Evolves server') : server'.Coherent := by
  induction evolves with
  | beside peers roster listening terminating =>
    exact coherent.congr peers roster listening terminating
  | step server step => exact coherent.perform step
  | trans _ _ first second => exact second (first coherent)

/-! ## Operations beside the loop -/

/-- The second server has the loop, the phase and the clock of the first one, the answer of the log's
device is the same, and its roster and connections are those of the first one behind some steps. -/
structure Within (server server' : Server) : Prop where
  evolves : server.Evolves server'
  loop : server'.loop = server.loop
  phase : server'.phase = server.phase
  terminating : server'.terminating = server.terminating
  listening : server'.listening = server.listening
  now : server'.now = server.now
  logRefusal : server'.logRefusal = server.logRefusal

namespace Within

theorem refl (server : Server) : server.Within server := ⟨.refl server, rfl, rfl, rfl, rfl, rfl, rfl⟩

theorem trans {first second third : Server} (left : first.Within second) (right : second.Within third) :
    first.Within third where
  evolves := left.evolves.trans right.evolves
  loop := right.loop.trans left.loop
  phase := right.phase.trans left.phase
  terminating := right.terminating.trans left.terminating
  listening := right.listening.trans left.listening
  now := right.now.trans left.now
  logRefusal := right.logRefusal.trans left.logRefusal

end Within

section Parts

variable (server : Server)

theorem within_setGates (gates : Registry) : server.Within { server with gates } :=
  ⟨.beside rfl rfl rfl rfl, rfl, rfl, rfl, rfl, rfl, rfl⟩

theorem within_setSession (session : Option Session) : server.Within { server with session } :=
  ⟨.beside rfl rfl rfl rfl, rfl, rfl, rfl, rfl, rfl, rfl⟩

theorem within_setSource (source : Option Source) : server.Within { server with source } :=
  ⟨.beside rfl rfl rfl rfl, rfl, rfl, rfl, rfl, rfl, rfl⟩

theorem within_appendLog (body : Json) (source : String) :
    server.Within (server.appendLog body source) := by
  rw [appendLog_eq]
  exact ⟨.beside rfl rfl rfl rfl, rfl, rfl, rfl, rfl, rfl, rfl⟩

theorem within_broadcast (record : Json) : server.Within (server.broadcast record) := by
  have evolves : server.Evolves (server.broadcast record) := .step server (.broadcast record)
  cases running : server.terminating with
  | true =>
    rw [broadcast_of_terminating running]
    exact .refl server
  | false =>
    rw [broadcast_of_running running] at evolves ⊢
    have logged := within_appendLog (server.updateAll server.connected
      (fun c => (c.send (payload record)).2)) record ownName
    exact ⟨evolves, logged.loop, logged.phase, logged.terminating, logged.listening, logged.now,
      logged.logRefusal⟩

theorem within_broadcastAll (records : List Json) : server.Within (server.broadcastAll records) := by
  unfold broadcastAll
  induction records generalizing server with
  | nil => exact .refl server
  | cons record records ih => exact (within_broadcast server record).trans (ih _)

theorem within_dispatch (command : Command) : server.Within (server.dispatch command).2 := by
  have answer := dispatched server command
  generalize server.dispatch command = attempt at answer ⊢
  cases answer with
  | late | refused | noSampler | busy | noSession => exact .refl server
  | obeyed => exact within_setGates server _
  | started => exact within_setSession server _
  | stopped => exact (within_setSession server none).trans (within_broadcastAll _ _)

theorem within_handle (incoming : Incoming) (source : String) :
    server.Within (server.handle incoming source).2 := by
  cases incoming with
  | parsed command => exact (within_appendLog server _ source).trans (within_dispatch _ command)
  | raw text =>
    have logged := within_appendLog server (Json.ofMessage text) source
    unfold handle handleText
    dsimp only
    split
    · exact logged.trans (within_dispatch _ _)
    · exact logged

theorem within_reap : server.Within server.reap := by
  have evolves : server.Evolves server.reap := .step server .reap
  rw [reap_eq] at evolves ⊢
  exact ⟨evolves, rfl, rfl, rfl, rfl, rfl, rfl⟩

theorem within_evict (slot : Nat) : server.Within (server.evict slot) := by
  have evolves : server.Evolves (server.evict slot) := .step server (.evict slot)
  rcases evict_cases server slot with same | ⟨peer, roster, removed, same⟩ <;> rw [same] at evolves ⊢ <;>
    exact ⟨evolves, rfl, rfl, rfl, rfl, rfl, rfl⟩

theorem within_acceptAll : server.Within server.acceptAll := by
  have turns : ∀ (peers : List Nat) (server : Server), server.listening = true →
      server.Within (peers.foldl acceptOne server) := by
    intro peers
    induction peers with
    | nil => exact fun server _ => .refl server
    | cons peer peers ih =>
      intro server listening
      have accepted : server.Within (server.acceptOne peer) := by
        have evolves := Evolves.step server (.accept peer)
        rw [show server.perform (.accept peer) = server.acceptOne peer from if_pos listening] at evolves
        rcases acceptOne_cases server peer with same | ⟨socket, waits, same⟩ |
          ⟨socket, slot, roster, waits, inserted, same⟩ <;> rw [same] at evolves ⊢ <;>
          exact ⟨evolves, rfl, rfl, rfl, rfl, rfl, rfl⟩
      exact accepted.trans (ih _ (accepted.listening.trans listening))
  unfold acceptAll
  split
  · next listening => exact turns _ server listening
  · exact .refl server

theorem within_receive {peer : Nat} {connection : Connection}
    (found : server.connection? peer = some connection) :
    server.Within (server.setConnection peer connection.receive.2) := by
  have evolves := Evolves.step server (.receive peer)
  rw [show server.perform (.receive peer) = _ from
    modifyConnection_of_some found fun connection => connection.receive.2] at evolves
  exact ⟨evolves, rfl, rfl, rfl, rfl, rfl, rfl⟩

theorem within_serve (peer : Nat) : server.Within (server.serve peer) := by
  unfold serve
  split
  · exact .refl server
  next connection found =>
  have read := within_receive server found
  dsimp only
  split
  · split
    · exact read
    · exact read.trans (within_handle _ (.raw _) _)
  · exact read.trans (within_evict _ _)

theorem within_pollSource (ready : Bool) : server.Within (server.pollSource ready) := by
  unfold pollSource
  split
  · exact .refl server
  next source found =>
  have polled := within_setSource server (some (source.poll ready).2)
  dsimp only
  split
  · exact polled
  · exact polled.trans (within_handle _ _ _)

theorem within_sessionPublishes : server.Within server.sessionPublishes := by
  unfold sessionPublishes
  split
  · exact .refl server
  split
  · exact within_setSession server _
  · exact (within_setSession server _).trans (within_broadcast _ _)
  · exact .refl server

theorem within_sessionFinishes : server.Within server.sessionFinishes := by
  unfold sessionFinishes
  split
  · exact .refl server
  · exact (within_setSession server _).trans (within_broadcastAll _ _)

end Parts

/-- The operations that move the loop or the clock, or shut the server down. -/
def Operation.moves : Operation → Bool
  | .clock _ | .start | .advance | .shutdown => true
  | _ => false

/-- All other operations leave the loop, the phase and the clock. -/
theorem within_operate (server : Server) {operation : Operation} (still : operation.moves = false) :
    server.Within (server.operate operation) := by
  cases operation with
  | connect input acceptance =>
    exact ⟨.step server (.connect input acceptance), rfl, rfl, rfl, rfl, rfl, rfl⟩
  | transport peer input acceptance =>
    exact ⟨.step server (.transport peer input acceptance), rfl, rfl, rfl, rfl, rfl, rfl⟩
  | typed input =>
    change server.Within (server.typed fun _ => input)
    unfold Server.typed
    split
    · exact within_setSource server _
    · exact .refl server
  | sampler answers reading => exact ⟨.beside rfl rfl rfl rfl, rfl, rfl, rfl, rfl, rfl, rfl⟩
  | setEnabled category enabled => exact within_setGates server _
  | setRate category rate => exact within_setGates server _
  | samples category count => exact within_setGates server _
  | broadcast record => exact within_broadcast server record
  | handleText text source => exact within_handle server (.raw text) source
  | handleCommand command source => exact within_handle server (.parsed command) source
  | dispatch command => exact within_dispatch server command
  | sessionExpires => exact within_setSession server _
  | sessionPublishes => exact within_sessionPublishes server
  | sessionFinishes => exact within_sessionFinishes server
  | clock | start | advance | shutdown => cases still

/-! ## Steps of the loop -/

/-- All that a step of the loop can come to, by where the loop is. -/
inductive Advanced (server : Server) : LoopPoint → Server → Prop where
  | idle : Advanced server .idle server
  | ended : Advanced server .ended server
  /-- The shutdown has begun, so the loop ends. -/
  | late (ending : server.terminating = true) : Advanced server .top { server with loop := .ended }
  /-- Nobody can connect any more, so the server is shut down. -/
  | deaf (running : server.terminating = false) (deaf : server.listening = false) :
    Advanced server .top server.reap.leave
  | begins (running : server.terminating = false) (listening : server.listening = true) :
    Advanced server .top { server.reap with loop := .held server.reap.connected }
  | wakes {polled ready : List Nat} (fewer : ready.Sublist polled) (listener source : Bool) :
    Advanced server (.held polled)
      { server.setPhase .running with loop := .woken ready listener source }
  /-- The shutdown has begun during the wait, so the loop ends. -/
  | cut {ready : List Nat} {listener source : Bool} (ending : server.terminating = true) :
    Advanced server (.woken ready listener source) { server with loop := .ended }
  | turns {ready : List Nat} {listener source : Bool} {accepting : Server}
    (running : server.terminating = false)
    (accepts : (server.setPhase .dispatching).Within accepting) (sameLog : server.SameLog accepting)
    (silent : server.Coherent → server.Sends accepting []) :
    Advanced server (.woken ready listener source) { accepting with loop := .serving ready source }
  | serves {peer : Nat} {ready : List Nat} {source : Bool} :
    Advanced server (.serving (peer :: ready) source)
      ({ server with loop := .serving ready source }.serve peer)
  | polls {source : Bool} :
    Advanced server (.serving [] source) ({ server with loop := .top }.pollSource source)

theorem leave_of_terminating {server : Server} (terminating : server.terminating = true) :
    server.leave = { server with loop := .ended } := by
  unfold leave
  rw [shutdown_of_terminating terminating]

theorem SameLog.trans {first second third : Server} (left : first.SameLog second)
    (right : second.SameLog third) : first.SameLog third :=
  ⟨right.log.trans left.log, right.logFile.trans left.logFile, right.logRefusal.trans left.logRefusal,
    right.terminating.trans left.terminating⟩

theorem sameLog_setPhase (server : Server) (phase : ServerPhase) :
    server.SameLog (server.setPhase phase) := by
  rw [setPhase_eq]
  exact ⟨rfl, rfl, rfl, rfl⟩

theorem sameLog_acceptAll (server : Server) : server.SameLog server.acceptAll := by
  rw [acceptAll_eq]
  exact ⟨rfl, rfl, rfl, rfl⟩

theorem evolves_setPhase (server : Server) (phase : ServerPhase) :
    server.Evolves (server.setPhase phase) := by
  rw [setPhase_eq]
  exact .beside rfl rfl rfl rfl

theorem sends_setPhase (server : Server) (phase : ServerPhase) : server.Sends (server.setPhase phase) [] := by
  refine .of_same_peers ?_
  rw [setPhase_eq]

/-- Nothing is written to anybody when others are accepted. -/
theorem Coherent.sends_acceptAll {server : Server} (coherent : server.Coherent) :
    server.Sends server.acceptAll [] := by
  obtain ⟨peers, same⟩ := exists_accepts server
  have sends := coherent.sends_run (peers.map .accept)
  have nothing : (peers.map Step.accept).flatMap Step.line = [] := by
    rw [List.flatMap_map]
    exact List.flatMap_eq_nil_iff.mpr fun _ _ => rfl
  rwa [nothing, ← same] at sends

theorem advanced (server : Server) : Advanced server server.loop server.advance := by
  unfold advance
  cases server.loop with
  | idle => exact .idle
  | ended => exact .ended
  | top =>
    dsimp only
    split
    · next ending =>
      rw [leave_of_terminating ending]
      exact .late ending
    · next goesOn =>
      have running : server.terminating = false := Bool.eq_false_iff.mpr goesOn
      have same := (within_reap server).listening
      split
      · next listening => exact .begins running (same.symm.trans listening)
      · next deaf => exact .deaf running (same.symm.trans (Bool.eq_false_iff.mpr deaf))
  | held polled => exact .wakes List.filter_sublist _ _
  | woken ready listener source =>
    dsimp only
    split
    · next ending =>
      rw [leave_of_terminating ending]
      exact .cut ending
    · next goesOn =>
      have running : server.terminating = false := Bool.eq_false_iff.mpr goesOn
      have dispatching := sameLog_setPhase server .dispatching
      have silent := sends_setPhase server .dispatching
      split
      · refine .turns running (within_acceptAll _) (dispatching.trans (sameLog_acceptAll _)) fun coherent => ?_
        exact silent.trans (coherent.evolve (evolves_setPhase server .dispatching)).sends_acceptAll
      · exact .turns running (.refl _) dispatching fun _ => silent
  | serving ready source =>
    cases ready with
    | nil => exact .polls
    | cons peer ready => exact .serves

/-! ## What every operation keeps -/

theorem evolves_setLoop (server : Server) (loop : LoopPoint) : server.Evolves { server with loop } :=
  .beside rfl rfl rfl rfl

theorem evolves_advance (server : Server) : server.Evolves server.advance := by
  have step := server.advanced
  generalize server.loop = point at step
  generalize server.advance = server' at step ⊢
  cases step with
  | idle | ended => exact .refl server
  | late | cut => exact evolves_setLoop server _
  | deaf =>
    have ended := (within_reap server).evolves.trans (.step server.reap .shutdown)
    exact ended.trans (evolves_setLoop _ _)
  | begins => exact (within_reap server).evolves.trans (evolves_setLoop _ _)
  | wakes => exact (evolves_setPhase server _).trans (evolves_setLoop _ _)
  | turns _ accepts =>
    exact ((evolves_setPhase server _).trans accepts.evolves).trans (evolves_setLoop _ _)
  | serves => exact (evolves_setLoop server _).trans (within_serve _ _).evolves
  | polls => exact (evolves_setLoop server _).trans (within_pollSource _ _).evolves

theorem evolves_operate (server : Server) (operation : Operation) :
    server.Evolves (server.operate operation) := by
  cases moves : operation.moves with
  | false => exact (within_operate server moves).evolves
  | true =>
    cases operation with
    | clock now => exact .beside rfl rfl rfl rfl
    | start =>
      change server.Evolves server.enterLoop
      unfold enterLoop
      split
      · exact evolves_setLoop server _
      · exact .refl server
    | advance => exact evolves_advance server
    | shutdown => exact .step server .shutdown
    | _ => cases moves

theorem Coherent.operate {server : Server} (coherent : server.Coherent) (operation : Operation) :
    (server.operate operation).Coherent := coherent.evolve (evolves_operate server operation)

end TelemetryHub.Server
