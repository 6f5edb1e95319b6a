import Mathlib.Data.List.Chain
import TelemetryHub.Proofs.Server.Operations

/-!
# Behind the shutdown

The phases of a server go one way but for the turns of its loop (`ServerPhase.Next`), because the phase
keeps pace with the loop until the shutdown begins (`Paced`). A server that has been shut down is
`Ended`, and stays so: whatever is done to it, only what peers, the operator and producers do by
themselves is different afterwards (`Lingers`), and nothing is sent, logged or obeyed any more
(`shutdown_absorbs`).
-/

namespace TelemetryHub

/-! ## Phases -/

namespace ServerPhase

/-- Which phase may follow: the loop alternates between two, the shutdown may come in any of the earlier
ones, and nothing leads back from it. -/
inductive Next : ServerPhase → ServerPhase → Prop where
  | stays (phase : ServerPhase) : Next phase phase
  | listens : Next .created .listening
  | runs : Next .listening .running
  | dispatches : Next .running .dispatching
  | runsAgain : Next .dispatching .running
  | ends {phase : ServerPhase} (earlier : phase.isFinal = false) : Next phase .shuttingDown
  | closes : Next .shuttingDown .closed

/-- Behind a phase of the end there are only such phases. -/
theorem isFinal_of_isChain {phase : ServerPhase} (final : phase.isFinal = true)
    {later : List ServerPhase} (chain : List.IsChain Next (phase :: later)) :
    ∀ other ∈ later, other.isFinal = true := by
  induction later generalizing phase with
  | nil => exact nofun
  | cons next later ih =>
    obtain ⟨follows, chain⟩ := List.isChain_cons_cons.mp chain
    have final' : next.isFinal = true := by
      cases follows with
      | stays => exact final
      | ends | closes => rfl
      | listens | runs | dispatches | runsAgain => cases final
    intro other isIn
    rcases List.mem_cons.mp isIn with rfl | isIn
    · exact final'
    · exact ih final' chain other isIn

end ServerPhase

/-- A chain goes on behind the last of its members. -/
theorem isChain_append_of_getLast {α : Type} {R : α → α → Prop} {a b : α} {first second : List α}
    (last : (a :: first).getLast? = some b) (left : List.IsChain R (a :: first))
    (right : List.IsChain R (b :: second)) : List.IsChain R (a :: (first ++ second)) := by
  rw [← List.cons_append, List.isChain_append]
  refine ⟨left, right.tail, fun x isLast y isFirst => ?_⟩
  cases last.symm.trans isLast
  exact (List.isChain_cons.mp right).1 y isFirst

namespace Server

open ServerPhase (Next)

/-! ## The stages of the shutdown -/

/-- The server when its shutdown has begun. -/
def begun (server : Server) : Server := { server with terminating := true }.setPhase .shuttingDown

/-- The servers that the shutdown goes through: it begins, the clients are released, the log is closed,
the session is wound down, and nobody can connect any more. -/
def stages (server : Server) : List Server :=
  let begun := server.begun
  let released := begun.dropClients
  let logged := released.closeLog
  [begun, released, logged, logged.dropSession, server.shutdown]

/-- The servers that an operation goes through. -/
def through (server : Server) : Operation → List Server
  | .shutdown => if server.terminating then [server] else server.stages
  | operation => [server.operate operation]

/-- The servers that operations go through, one after the other. -/
def history (server : Server) : List Operation → List Server
  | [] => []
  | operation :: operations =>
    server.through operation ++ (server.operate operation).history operations

theorem through_eq (server : Server) {operation : Operation} (goesOn : operation ≠ .shutdown) :
    server.through operation = [server.operate operation] := by
  cases operation with
  | shutdown => exact absurd rfl goesOn
  | _ => rfl

theorem getLast?_through (server : Server) (operation : Operation) :
    (server.through operation).getLast? = some (server.operate operation) := by
  by_cases ends : operation = .shutdown
  · rw [ends]
    change (if server.terminating then [server] else server.stages).getLast? = some server.shutdown
    split
    · next ended =>
      rw [shutdown_of_terminating ended]
      rfl
    · rfl
  · rw [through_eq server ends]
    rfl

/-- Through the stages of the shutdown the phase is that of a server that shuts down, and then that of
a closed one. -/
theorem phases_stages {server : Server} (running : server.terminating = false) :
    server.stages.map phase =
      [.shuttingDown, .shuttingDown, .shuttingDown, .shuttingDown, .closed] := by
  have begins : server.begun.phase = .shuttingDown := rfl
  have released : server.begun.dropClients.phase = .shuttingDown := by
    unfold dropClients
    simp only [closeAll_eq]
    rfl
  have logged : ∀ server : Server, server.closeLog.phase = server.phase := fun server => by
    rw [closeLog_eq]
  have wound : ∀ server : Server, server.dropSession.phase = server.phase := by
    intro server
    unfold dropSession
    split
    · rfl
    · exact (within_broadcastAll _ _).phase
  have closed : server.shutdown.phase = .closed := by rw [shutdown_of_running running]
  unfold stages
  simp only [List.map_cons, List.map_nil, begins, wound, logged, released, closed]

/-! ## Loop and phase -/

/-- The phase of a server that runs, by where its loop is. -/
inductive InPace : LoopPoint → ServerPhase → Prop where
  | idle : InPace .idle .listening
  | first : InPace .top .listening
  | again : InPace .top .dispatching
  | firstWait {polled : List Nat} : InPace (.held polled) .listening
  | wait {polled : List Nat} : InPace (.held polled) .dispatching
  | woken {ready : List Nat} {listener source : Bool} : InPace (.woken ready listener source) .running
  | serving {ready : List Nat} {source : Bool} : InPace (.serving ready source) .dispatching

theorem InPace.earlier {point : LoopPoint} {phase : ServerPhase} (pace : InPace point phase) :
    phase.isFinal = false := by
  cases pace <;> rfl

/-- The phase keeps pace with the loop until the server is closed, and peers can connect so long. -/
structure Paced (server : Server) : Prop where
  listening : server.listening = !server.terminating
  running : server.terminating = false → InPace server.loop server.phase
  ended : server.terminating = true → server.phase = .closed

theorem Paced.within {server server' : Server} (paced : server.Paced) (within : server.Within server') :
    server'.Paced := by
  obtain ⟨listening, running, ended⟩ := paced
  constructor <;> rw [within.terminating] <;> simp only [within.listening, within.phase, within.loop] <;>
    assumption

theorem setPhase_of_terminating {server : Server} (terminating : server.terminating = true)
    {phase : ServerPhase} (early : phase.isFinal = false) : server.setPhase phase = server := by
  unfold setPhase
  rw [terminating, early]
  rfl

theorem setPhase_of_running {server : Server} (running : server.terminating = false)
    (phase : ServerPhase) : server.setPhase phase = { server with phase } := by
  unfold setPhase
  rw [running]
  rfl

/-- A step of the loop takes the phase no further than it may go. -/
theorem Paced.advance {server : Server} (paced : server.Paced) :
    server.advance.Paced ∧ Next server.phase server.advance.phase := by
  have step := server.advanced
  have pace := paced.running
  -- the loop moves, and the phase keeps pace with it
  have moved : ∀ {server' : Server}, server'.listening = server.listening →
      server'.terminating = server.terminating → server'.phase = server.phase →
      (server.terminating = false → InPace server'.loop server.phase) →
        server'.Paced ∧ Next server.phase server'.phase := by
    intro server' listening terminating phase inPace
    refine ⟨⟨?_, ?_, ?_⟩, ?_⟩
    · rw [listening, terminating, paced.listening]
    · rw [terminating, phase]
      exact inPace
    · rw [terminating, phase]
      exact paced.ended
    · rw [phase]
      exact .stays _
  generalize server.loop = point at step pace
  generalize server.advance = server' at step ⊢
  cases step with
  | idle | ended => exact ⟨paced, .stays _⟩
  | late ending | cut ending =>
    exact moved rfl rfl rfl fun running => nomatch ending.symm.trans running
  | deaf running deaf =>
    rw [paced.listening, running] at deaf
    cases deaf
  | begins running =>
    have same := within_reap server
    refine moved same.listening same.terminating same.phase fun running => ?_
    have inPace := pace running
    generalize server.phase = phase at inPace ⊢
    cases inPace with
    | first => exact .firstWait
    | again => exact .wait
  | wakes =>
    cases running : server.terminating with
    | true =>
      rw [setPhase_of_terminating running rfl]
      exact moved rfl rfl rfl fun running' => nomatch running.symm.trans running'
    | false =>
      have inPace := pace running
      rw [setPhase_of_running running]
      refine ⟨⟨paced.listening, fun _ => .woken, fun ending => nomatch running.symm.trans ending⟩, ?_⟩
      generalize server.phase = phase at inPace ⊢
      cases inPace with
      | firstWait => exact .runs
      | wait => exact .runsAgain
  | turns running accepts =>
    have inPace := pace running
    rw [setPhase_of_running running] at accepts
    have phase := accepts.phase
    refine ⟨⟨?_, fun _ => ?_, fun ending => ?_⟩, ?_⟩
    · exact (accepts.listening.trans paced.listening).trans (congrArg _ accepts.terminating.symm)
    · rw [phase]
      exact .serving
    · exact nomatch (accepts.terminating.trans running).symm.trans ending
    · rw [phase]
      generalize server.phase = phase at inPace ⊢
      cases inPace with
      | woken => exact .dispatches
  | @serves peer ready source =>
    have same := within_serve { server with loop := .serving ready source } peer
    refine moved same.listening same.terminating same.phase fun running => ?_
    have inPace := pace running
    rw [same.loop]
    generalize server.phase = phase at inPace ⊢
    cases inPace with
    | serving => exact .serving
  | @polls source =>
    have same := within_pollSource { server with loop := .top } source
    refine moved same.listening same.terminating same.phase fun running => ?_
    have inPace := pace running
    rw [same.loop]
    generalize server.phase = phase at inPace ⊢
    cases inPace with
    | serving => exact .again

theorem Paced.shutdown {server : Server} (paced : server.Paced) : server.shutdown.Paced := by
  cases running : server.terminating with
  | true =>
    rw [shutdown_of_terminating running]
    exact paced
  | false =>
    rw [shutdown_of_running running]
    exact ⟨rfl, nofun, fun _ => rfl⟩

/-- **Step**: an operation keeps phase and loop in pace, and takes the phase only where it may go. -/
theorem Paced.operate {server : Server} (paced : server.Paced) (operation : Operation) :
    (server.operate operation).Paced ∧
      List.IsChain Next (server.phase :: (server.through operation).map phase) := by
  have single : ∀ {server' : Server}, Next server.phase server'.phase →
      List.IsChain Next (server.phase :: [server'].map phase) := fun next =>
    .cons_cons next (.singleton _)
  cases moves : operation.moves with
  | false =>
    have within := within_operate server moves
    have goesOn : operation ≠ .shutdown := by
      rintro rfl
      cases moves
    rw [through_eq server goesOn]
    exact ⟨paced.within within, single (within.phase ▸ .stays _)⟩
  | true =>
    cases operation with
    | clock now => exact ⟨⟨paced.listening, paced.running, paced.ended⟩, single (.stays _)⟩
    | start =>
      have started : server.enterLoop.Paced ∧ server.enterLoop.phase = server.phase := by
        unfold enterLoop
        cases atPoint : server.loop with
        | idle =>
          refine ⟨⟨paced.listening, fun running => ?_, paced.ended⟩, rfl⟩
          have inPace := paced.running running
          change InPace .top server.phase
          rw [atPoint] at inPace
          generalize server.phase = phase at inPace ⊢
          cases inPace with
          | idle => exact .first
        | _ => exact ⟨paced, rfl⟩
      exact ⟨started.1, single (started.2 ▸ .stays _)⟩
    | advance => exact ⟨paced.advance.1, single paced.advance.2⟩
    | shutdown =>
      refine ⟨paced.shutdown, ?_⟩
      change List.IsChain Next
        (server.phase :: (if server.terminating then [server] else server.stages).map phase)
      cases running : server.terminating with
      | true => exact single (.stays _)
      | false =>
        rw [if_neg Bool.false_ne_true, phases_stages running]
        refine .cons_cons (.ends (paced.running running).earlier) ?_
        exact .cons_cons (.stays _) (.cons_cons (.stays _) (.cons_cons (.stays _)
          (.cons_cons .closes (.singleton _))))
    | _ => cases moves

/-- **Run**: the phases that operations go through follow each other. -/
theorem Paced.isChain_history {server : Server} (paced : server.Paced) (operations : List Operation) :
    List.IsChain Next (server.phase :: (server.history operations).map phase) := by
  induction operations generalizing server with
  | nil => exact .singleton _
  | cons operation operations ih =>
    obtain ⟨paced', first⟩ := paced.operate operation
    unfold history
    rw [List.map_append]
    refine isChain_append_of_getLast ?_ first (ih paced')
    have last := getLast?_through server operation
    rw [List.getLast?_cons, List.getLast?_map, last]
    rfl

theorem paced_new (capacity : Nat) (log : Option Log) (source : Option Source)
    (sampler : Option Sampler) (deadline : Deadline) (now : String) :
    (new capacity log source sampler deadline now).Paced :=
  ⟨rfl, fun _ => .idle, nofun⟩

/-! ## A server that has ended -/

/-- The server is closed: nobody is connected or can connect, and there is neither a log nor a
session. -/
structure Ended (server : Server) : Prop where
  terminating : server.terminating = true
  listening : server.listening = false
  clients : server.roster.clients = []
  gone : ∀ peer, server.isConnected peer = false
  log : server.log = none
  session : server.session = none
  phase : server.phase = .closed

theorem ended_shutdown {server : Server} (coherent : server.Coherent)
    (running : server.terminating = false) : server.shutdown.Ended := by
  have after := coherent.shutdown
  have shut := shutdown_of_running running
  have terminating : server.shutdown.terminating = true := by rw [shut]
  obtain ⟨listening, clients⟩ := after.ended terminating
  refine ⟨terminating, listening, clients, fun peer => ?_, by rw [shut], by rw [shut], by rw [shut]⟩
  rw [Bool.eq_false_iff]
  intro connected
  have isIn := after.listed peer connected
  rw [clients] at isIn
  cases isIn

/-- What has been written to a peer. -/
def sentTo (server : Server) (peer : Nat) : List UInt8 :=
  server.peers[peer]?.elim [] fun other => other.socket.output.sent

/-- Nothing is different but what peers and the operator have done, what the sampler would do, the place of
the loop, the time and the gates; nothing has been written to a peer, and nobody has come back. -/
structure Lingers (server server' : Server) : Prop where
  rest : server' = { server with
    peers := server'.peers, source := server'.source, sampler := server'.sampler
    deadline := server'.deadline, loop := server'.loop, now := server'.now, gates := server'.gates }
  sent : ∀ peer, server'.sentTo peer = server.sentTo peer
  back : ∀ peer, server'.isConnected peer = true → server.isConnected peer = true

namespace Lingers

theorem refl (server : Server) : server.Lingers server := ⟨rfl, fun _ => rfl, fun _ => id⟩

theorem trans {first second third : Server} (left : first.Lingers second)
    (right : second.Lingers third) : first.Lingers third where
  rest := by rw [right.rest, left.rest]
  sent peer := (right.sent peer).trans (left.sent peer)
  back peer connected := left.back peer (right.back peer connected)

theorem of_same_peers {server server' : Server} (peers : server'.peers = server.peers)
    (rest : server' = { server with
      peers := server'.peers, source := server'.source, sampler := server'.sampler
      deadline := server'.deadline, loop := server'.loop, now := server'.now, gates := server'.gates }) :
    server.Lingers server' where
  rest := rest
  sent peer := by unfold sentTo; rw [peers]
  back peer connected := by unfold isConnected at connected ⊢; rwa [peers] at connected

theorem sameLog {server server' : Server} (lingers : server.Lingers server') :
    server.SameLog server' := by
  constructor <;>
  · rw [lingers.rest]

end Lingers

theorem lingers_of_eq {server server' : Server} (same : server' = server) :
    server.Lingers server' ∧ server'.gates = server.gates := by
  rw [same]
  exact ⟨.refl server, rfl⟩

theorem Ended.lingers {server server' : Server} (ended : server.Ended)
    (lingers : server.Lingers server') : server'.Ended := by
  obtain ⟨terminating, listening, clients, gone, log, session, phase⟩ := ended
  have nobody : ∀ peer, server'.isConnected peer = false := fun peer =>
    Bool.eq_false_iff.mpr fun connected =>
      Bool.false_ne_true ((gone peer).symm.trans (lingers.back peer connected))
  rw [lingers.rest] at nobody ⊢
  exact ⟨terminating, listening, clients, nobody, log, session, phase⟩

/-! ## Operations that come too late -/

section Late

variable {server : Server} (ended : server.Ended)

include ended

theorem Ended.dispatch (command : Command) :
    server.dispatch command = (.error .shuttingDown, server) := if_pos ended.terminating

theorem Ended.handleCommand (command : Command) (source : String) :
    server.handleCommand command source = (.error .shuttingDown, server) := by
  unfold Server.handleCommand
  rw [appendLog_of_none ended.log]
  exact ended.dispatch command

theorem Ended.handleText (text source : String) :
    ∃ refusal, server.handleText text source = (.error refusal, server) := by
  unfold Server.handleText
  rw [appendLog_of_none ended.log]
  cases Command.parse text with
  | ok command => exact ⟨_, ended.dispatch command⟩
  | error error => exact ⟨_, rfl⟩

theorem Ended.handle (incoming : Incoming) (source : String) :
    (server.handle incoming source).2 = server := by
  cases incoming with
  | raw text =>
    obtain ⟨refusal, same⟩ := ended.handleText text source
    exact congrArg Prod.snd same
  | parsed command => exact congrArg Prod.snd (ended.handleCommand command source)

theorem Ended.evict (slot : Nat) : server.evict slot = server := by
  rcases evict_cases server slot with same | ⟨peer, roster, removed, -⟩
  · exact same
  · obtain ⟨before, behind, clients, -⟩ := Roster.clients_remove removed
    rw [ended.clients] at clients
    cases before <;> cases clients

/-- A client that is not connected any more is not read. -/
theorem Ended.serve (peer : Nat) : server.serve peer = server := by
  unfold Server.serve
  cases found : server.connection? peer with
  | none => rfl
  | some connection =>
    have gone := ended.gone peer
    rw [isConnected_of_some found] at gone
    have unread : connection.receive = (.error .closed, connection) := by
      simp [Connection.receive, gone]
    have same : server.setConnection peer connection = server := by
      obtain ⟨other, isThere, accepted⟩ := Option.bind_eq_some_iff.mp found
      obtain ⟨within, rfl⟩ := List.getElem?_eq_some_iff.mp isThere
      have isAccepted : server.peers[peer] = .accepted connection := by
        cases known : server.peers[peer] with
        | accepted other =>
          rw [known] at accepted
          exact congrArg Peer.accepted (Option.some.inj accepted)
        | _ => rw [known] at accepted; cases accepted
      unfold setConnection
      rw [← isAccepted, List.set_getElem_self]
    dsimp only
    rw [unread]
    dsimp only
    rw [same]
    exact ended.evict connection.slot

theorem Ended.pollSource (ready : Bool) :
    server.Lingers (server.pollSource ready) ∧ (server.pollSource ready).gates = server.gates := by
  unfold Server.pollSource
  split
  · exact ⟨.refl server, rfl⟩
  next source found =>
  have polled : server.Lingers { server with source := some (source.poll ready).2 } :=
    .of_same_peers rfl rfl
  dsimp only
  split
  · exact ⟨polled, rfl⟩
  · rw [(ended.lingers polled).handle]
    exact ⟨polled, rfl⟩

theorem Ended.advance :
    server.Lingers server.advance ∧ server.advance.gates = server.gates := by
  have moved : ∀ loop, server.Lingers { server with loop } := fun _ => .of_same_peers rfl rfl
  have step := server.advanced
  generalize server.loop = point at step
  generalize server.advance = server' at step ⊢
  cases step with
  | idle | ended => exact ⟨.refl server, rfl⟩
  | late | cut => exact ⟨moved _, rfl⟩
  | deaf running | begins running | turns running => exact nomatch ended.terminating.symm.trans running
  | wakes =>
    rw [setPhase_of_terminating ended.terminating rfl]
    exact ⟨moved _, rfl⟩
  | serves =>
    rw [(ended.lingers (moved _)).serve]
    exact ⟨moved _, rfl⟩
  | polls =>
    obtain ⟨lingers, gates⟩ := (ended.lingers (moved .top)).pollSource _
    exact ⟨(moved _).trans lingers, gates⟩

end Late

/-- What producers do to the gates by themselves. -/
def Operation.tune (operation : Operation) (gates : Registry) : Registry :=
  match operation with
  | .setEnabled category enabled => (gates.setEnabled category enabled).2
  | .setRate category rate => (gates.setRate category rate).2
  | .samples category count => (gates.samples category count).2
  | _ => gates

theorem lingers_connect (server : Server) {socket : Socket} (fresh : socket.output.sent = []) :
    server.Lingers (server.connect socket) where
  rest := rfl
  sent peer := by
    unfold sentTo connect
    simp only [List.getElem?_append]
    split
    · rfl
    · next beyond =>
      rw [List.getElem?_eq_none (Nat.le_of_not_lt beyond)]
      cases found : [Peer.waiting socket][peer - server.peers.length]? with
      | none => rfl
      | some other =>
        rw [List.mem_singleton.mp (List.mem_of_getElem? found)]
        exact fresh
  back peer connected := by
    rw [isConnected_eq, connection?_connect] at connected
    rw [isConnected_eq]
    exact connected

theorem lingers_modifySocket (server : Server) (target : Nat) {change : Socket → Socket}
    (keeps : ∀ socket, (change socket).output.sent = socket.output.sent) :
    server.Lingers (server.modifySocket target change) where
  rest := rfl
  sent peer := by
    unfold sentTo modifySocket
    simp only [List.getElem?_modify]
    cases server.peers[peer]? with
    | none => rfl
    | some other =>
      by_cases here : target = peer
      · cases other <;> simp [here, Peer.modifySocket, Peer.socket, keeps]
      · simp [here]
  back peer connected := by
    rw [isConnected_eq, connection?_modifySocket] at connected
    rw [isConnected_eq]
    cases found : server.connection? peer with
    | none => rw [found] at connected; exact connected
    | some c =>
      rw [found] at connected
      simp only [Option.map_some, Option.any_some] at connected ⊢
      split at connected <;> exact connected

/-- **Step**: whatever is done to a server that has ended leaves it ended, and leaves everything but
what peers, the operator and producers do by themselves. -/
theorem Ended.operate {server : Server} (ended : server.Ended) (operation : Operation) :
    server.Lingers (server.operate operation) ∧
      (server.operate operation).gates = operation.tune server.gates := by
  have noSession := ended.session
  cases operation with
  | connect input acceptance => exact ⟨lingers_connect server rfl, rfl⟩
  | transport peer input acceptance => exact ⟨lingers_modifySocket server peer fun _ => rfl, rfl⟩
  | typed input =>
    change server.Lingers (server.typed fun _ => input) ∧
      (server.typed fun _ => input).gates = server.gates
    unfold Server.typed
    split
    · exact ⟨.of_same_peers rfl rfl, rfl⟩
    · exact lingers_of_eq rfl
  | clock | sampler | setEnabled | setRate | samples => exact ⟨.of_same_peers rfl rfl, rfl⟩
  | broadcast record => exact lingers_of_eq (broadcast_of_terminating ended.terminating record)
  | handleText text source => exact lingers_of_eq (ended.handle (.raw text) source)
  | handleCommand command source => exact lingers_of_eq (ended.handle (.parsed command) source)
  | dispatch command => exact lingers_of_eq (congrArg Prod.snd (ended.dispatch command))
  | start =>
    change server.Lingers server.enterLoop ∧ server.enterLoop.gates = server.gates
    unfold enterLoop
    split
    · exact ⟨.of_same_peers rfl rfl, rfl⟩
    · exact lingers_of_eq rfl
  | advance => exact ended.advance
  | sessionExpires =>
    refine lingers_of_eq ?_
    change server.sessionExpires = server
    unfold Server.sessionExpires
    rw [noSession, Option.map_none, ← noSession]
  | sessionPublishes =>
    refine lingers_of_eq ?_
    change server.sessionPublishes = server
    unfold Server.sessionPublishes
    rw [noSession]
  | sessionFinishes =>
    refine lingers_of_eq ?_
    change server.sessionFinishes = server
    unfold Server.sessionFinishes
    rw [noSession]
  | shutdown => exact lingers_of_eq (shutdown_of_terminating ended.terminating)

/-- **Run**: the same holds over any operations. -/
theorem Ended.operateAll {server : Server} (ended : server.Ended) (operations : List Operation) :
    server.Lingers (server.operateAll operations) ∧
      (server.operateAll operations).gates =
        operations.foldl (fun gates operation => operation.tune gates) server.gates := by
  induction operations generalizing server with
  | nil => exact ⟨.refl server, rfl⟩
  | cons operation operations ih =>
    obtain ⟨lingers, gates⟩ := ended.operate operation
    obtain ⟨lingers', gates'⟩ := ih (ended.lingers lingers)
    refine ⟨lingers.trans lingers', gates'.trans ?_⟩
    rw [gates]
    rfl

/-! ## Servers that come about -/

/-- What is kept of a server that comes about by operations. -/
structure Sound (server : Server) : Prop where
  coherent : server.Coherent
  paced : server.Paced
  ended : server.terminating = true → server.Ended

theorem sound_new (capacity : Nat) (log : Option Log) (source : Option Source)
    (sampler : Option Sampler) (deadline : Deadline) (now : String) :
    (new capacity log source sampler deadline now).Sound :=
  ⟨coherent_new capacity log source sampler deadline now,
    paced_new capacity log source sampler deadline now, nofun⟩

theorem Sound.shutdown {server : Server} (sound : server.Sound) : server.shutdown.Ended := by
  cases running : server.terminating with
  | false => exact ended_shutdown sound.coherent running
  | true =>
    rw [shutdown_of_terminating running]
    exact sound.ended running

/-- Only the shutdown ends a server: any other operation would have to skip a phase. -/
theorem Sound.operate {server : Server} (sound : server.Sound) (operation : Operation) :
    (server.operate operation).Sound := by
  obtain ⟨paced, chain⟩ := sound.paced.operate operation
  refine ⟨sound.coherent.operate operation, paced, fun terminating => ?_⟩
  cases running : server.terminating with
  | true =>
    have ended := sound.ended running
    exact ended.lingers (ended.operate operation).1
  | false =>
    by_cases ends : operation = .shutdown
    · rw [ends]
      exact sound.shutdown
    · rw [through_eq server ends, List.map_singleton, List.isChain_cons_cons, paced.ended terminating] at chain
      have earlier := (sound.paced.running running).earlier
      have next := chain.1
      generalize server.phase = phase at next earlier
      cases next <;> cases earlier

theorem Sound.operateAll {server : Server} (sound : server.Sound) (operations : List Operation) :
    (server.operateAll operations).Sound := by
  induction operations generalizing server with
  | nil => exact sound
  | cons operation operations ih => exact ih (sound.operate operation)

/-- Whoever is connected when the server is shut down is released. -/
theorem connection?_shutdown {server : Server} (coherent : server.Coherent) {peer : Nat} {c : Connection}
    (found : server.connection? peer = some c) (connected : c.isConnected = true) :
    server.shutdown.connection? peer = some c.close := by
  have isConnected := (isConnected_of_some found).trans connected
  have isIn := coherent.listed peer isConnected
  cases running : server.terminating with
  | true =>
    rw [(coherent.ended running).2] at isIn
    cases isIn
  | false =>
    rw [shutdown_of_running running]
    refine (connection?_updateAll _ coherent.distinct Connection.close peer).trans ?_
    have same : ({ server with roster := .empty server.roster.capacity } : Server).connection? peer =
        some c := found
    rw [if_pos isIn, same]
    rfl

/-- The session that there is when the shutdown begins is taken from the server and wound down. -/
theorem exists_windDown {server : Server} {session : Session} (found : server.session = some session) :
    ∃ stage ∈ server.stages, stage.session = some session ∧
      { stage with session := none }.windDown session ∈ server.stages := by
  have released : server.begun.dropClients.closeLog.session = some session := by
    rw [closeLog_eq]
    unfold dropClients
    simp only [closeAll_eq]
    exact found
  have wound : server.begun.dropClients.closeLog.dropSession =
      { server.begun.dropClients.closeLog with session := none }.windDown session := by
    unfold dropSession
    rw [released]
  refine ⟨server.begun.dropClients.closeLog, by simp [stages], released, ?_⟩
  rw [← wound]
  simp [stages]

/-- **Shutdown**: on every server that comes about, the shutdown releases whoever is connected and winds
the session down. Behind it nothing is written to the log or to a peer, the gates hear of producers
only, and every command is refused, whatever is done in whatever order and wherever the loop is. The
phases of a run follow each other, and there is no way back from the end. -/
theorem shutdown_absorbs (capacity : Nat) (log : Option Log) (source : Option Source)
    (sampler : Option Sampler) (deadline : Deadline) (now : String) (before : List Operation) :
    let server := new capacity log source sampler deadline now
    let reached := server.operateAll before
    (∀ peer c, reached.connection? peer = some c → c.isConnected = true →
      ∃ c', reached.shutdown.connection? peer = some c' ∧ c'.phase = .closed) ∧
    (∀ session, reached.session = some session → ∃ stage ∈ reached.stages,
      stage.session = some session ∧
      { stage with session := none }.windDown session ∈ reached.stages) ∧
    (∀ after : List Operation,
      let last := reached.shutdown.operateAll after
      last.Ended ∧ last.logText = reached.shutdown.logText ∧
      (∀ peer, last.sentTo peer = reached.shutdown.sentTo peer) ∧
      last.gates = after.foldl (fun gates operation => operation.tune gates) reached.shutdown.gates ∧
      (∀ command, last.dispatch command = (.error .shuttingDown, last)) ∧
      ∀ command tag, last.handleCommand command tag = (.error .shuttingDown, last)) ∧
    let phases := .created :: .listening :: (server.history before).map phase
    List.IsChain Next phases ∧
    ∀ earlier phase later, phases = earlier ++ phase :: later → phase.isFinal = true →
      ∀ other ∈ later, other.isFinal = true := by
  intro server reached
  have begins := sound_new capacity log source sampler deadline now
  have sound : reached.Sound := begins.operateAll before
  refine ⟨fun peer c found connected => ?_, fun session => exists_windDown, fun after => ?_, ?_⟩
  · exact ⟨c.close, connection?_shutdown sound.coherent found connected, c.phase_close⟩
  · have ended := sound.shutdown
    obtain ⟨lingers, gates⟩ := ended.operateAll after
    have ended' := ended.lingers lingers
    refine ⟨ended', ?_, lingers.sent, gates, ended'.dispatch, ended'.handleCommand⟩
    rw [lingers.rest]
    rfl
  · have chain : List.IsChain Next (.created :: .listening :: (server.history before).map phase) :=
      .cons_cons .listens (begins.paced.isChain_history before)
    refine ⟨chain, fun earlier phase later same final => ?_⟩
    rw [same] at chain
    exact ServerPhase.isFinal_of_isChain final (List.isChain_append.mp chain).2.1

end Server
end TelemetryHub
