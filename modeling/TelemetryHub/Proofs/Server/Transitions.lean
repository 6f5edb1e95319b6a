import TelemetryHub.Proofs.Server.Coherence

/-!
# What a step does to a client

A step does one of five things to a peer (`Follows`): nobody becomes a client except by being
accepted; a client that is connected stays so and gets the line of a record that is broadcast, or it
goes, perhaps with a part of the line; a client that has gone gets nothing any more. `Coherent.follows`
says that there is nothing else. So a client that is connected behind some steps has got the lines that
belong to them (`Coherent.sends_run`).
-/

namespace TelemetryHub.Server

/-- What a step writes to a client that stays connected. -/
def Step.line : Step → List UInt8
  | .broadcast record => payload record
  | _ => []

/-- How a step ends the connection of a client, and what is still written: a send fails behind a part
of the line, the client has no more to say, or the server lets it go. -/
inductive Ends (server : Server) (peer : Nat) : Step → List UInt8 → Prop where
  | send {record : Json} {torn : List UInt8} (front : torn <+: payload record)
    (short : torn.length < (payload record).length) : Ends server peer (.broadcast record) torn
  | receive : Ends server peer (.receive peer) []
  | evict {slot : Nat} (held : server.roster.get slot = some peer) :
    Ends server peer (.evict slot) []
  | shutdown : Ends server peer .shutdown []

/-- What the connection of a peer can be before and after a step. -/
inductive Follows (server : Server) (peer : Nat) (step : Step) :
    Option Connection → Option Connection → Prop where
  | unknown : Follows server peer step none none
  | accepted {c : Connection} (here : step = .accept peer) (connected : c.isConnected = true)
    (fresh : c.sent = []) : Follows server peer step none (some c)
  | stays {c c' : Connection} (was : c.isConnected = true) (connected : c'.isConnected = true)
    (sent : c'.sent = c.sent ++ step.line) : Follows server peer step (some c) (some c')
  | ends {c c' : Connection} {torn : List UInt8} (was : c.isConnected = true)
    (gone : c'.isConnected = false) (ending : Ends server peer step torn)
    (sent : c'.sent = c.sent ++ torn) : Follows server peer step (some c) (some c')
  | gone {c c' : Connection} (was : c.isConnected = false) (gone : c'.isConnected = false)
    (sent : c'.sent = c.sent) : Follows server peer step (some c) (some c')

section

variable {server : Server} {peer : Nat} {step : Step}

/-- A step that writes nothing to the client, and ends its connection only in one of its ways. -/
theorem Follows.keeps {c c' : Connection} (quiet : step.line = []) (keeps : c.Keeps c')
    (ending : c.isConnected = true → c'.isConnected = false → Ends server peer step []) :
    Follows server peer step (some c) (some c') := by
  cases was : c.isConnected with
  | true =>
    cases now : c'.isConnected with
    | true => exact .stays was now (by rw [quiet, List.append_nil, keeps.sent])
    | false => exact .ends was now (ending was now) (by rw [List.append_nil, keeps.sent])
  | false =>
    refine .gone was ?_ keeps.sent
    cases now : c'.isConnected with
    | true => exact (keeps.back now).symm.trans was
    | false => rfl

/-- A step that leaves the connection. -/
theorem Follows.same (quiet : step.line = []) {found : Option Connection} :
    Follows server peer step found found := by
  cases found with
  | none => exact .unknown
  | some c =>
    refine .keeps quiet (Connection.keeps_refl c) ?_
    intro was now
    rw [was] at now
    cases now

/-- A step that changes the connections of some clients, and writes nothing. -/
theorem Follows.updateAll (quiet : step.line = []) {clients : List Nat} (distinct : clients.Nodup)
    {change : Connection → Connection} (keeps : ∀ c : Connection, c.Keeps (change c))
    (ending : ∀ c, server.connection? peer = some c → peer ∈ clients → c.isConnected = true →
      (change c).isConnected = false → Ends server peer step []) (roster : Roster Nat) :
    Follows server peer step (server.connection? peer)
      (({ server with roster }.updateAll clients change).connection? peer) := by
  have moved := connection?_updateAll { server with roster } distinct change peer
  have same : ({ server with roster } : Server).connection? peer = server.connection? peer := rfl
  rw [moved, same]
  split
  · next isIn =>
    cases found : server.connection? peer with
    | none => exact .unknown
    | some c => exact .keeps quiet (keeps c) (ending c found isIn)
  · exact .same quiet

end

theorem connection?_appendLog (server : Server) (body : Json) (source : String) (peer : Nat) :
    (server.appendLog body source).connection? peer = server.connection? peer := by
  rw [appendLog_eq]
  rfl

theorem follows_evict (server : Server) (peer slot : Nat) :
    Follows server peer (.evict slot) (server.connection? peer)
      ((server.perform (.evict slot)).connection? peer) := by
  change Follows server peer (.evict slot) (server.connection? peer)
    ((server.evict slot).connection? peer)
  rcases evict_cases server slot with same | ⟨client, roster, removed, same⟩
  · rw [same]
    exact .same rfl
  · rw [same]
    refine .updateAll rfl (by simp) Connection.keeps_close ?_ roster
    intro c _ isIn _ _
    rw [List.mem_singleton.mp isIn]
    exact .evict (Roster.get_of_remove removed)

variable {server : Server} (coherent : server.Coherent) (peer : Nat)

include coherent

theorem Coherent.not_connected {c : Connection} (found : server.connection? peer = some c)
    (terminating : server.terminating = true) : c.isConnected = false := by
  cases connected : c.isConnected with
  | false => rfl
  | true =>
    rw [← isConnected_of_some found] at connected
    have isIn := coherent.listed peer connected
    rw [(coherent.ended terminating).2] at isIn
    cases isIn

theorem Coherent.follows_accept (target : Nat) :
    Follows server peer (.accept target) (server.connection? peer)
      ((server.perform (.accept target)).connection? peer) := by
  change Follows server peer (.accept target) (server.connection? peer)
    ((if server.listening then server.acceptOne target else server).connection? peer)
  split
  · rcases acceptOne_cases server target with same | ⟨socket, waits, same⟩ |
      ⟨socket, slot, roster, waits, inserted, same⟩
    · rw [same]
      exact .same rfl
    · rw [same, connection?_settle server waits]
      split
      · next here =>
        rw [← here, connection?_of_waiting waits]
        exact .unknown
      · exact .same rfl
    · have moved := connection?_settle { server with roster } waits
        (.accepted (.new slot socket)) peer
      rw [same, moved]
      split
      · next here =>
        rw [← here, connection?_of_waiting waits]
        exact .accepted rfl rfl (coherent.unwritten target socket waits)
      · exact .same rfl
  · exact .same rfl

/-- What a broadcast does to a client depends on the connection of that client alone. -/
theorem Coherent.connection?_broadcast (running : server.terminating = false) (record : Json) :
    (server.broadcast record).connection? peer =
      (server.connection? peer).map fun c => (c.send (payload record)).2 := by
  have moved := connection?_updateAll server coherent.nodup_connected
    (fun c => (c.send (payload record)).2) peer
  rw [broadcast_of_running running, connection?_appendLog, moved]
  split
  · rfl
  · next notIn =>
    cases found : server.connection? peer with
    | none => rfl
    | some c =>
      rw [mem_connected coherent, isConnected_of_some found, Bool.not_eq_true] at notIn
      rw [Option.map_some, Connection.send_of_gone notIn]

theorem Coherent.follows_broadcast (record : Json) :
    Follows server peer (.broadcast record) (server.connection? peer)
      ((server.perform (.broadcast record)).connection? peer) := by
  change Follows server peer (.broadcast record) (server.connection? peer)
    ((server.broadcast record).connection? peer)
  cases running : server.terminating with
  | true =>
    rw [broadcast_of_terminating running]
    cases found : server.connection? peer with
    | none => exact .unknown
    | some c =>
      have gone := coherent.not_connected peer found running
      exact .gone gone gone rfl
  | false =>
    rw [coherent.connection?_broadcast peer running]
    cases server.connection? peer with
    | none => exact .unknown
    | some c =>
      rw [Option.map_some]
      cases was : c.isConnected with
      | false =>
        rw [Connection.send_of_gone was]
        exact .gone was was rfl
      | true =>
        rcases Connection.send_of_connected was (payload record) with ⟨connected, sent⟩ |
          ⟨gone, torn, front, short, sent⟩
        · exact .stays was connected sent
        · exact .ends was gone (.send front short) sent

theorem Coherent.follows_shutdown :
    Follows server peer .shutdown (server.connection? peer)
      ((server.perform .shutdown).connection? peer) := by
  change Follows server peer .shutdown (server.connection? peer)
    (server.shutdown.connection? peer)
  cases running : server.terminating with
  | true =>
    rw [shutdown_of_terminating running]
    exact .same rfl
  | false =>
    rw [shutdown_of_running running]
    exact .updateAll rfl coherent.distinct Connection.keeps_close (fun _ _ _ _ _ => .shutdown) _

/-- Every step does one of these things to a peer. -/
theorem Coherent.follows (step : Step) :
    Follows server peer step (server.connection? peer)
      ((server.perform step).connection? peer) := by
  cases step with
  | connect input acceptance =>
    have same := connection?_connect server ⟨input, [], acceptance⟩ peer
    exact same ▸ .same rfl
  | transport target input acceptance =>
    have moved := connection?_modifySocket server target
      (fun socket => ⟨input, { socket.output with acceptance }⟩) peer
    refine moved ▸ ?_
    cases server.connection? peer with
    | none => exact .unknown
    | some c =>
      rw [Option.map_some]
      split
      · refine .keeps rfl ⟨rfl, id⟩ ?_
        intro was now
        exact absurd (was.symm.trans now) (by simp)
      · exact .same rfl
  | accept target => exact coherent.follows_accept peer target
  | broadcast record => exact coherent.follows_broadcast peer record
  | receive target =>
    change Follows server peer (.receive target) (server.connection? peer)
      ((server.modifyConnection target fun c => c.receive.2).connection? peer)
    rw [modifyConnection_eq]
    refine .updateAll rfl (by simp) Connection.keeps_receive ?_ server.roster
    intro c _ isIn _ _
    rw [List.mem_singleton.mp isIn]
    exact .receive
  | reap =>
    change Follows server peer .reap (server.connection? peer) (server.reap.connection? peer)
    rw [reap_eq]
    refine .updateAll rfl (coherent.distinct.filter _) Connection.keeps_close ?_ _
    -- a client that is reaped is not connected any more
    intro c found isIn was _
    rw [List.mem_filter, isConnected_of_some found, was] at isIn
    cases isIn.2
  | evict slot => exact follows_evict server peer slot
  | log body source foreign =>
    exact connection?_appendLog server body source peer ▸ .same rfl
  | shutdown => exact coherent.follows_shutdown peer
  | elsewhere other foreign => exact .same rfl

omit coherent

/-! ## What is written to those who stay -/

/-- Whoever is a client of the first server is one of the second one, and if it is connected there, it has
been so before and has been sent these bytes and nothing else. -/
def Sends (server server' : Server) (bytes : List UInt8) : Prop :=
  ∀ peer c, server.connection? peer = some c → ∃ c', server'.connection? peer = some c' ∧
    (c'.isConnected = true → c.isConnected = true ∧ c'.sent = c.sent ++ bytes)

namespace Sends

theorem of_same_peers {server server' : Server} (same : server'.peers = server.peers) :
    server.Sends server' [] := by
  intro peer c found
  refine ⟨c, ?_, fun connected => ⟨connected, (List.append_nil _).symm⟩⟩
  unfold connection?
  rw [same]
  exact found

theorem trans {first second third : Server} {bytes bytes' : List UInt8} (left : first.Sends second bytes)
    (right : second.Sends third bytes') : first.Sends third (bytes ++ bytes') := by
  intro peer c found
  obtain ⟨c', found', kept⟩ := left peer c found
  obtain ⟨c'', found'', kept'⟩ := right peer c' found'
  refine ⟨c'', found'', fun connected => ?_⟩
  obtain ⟨connected', sent'⟩ := kept' connected
  obtain ⟨connected'', sent⟩ := kept connected'
  exact ⟨connected'', by rw [sent', sent, List.append_assoc]⟩

end Sends

theorem Coherent.sends_perform {server : Server} (coherent : server.Coherent) (step : Step) :
    server.Sends (server.perform step) step.line := by
  intro peer c found
  have follows := coherent.follows peer step
  rw [found] at follows
  cases after : (server.perform step).connection? peer with
  | none =>
    rw [after] at follows
    cases follows
  | some c' =>
    rw [after] at follows
    refine ⟨c', rfl, fun connected => ?_⟩
    cases follows with
    | stays was _ sent => exact ⟨was, sent⟩
    | ends _ gone | gone _ gone => cases connected.symm.trans gone

theorem Coherent.sends_run {server : Server} (coherent : server.Coherent) (steps : List Step) :
    server.Sends (server.run steps) (steps.flatMap Step.line) := by
  induction steps generalizing server with
  | nil => exact .of_same_peers rfl
  | cons step steps ih => exact (coherent.sends_perform step).trans (ih (coherent.perform step))

end TelemetryHub.Server
