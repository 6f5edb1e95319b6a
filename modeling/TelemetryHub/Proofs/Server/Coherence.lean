import TelemetryHub.Proofs.Server.Clients

/-!
# The roster and the connections

Between steps the roster is `Coherent`: its clients are different ones that have been accepted, and
whoever is connected is among them. Each step keeps this (`Coherent.perform`), and so does every run
(`Coherent.run`).
-/

namespace TelemetryHub.Server

/-- The clients of the roster are different ones that have been accepted, whoever is connected is
among them, and nothing has been written to those who are waiting. Once the shutdown has begun there
are no clients, and nobody is accepted. -/
structure Coherent (server : Server) : Prop where
  distinct : server.roster.clients.Nodup
  accepted : ∀ peer ∈ server.roster.clients, (server.connection? peer).isSome = true
  listed : ∀ peer, server.isConnected peer = true → peer ∈ server.roster.clients
  unwritten : ∀ (peer : Nat) (socket : Socket), server.peers[peer]? = some (.waiting socket) →
    socket.output.sent = []
  ended : server.terminating = true → server.listening = false ∧ server.roster.clients = []

theorem coherent_new (capacity : Nat) (log : Option Log) (source : Option Source)
    (sampler : Option Sampler) (deadline : Deadline) (now : String) :
    (new capacity log source sampler deadline now).Coherent := by
  have nobody : (new capacity log source sampler deadline now).roster.clients = [] :=
    Roster.clients_empty capacity
  constructor
  · rw [nobody]
    exact List.nodup_nil
  · rw [nobody]
    exact fun peer isIn => absurd isIn List.not_mem_nil
  · intro peer connected
    cases connected
  · intro peer socket waits
    cases waits
  · intro terminating
    cases terminating

/-- Coherence concerns the peers, the roster and whether peers can connect. -/
theorem Coherent.congr {server server' : Server} (coherent : server.Coherent)
    (peers : server'.peers = server.peers) (roster : server'.roster = server.roster)
    (listening : server'.listening = server.listening)
    (terminating : server'.terminating = server.terminating) : server'.Coherent := by
  obtain ⟨distinct, accepted, listed, unwritten, ended⟩ := coherent
  simp only [connection?, isConnected] at accepted listed
  constructor <;> simp only [connection?, isConnected, peers, roster, listening, terminating] <;>
    assumption

/-- Clients go out of the roster and connections change, but only clients that are gone are taken out
and nobody comes back. -/
theorem Coherent.update {server : Server} (coherent : server.Coherent) {clients : List Nat}
    (distinct : clients.Nodup) {change : Connection → Connection}
    (back : ∀ c : Connection, (change c).isConnected = true → c.isConnected = true)
    {roster : Roster Nat} (fewer : roster.clients.Sublist server.roster.clients)
    (gone : ∀ peer ∈ server.roster.clients, peer ∉ roster.clients →
      server.isConnected peer = true → peer ∈ clients ∧ ∀ c : Connection, (change c).isConnected = false) :
    ({ server with roster }.updateAll clients change).Coherent := by
  have connections := connection?_updateAll { server with roster } distinct change
  constructor
  · exact fewer.nodup coherent.distinct
  · intro peer isIn
    have found := coherent.accepted peer (fewer.subset isIn)
    rw [connections]
    split
    · rw [Option.isSome_map]
      exact found
    · exact found
  · intro peer connected
    obtain ⟨c, wasConnected, stillConnected⟩ : ∃ c : Connection, server.isConnected peer = true ∧
        (peer ∈ clients → (change c).isConnected = true) := by
      rw [isConnected_eq, connections] at connected
      cases found : server.connection? peer with
      | none =>
        have nothing : ({ server with roster } : Server).connection? peer = none := found
        simp [nothing] at connected
      | some c =>
        have something : ({ server with roster } : Server).connection? peer = some c := found
        rw [isConnected_of_some found]
        by_cases changed : peer ∈ clients
        · simp only [something, changed, if_true, Option.map_some, Option.any_some] at connected
          exact ⟨c, back c connected, fun _ => connected⟩
        · simp only [something, changed, if_false, Option.any_some] at connected
          exact ⟨c, connected, fun isIn => absurd isIn changed⟩
    have wasIn := coherent.listed peer wasConnected
    by_cases stays : peer ∈ roster.clients
    · exact stays
    · obtain ⟨changed, ends⟩ := gone peer wasIn stays wasConnected
      rw [ends c] at stillConnected
      exact absurd (stillConnected changed) Bool.false_ne_true
  · intro peer socket waits
    exact coherent.unwritten peer socket (waiting_of_updateAll distinct waits)
  · intro terminating
    obtain ⟨listening, nobody⟩ := coherent.ended terminating
    refine ⟨listening, ?_⟩
    rw [nobody] at fewer
    exact List.sublist_nil.mp fewer

/-- A change of the peers that lets nobody come back. -/
theorem Coherent.setPeers {server : Server} (coherent : server.Coherent) {peers : List Peer}
    (accepted : ∀ peer, (server.connection? peer).isSome = true →
      (({ server with peers } : Server).connection? peer).isSome = true)
    (back : ∀ peer, ({ server with peers } : Server).isConnected peer = true →
      server.isConnected peer = true)
    (unwritten : ∀ (peer : Nat) (socket : Socket), peers[peer]? = some (.waiting socket) →
      socket.output.sent = []) : Coherent { server with peers } where
  distinct := coherent.distinct
  accepted peer isIn := accepted peer (coherent.accepted peer isIn)
  listed peer connected := coherent.listed peer (back peer connected)
  unwritten := unwritten
  ended := coherent.ended

/-! ## What each step does -/

theorem connection?_connect (server : Server) (socket : Socket) (peer : Nat) :
    (server.connect socket).connection? peer = server.connection? peer := by
  unfold connect connection?
  simp only [List.getElem?_append]
  split
  · rfl
  · next beyond =>
    rw [List.getElem?_eq_none (Nat.le_of_not_lt beyond)]
    cases found : [Peer.waiting socket][peer - server.peers.length]? with
    | none => rfl
    | some other =>
      rw [List.mem_singleton.mp (List.mem_of_getElem? found)]
      rfl

theorem connection?_modifySocket (server : Server) (target : Nat) (change : Socket → Socket)
    (peer : Nat) :
    (server.modifySocket target change).connection? peer =
      (server.connection? peer).map fun c =>
        if target = peer then { c with socket := change c.socket } else c := by
  unfold modifySocket connection?
  simp only [List.getElem?_modify]
  cases server.peers[peer]? with
  | none => rfl
  | some other => by_cases here : target = peer <;> cases other <;> simp [here, Peer.modifySocket, Peer.connection?]

theorem Coherent.connect {server : Server} (coherent : server.Coherent) {socket : Socket}
    (fresh : socket.output.sent = []) : (server.connect socket).Coherent := by
  refine coherent.setPeers ?_ ?_ ?_
  · intro peer accepted
    rw [← connection?_connect server socket peer] at accepted
    exact accepted
  · intro peer connected
    rw [isConnected_eq, ← connection?_connect server socket peer, ← isConnected_eq]
    exact connected
  · intro peer other waits
    rw [List.getElem?_append] at waits
    split at waits
    · exact coherent.unwritten peer other waits
    · have same := List.mem_singleton.mp (List.mem_of_getElem? waits)
      cases same
      exact fresh

theorem Coherent.modifySocket {server : Server} (coherent : server.Coherent) (target : Nat)
    {change : Socket → Socket} (keeps : ∀ socket, (change socket).output.sent = socket.output.sent) :
    (server.modifySocket target change).Coherent := by
  have connections := connection?_modifySocket server target change
  refine coherent.setPeers ?_ ?_ ?_
  · intro peer accepted
    have moved := connections peer
    unfold Server.modifySocket at moved
    rw [moved, Option.isSome_map]
    exact accepted
  · intro peer connected
    have moved := connections peer
    unfold Server.modifySocket at moved
    rw [isConnected_eq, moved] at connected
    rw [isConnected_eq]
    cases found : server.connection? peer with
    | none => rw [found] at connected; exact connected
    | some c =>
      rw [found] at connected
      simp only [Option.map_some, Option.any_some] at connected ⊢
      split at connected <;> exact connected
  · intro peer socket waits
    rw [List.getElem?_modify] at waits
    cases found : server.peers[peer]? with
    | none => rw [found] at waits; cases waits
    | some other =>
      rw [found] at waits
      simp only [Option.map_eq_map, Option.map_some, Option.some.injEq] at waits
      split at waits
      · cases other <;> cases waits
        exact (keeps _).trans (coherent.unwritten peer _ found)
      · rw [waits] at found
        exact coherent.unwritten peer socket found

/-- An attempt to accept a peer leaves the server, turns the peer away or makes it a client. -/
theorem acceptOne_cases (server : Server) (peer : Nat) :
    server.acceptOne peer = server ∨
      (∃ socket, server.peers[peer]? = some (.waiting socket) ∧
        server.acceptOne peer = server.settle peer (.rejected socket)) ∨
      ∃ socket slot roster, server.peers[peer]? = some (.waiting socket) ∧
        server.roster.insert slot peer = .ok roster ∧
        server.acceptOne peer = { server with roster }.settle peer (.accepted (.new slot socket)) := by
  unfold acceptOne
  split
  · next socket waits =>
    split
    · exact .inr (.inl ⟨socket, waits, rfl⟩)
    · next slot free =>
      split
      · exact .inr (.inl ⟨socket, waits, rfl⟩)
      · next roster inserted => exact .inr (.inr ⟨socket, slot, roster, waits, inserted, rfl⟩)
  · exact .inl rfl

/-- Only the peers and the roster are different once the peers that were waiting have been accepted. -/
theorem acceptAll_eq (server : Server) :
    server.acceptAll =
      { server with peers := server.acceptAll.peers, roster := server.acceptAll.roster } := by
  have turns : ∀ (peers : List Nat) (server : Server), ∃ peers' roster,
      peers.foldl acceptOne server = { server with peers := peers', roster } := by
    intro peers
    induction peers with
    | nil => exact fun server => ⟨server.peers, server.roster, rfl⟩
    | cons peer peers ih =>
      intro server
      obtain ⟨peers', roster', same⟩ := ih (server.acceptOne peer)
      refine ⟨peers', roster', same.trans ?_⟩
      rcases acceptOne_cases server peer with same | ⟨socket, waits, same⟩ |
        ⟨socket, slot, roster, waits, inserted, same⟩ <;> rw [same] <;> rfl
  unfold acceptAll
  split
  · obtain ⟨peers, roster, same⟩ := turns (List.range server.peers.length) server
    rw [same]
  · rfl

theorem connection?_settle (server : Server) {target : Nat} {old : Peer}
    (found : server.peers[target]? = some old) (settled : Peer) (peer : Nat) :
    (server.settle target settled).connection? peer =
      if target = peer then settled.connection? else server.connection? peer := by
  have within := (List.getElem?_eq_some_iff.mp found).1
  unfold settle connection?
  rw [List.getElem?_set]
  split
  · rfl
  · rfl

theorem waiting_of_settle {server : Server} {target : Nat} {settled : Peer}
    (notWaiting : ∀ socket, settled ≠ .waiting socket) {peer : Nat} {socket : Socket}
    (waits : (server.settle target settled).peers[peer]? = some (.waiting socket)) :
    server.peers[peer]? = some (.waiting socket) := by
  unfold settle at waits
  rw [List.getElem?_set] at waits
  split at waits
  · split at waits
    · exact absurd (Option.some.inj waits) (notWaiting socket)
    · cases waits
  · exact waits

theorem connection?_of_waiting {server : Server} {peer : Nat} {socket : Socket}
    (waits : server.peers[peer]? = some (.waiting socket)) : server.connection? peer = none := by
  unfold connection?
  rw [waits]
  rfl

/-- Whoever waits can be turned away. -/
theorem Coherent.reject {server : Server} (coherent : server.Coherent) {target : Nat}
    {socket : Socket} (waits : server.peers[target]? = some (.waiting socket)) :
    (server.settle target (.rejected socket)).Coherent := by
  have connections : ∀ peer, (server.settle target (.rejected socket)).connection? peer =
      server.connection? peer := by
    intro peer
    rw [connection?_settle server waits]
    split
    · next here =>
      rw [← here, connection?_of_waiting waits]
      rfl
    · rfl
  refine coherent.setPeers ?_ ?_ ?_
  · intro peer accepted
    rw [← connections] at accepted
    exact accepted
  · intro peer connected
    rw [isConnected_eq, ← connections, ← isConnected_eq]
    exact connected
  · intro peer other stillWaits
    refine coherent.unwritten peer other (waiting_of_settle ?_ stillWaits)
    exact fun _ => nofun

/-- Whoever waits can become a client, as long as the shutdown has not begun. -/
theorem Coherent.accept {server : Server} (coherent : server.Coherent)
    (running : server.terminating = false) {target : Nat} {socket : Socket}
    (waits : server.peers[target]? = some (.waiting socket)) {slot : Nat} {roster : Roster Nat}
    (inserted : server.roster.insert slot target = .ok roster) :
    ({ server with roster }.settle target (.accepted (.new slot socket))).Coherent := by
  obtain ⟨before, behind, clients, clients'⟩ := Roster.clients_insert inserted
  have new : target ∉ server.roster.clients := by
    intro isIn
    have accepted := coherent.accepted target isIn
    rw [connection?_of_waiting waits] at accepted
    cases accepted
  have connections : ∀ peer,
      ({ server with roster }.settle target (.accepted (.new slot socket))).connection? peer =
        if target = peer then some (.new slot socket) else server.connection? peer :=
    connection?_settle { server with roster } waits _
  constructor
  · change roster.clients.Nodup
    rw [clients', List.perm_middle.nodup_iff, ← clients]
    exact List.nodup_cons.mpr ⟨new, coherent.distinct⟩
  · intro peer isIn
    rw [connections]
    split
    · rfl
    · next other =>
      refine coherent.accepted peer ?_
      change peer ∈ roster.clients at isIn
      rw [clients', List.mem_append, List.mem_cons] at isIn
      rw [clients, List.mem_append]
      rcases isIn with earlier | here | later
      · exact .inl earlier
      · exact absurd here.symm other
      · exact .inr later
  · intro peer connected
    change peer ∈ roster.clients
    rw [isConnected_eq, connections] at connected
    rw [clients', List.mem_append, List.mem_cons]
    split at connected
    · next here => exact .inr (.inl here.symm)
    · rw [← isConnected_eq] at connected
      have isIn := coherent.listed peer connected
      rw [clients, List.mem_append] at isIn
      rcases isIn with earlier | later
      · exact .inl earlier
      · exact .inr (.inr later)
  · intro peer other stillWaits
    refine coherent.unwritten peer other (waiting_of_settle ?_ stillWaits)
    exact fun _ => nofun
  · intro terminating
    have ended : server.terminating = true := terminating
    rw [running] at ended
    cases ended

theorem Coherent.acceptOne {server : Server} (coherent : server.Coherent)
    (listening : server.listening = true) (target : Nat) : (server.acceptOne target).Coherent := by
  rcases acceptOne_cases server target with same | ⟨socket, waits, same⟩ |
    ⟨socket, slot, roster, waits, inserted, same⟩
  · rw [same]
    exact coherent
  · rw [same]
    exact coherent.reject waits
  · rw [same]
    refine coherent.accept ?_ waits inserted
    cases terminating : server.terminating with
    | false => rfl
    | true =>
      rw [(coherent.ended terminating).1] at listening
      cases listening

/-! ## Broadcasts -/

theorem mem_connected {server : Server} (coherent : server.Coherent) (peer : Nat) :
    peer ∈ server.connected ↔ server.isConnected peer = true := by
  unfold connected Roster.snapshot
  rw [List.mem_filter]
  exact ⟨fun both => both.2, fun connected => ⟨coherent.listed peer connected, connected⟩⟩

theorem Coherent.nodup_connected {server : Server} (coherent : server.Coherent) :
    server.connected.Nodup := coherent.distinct.filter _

/-- While the server runs, a broadcast sends to all clients that are connected, and then it is
logged. -/
theorem broadcast_of_running {server : Server} (running : server.terminating = false)
    (record : Json) :
    server.broadcast record = (server.updateAll server.connected
      (fun c => (c.send (payload record)).2)).appendLog record ownName := by
  have sends := foldl_modifyConnection server.connected server fun c => (c.send (payload record)).2
  unfold broadcast
  rw [running, if_neg Bool.false_ne_true]
  exact congrArg (fun sent => sent.appendLog record ownName) sends

theorem broadcast_of_terminating {server : Server} (terminating : server.terminating = true)
    (record : Json) : server.broadcast record = server := if_pos terminating

theorem broadcastAll_of_terminating {server : Server} (terminating : server.terminating = true)
    (records : List Json) : server.broadcastAll records = server := by
  induction records with
  | nil => rfl
  | cons record records ih =>
    unfold broadcastAll at ih ⊢
    rw [List.foldl_cons, broadcast_of_terminating terminating, ih]

theorem appendLog_of_open {server : Server} {log : Log} (found : server.log = some log)
    (body : Json) (source : String) :
    server.appendLog body source =
      { server with log := some (log.append body source server.now server.logRefusal).2 } := by
  unfold appendLog
  rw [found]

theorem appendLog_of_none {server : Server} (none : server.log = none) (body : Json)
    (source : String) : server.appendLog body source = server := by
  unfold appendLog
  rw [none]

theorem Coherent.appendLog {server : Server} (coherent : server.Coherent) (body : Json)
    (source : String) : (server.appendLog body source).Coherent := by
  rw [appendLog_eq]
  exact coherent.congr rfl rfl rfl rfl

theorem Coherent.broadcast {server : Server} (coherent : server.Coherent) (record : Json) :
    (server.broadcast record).Coherent := by
  cases running : server.terminating with
  | true =>
    rw [broadcast_of_terminating running]
    exact coherent
  | false =>
    rw [broadcast_of_running running]
    refine Coherent.appendLog ?_ record ownName
    refine coherent.update coherent.nodup_connected ?_ (List.Sublist.refl _) ?_
    · intro c connected
      cases before : c.isConnected with
      | true => rfl
      | false =>
        rw [Connection.send_of_gone before, before] at connected
        cases connected
    · exact fun peer isIn notIn => absurd isIn notIn

/-! ## Removals -/

theorem closeAll_eq (server : Server) (clients : List Nat) :
    server.closeAll clients = server.updateAll clients Connection.close :=
  foldl_modifyConnection clients server Connection.close

/-- Clients go out of the roster and are released; whoever goes without being released is not
connected. -/
theorem Coherent.release {server : Server} (coherent : server.Coherent) {clients : List Nat}
    (distinct : clients.Nodup) {roster : Roster Nat}
    (fewer : roster.clients.Sublist server.roster.clients)
    (gone : ∀ peer ∈ server.roster.clients, peer ∉ roster.clients →
      server.isConnected peer = true → peer ∈ clients) :
    ({ server with roster }.updateAll clients Connection.close).Coherent := by
  refine coherent.update distinct ?_ fewer ?_
  · intro c connected
    rw [Connection.isConnected_close] at connected
    cases connected
  · exact fun peer isIn notIn connected =>
      ⟨gone peer isIn notIn connected, Connection.isConnected_close⟩

theorem reap_eq (server : Server) :
    server.reap = { server with roster := (server.roster.reap server.isConnected).2 }.updateAll
      (server.roster.clients.filter fun peer => !server.isConnected peer) Connection.close :=
  closeAll_eq _ _

theorem Coherent.reap {server : Server} (coherent : server.Coherent) : server.reap.Coherent := by
  have kept := Roster.clients_keep server.roster server.isConnected
  rw [reap_eq]
  refine coherent.release (coherent.distinct.filter _) ?_ ?_
  · rw [kept]
    exact List.filter_sublist
  · intro peer isIn notIn connected
    rw [kept, List.mem_filter] at notIn
    exact absurd ⟨isIn, connected⟩ notIn

/-- An eviction does nothing, or it takes the client out of its slot and releases it. -/
theorem evict_cases (server : Server) (slot : Nat) :
    server.evict slot = server ∨ ∃ peer roster, server.roster.remove slot = .ok (peer, roster) ∧
      server.evict slot = { server with roster }.updateAll [peer] Connection.close := by
  unfold evict
  split
  · next peer roster removed =>
    refine .inr ⟨peer, roster, removed, ?_⟩
    exact modifyConnection_eq _ _ _
  · exact .inl rfl

theorem Coherent.evict {server : Server} (coherent : server.Coherent) (slot : Nat) :
    (server.evict slot).Coherent := by
  rcases evict_cases server slot with same | ⟨peer, roster, removed, same⟩
  · rw [same]
    exact coherent
  · rw [same]
    obtain ⟨before, behind, clients, clients'⟩ := Roster.clients_remove removed
    refine coherent.release (by simp) ?_ ?_
    · rw [clients, clients']
      exact (List.Sublist.refl before).append (List.sublist_cons_self peer behind)
    · intro other isIn notIn _
      rw [clients, List.mem_append, List.mem_cons] at isIn
      rw [clients', List.mem_append] at notIn
      rcases isIn with earlier | here | later
      · exact absurd (.inl earlier) notIn
      · exact List.mem_singleton.mpr here
      · exact absurd (.inr later) notIn

/-! ## The shutdown -/

/-- What the file of the log holds once the log has been closed. -/
def closedFile (server : Server) : Option String :=
  match server.log with
  | none => server.logFile
  | some log => some (log.close server.logRefusal).2

/-- The shutdown takes all clients out and releases them, and closes the log. -/
theorem shutdown_of_running {server : Server} (running : server.terminating = false) :
    server.shutdown = { { server with roster := .empty server.roster.capacity }.updateAll
        server.roster.clients Connection.close with
      listening := false
      log := none
      logFile := server.closedFile
      session := none
      phase := .closed
      terminating := true } := by
  have dropped : ∀ {server : Server}, server.terminating = true →
      server.dropSession = { server with session := none } := by
    intro server terminating
    unfold dropSession
    split
    · next noSession => rw [← noSession]
    · have terminating' : ({ server with session := none } : Server).terminating = true := terminating
      exact broadcastAll_of_terminating terminating' _
  have closed : ∀ server : Server,
      server.closeLog = { server with log := none, logFile := server.closedFile } := by
    intro server
    unfold closeLog closedFile
    cases log : server.log with
    | none => exact congrArg (fun log => { server with log }) log
    | some _ => rfl
  have final : ∀ {phase : ServerPhase} (server : Server), phase.isFinal = true →
      server.setPhase phase = { server with phase } := by
    intro phase server isFinal
    simp [setPhase, isFinal]
  unfold shutdown
  rw [running, if_neg Bool.false_ne_true]
  simp only [final _ (rfl : ServerPhase.shuttingDown.isFinal = true),
    final _ (rfl : ServerPhase.closed.isFinal = true), dropClients, Roster.drain, closeAll_eq, closed]
  rw [dropped rfl]
  rfl

theorem shutdown_of_terminating {server : Server} (terminating : server.terminating = true) :
    server.shutdown = server := if_pos terminating

theorem Coherent.shutdown {server : Server} (coherent : server.Coherent) :
    server.shutdown.Coherent := by
  cases running : server.terminating with
  | true =>
    rw [shutdown_of_terminating running]
    exact coherent
  | false =>
    have nobody : (Roster.empty server.roster.capacity : Roster Nat).clients = [] :=
      Roster.clients_empty _
    have fewer : (Roster.empty server.roster.capacity).clients.Sublist server.roster.clients := by
      rw [nobody]
      exact List.nil_sublist _
    have released := coherent.release coherent.distinct fewer fun _ isIn _ _ => isIn
    rw [shutdown_of_running running]
    constructor
    · exact released.distinct
    · exact released.accepted
    · exact released.listed
    · exact released.unwritten
    · exact fun _ => ⟨rfl, nobody⟩

/-! ## All steps -/

theorem Coherent.receive {server : Server} (coherent : server.Coherent) (peer : Nat) :
    (server.modifyConnection peer fun connection => connection.receive.2).Coherent := by
  rw [modifyConnection_eq]
  refine coherent.update (by simp) ?_ (List.Sublist.refl _) ?_
  · exact fun c => (Connection.keeps_receive c).back
  · exact fun peer isIn notIn => absurd isIn notIn

/-- **Preservation**: every step keeps the roster and the connections together. -/
theorem Coherent.perform {server : Server} (coherent : server.Coherent) (step : Step) :
    (server.perform step).Coherent := by
  cases step with
  | connect input acceptance => exact coherent.connect rfl
  | transport peer input acceptance => exact coherent.modifySocket peer fun _ => rfl
  | accept peer =>
    change (if server.listening then server.acceptOne peer else server).Coherent
    split
    · next listening => exact coherent.acceptOne listening peer
    · exact coherent
  | broadcast record => exact coherent.broadcast record
  | receive peer => exact coherent.receive peer
  | reap => exact coherent.reap
  | evict slot => exact coherent.evict slot
  | log body source foreign => exact coherent.appendLog body source
  | shutdown => exact coherent.shutdown
  | elsewhere other foreign => exact coherent.congr rfl rfl rfl rfl

theorem Coherent.run {server : Server} (coherent : server.Coherent) (steps : List Step) :
    (server.run steps).Coherent := by
  induction steps generalizing server with
  | nil => exact coherent
  | cons step steps ih => exact ih (coherent.perform step)

end TelemetryHub.Server
