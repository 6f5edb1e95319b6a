import TelemetryHub.Proofs.Server.Turns

/-!
# What is left alone beside the loop

A change of the server is seen on each peer separately (`Stand`). What only sends leaves the slots of the
clients and what has arrived from them (`Connection.Unread`), and the roster with them.
Handling a command, publishing the records of a session and everything else that is done beside the
loop is made of broadcasts and of changes that concern no client, so that a relation which both have is
one that all of these have (`Carried`).
-/

namespace TelemetryHub

namespace Connection

/-- The client has its slot still, has not come back if it had gone, and is released for good. -/
structure Stands (c c' : Connection) : Prop where
  slot : c'.slot = c.slot
  back : c'.isConnected = true → c.isConnected = true
  released : c.phase = .closed → c'.phase = .closed

/-- Besides, nothing has arrived from the client, and nothing has been read. -/
structure Unread (c c' : Connection) : Prop extends c.Stands c' where
  input : c'.socket.input = c.socket.input

theorem stands_refl (c : Connection) : c.Stands c := ⟨rfl, id, id⟩

theorem Stands.trans {first second third : Connection} (left : first.Stands second)
    (right : second.Stands third) : first.Stands third :=
  ⟨right.slot.trans left.slot, left.back ∘ right.back, right.released ∘ left.released⟩

theorem unread_refl (c : Connection) : c.Unread c := ⟨c.stands_refl, rfl⟩

theorem unread_close (c : Connection) : c.Unread c.close :=
  ⟨⟨c.slot_close, c.keeps_close.back, fun _ => c.phase_close⟩, congrArg Socket.input c.socket_close⟩

theorem unread_send (c : Connection) (payload : List UInt8) : c.Unread (c.send payload).2 := by
  have sends := c.sends payload
  generalize c.send payload = result at sends ⊢
  cases sends with
  | refused => exact c.unread_refl
  | writes => exact ⟨⟨rfl, id, id⟩, rfl⟩
  | breaks connected =>
    refine ⟨⟨rfl, fun _ => connected, fun closed => ?_⟩, rfl⟩
    rw [isConnected_iff.mp connected] at closed
    cases closed

theorem stands_receive (c : Connection) : c.Stands c.receive.2 := by
  refine ⟨c.slot_receive, c.keeps_receive.back, fun closed => ?_⟩
  simp [receive, isConnected, closed]

end Connection

namespace Peer

/-- A peer waits or has been turned away as before, or it is a client that stands where it did. -/
inductive Stands : Peer → Peer → Prop where
  | waiting (socket socket' : Socket) : Stands (.waiting socket) (.waiting socket')
  | rejected (socket socket' : Socket) : Stands (.rejected socket) (.rejected socket')
  | accepted {c c' : Connection} (stands : c.Stands c') : Stands (.accepted c) (.accepted c')

theorem stands_refl (peer : Peer) : peer.Stands peer := by
  cases peer with
  | waiting socket => exact .waiting socket socket
  | rejected socket => exact .rejected socket socket
  | accepted c => exact .accepted c.stands_refl

theorem Stands.trans {first second third : Peer} (left : first.Stands second)
    (right : second.Stands third) : first.Stands third := by
  cases left with
  | waiting =>
    cases right with
    | waiting => exact .waiting _ _
  | rejected =>
    cases right with
    | rejected => exact .rejected _ _
  | accepted stands =>
    cases right with
    | accepted stands' => exact .accepted (stands.trans stands')

theorem stands_update (peer : Peer) {change : Connection → Connection}
    (stands : ∀ c : Connection, c.Stands (change c)) : peer.Stands (peer.update change) := by
  cases peer with
  | waiting socket => exact .waiting socket socket
  | rejected socket => exact .rejected socket socket
  | accepted c => exact .accepted (stands c)

theorem stands_modifySocket (peer : Peer) (change : Socket → Socket) :
    peer.Stands (peer.modifySocket change) := by
  cases peer with
  | waiting socket => exact .waiting socket _
  | rejected socket => exact .rejected socket _
  | accepted c => exact .accepted ⟨rfl, id, id⟩

end Peer

namespace Server

/-! ## Every peer -/

/-- The same peers have tried to connect, and each stands where it did. -/
def Stand (server server' : Server) : Prop :=
  ∀ peer : Nat, Option.Rel Peer.Stands server.peers[peer]? server'.peers[peer]?

/-- What has arrived from a peer and has not been read. -/
def input? (server : Server) (peer : Nat) : Option Inbound :=
  server.peers[peer]?.map fun peer => peer.socket.input

theorem input?_of_some {server : Server} {peer : Nat} {c : Connection}
    (found : server.connection? peer = some c) : server.input? peer = some c.socket.input := by
  obtain ⟨other, here, accepted⟩ := Option.bind_eq_some_iff.mp found
  unfold input?
  rw [here]
  cases other with
  | accepted connection =>
    cases accepted
    rfl
  | waiting | rejected => cases accepted

section

variable {server server' : Server}

theorem Stand.trans {third : Server} (left : server.Stand server') (right : server'.Stand third) :
    server.Stand third := by
  intro peer
  have first := left peer
  have second := right peer
  generalize server.peers[peer]? = before, server'.peers[peer]? = between,
    third.peers[peer]? = after at first second ⊢
  cases first with
  | none => exact second
  | some stands =>
    cases second with
    | some stands' => exact .some (stands.trans stands')

theorem stand_of_map (change : Nat → Peer → Peer)
    (stands : ∀ (peer : Nat) (other : Peer), other.Stands (change peer other))
    (same : ∀ peer : Nat, server'.peers[peer]? = server.peers[peer]?.map (change peer)) :
    server.Stand server' := by
  intro peer
  rw [same]
  cases server.peers[peer]? with
  | none => exact .none
  | some other => exact .some (stands peer other)

theorem stand_of_same (same : server'.peers = server.peers) : server.Stand server' :=
  stand_of_map (fun _ other => other) (fun _ other => other.stands_refl) fun peer => by
    rw [same]
    exact (Option.map_id' ..).symm

theorem stand_updateAll (server : Server) (clients : List Nat) {change : Connection → Connection}
    (stands : ∀ c : Connection, c.Stands (change c)) : server.Stand (server.updateAll clients change) := by
  induction clients generalizing server with
  | nil => exact stand_of_same rfl
  | cons client clients ih =>
    have first : server.Stand (server.updateAll [client] change) := by
      refine stand_of_map (fun peer other => if peer ∈ [client] then other.update change else other)
        (fun peer other => ?_) (fun peer => ?_)
      · split
        · exact other.stands_update stands
        · exact other.stands_refl
      · rw [getElem?_updateAll server (by simp)]
        split
        · rfl
        · exact (Option.map_id' ..).symm
    exact first.trans (ih _)

theorem stand_modifySocket (server : Server) (target : Nat) (change : Socket → Socket) :
    server.Stand (server.modifySocket target change) := by
  refine stand_of_map (fun peer other => if target = peer then other.modifySocket change else other)
    (fun peer other => ?_) (fun peer => ?_)
  · split
    · exact other.stands_modifySocket change
    · exact other.stands_refl
  · exact List.getElem?_modify ..

theorem Stand.exists_before (stand : server.Stand server') {peer : Nat} {c' : Connection}
    (found : server'.connection? peer = some c') :
    ∃ c, server.connection? peer = some c ∧ c.Stands c' := by
  have here := stand peer
  unfold connection? at found ⊢
  generalize server.peers[peer]? = before, server'.peers[peer]? = after at here found ⊢
  cases here with
  | none => cases found
  | some stands =>
    cases stands with
    | accepted stands =>
      cases found
      exact ⟨_, rfl, stands⟩
    | waiting | rejected => cases found

theorem input?_updateAll (server : Server) (clients : List Nat) {change : Connection → Connection}
    (unread : ∀ c : Connection, c.Unread (change c)) (peer : Nat) :
    (server.updateAll clients change).input? peer = server.input? peer := by
  have kept : ∀ other : Peer, (other.update change).socket.input = other.socket.input := by
    intro other
    cases other with
    | accepted c => exact (unread c).input
    | waiting | rejected => rfl
  induction clients generalizing server with
  | nil => rfl
  | cons client clients ih =>
    have first : (server.updateAll [client] change).input? peer = server.input? peer := by
      unfold input?
      rw [getElem?_updateAll server (by simp)]
      split
      · rw [Option.map_map]
        exact congrArg (server.peers[peer]?.map ·) (funext kept)
      · rfl
    exact (ih _).trans first

end

/-! ## What is carried by broadcasts -/

/-- A relation that broadcasts have, and all that concerns no client. -/
structure Carried (related : Server → Server → Prop) : Prop where
  beside : ∀ {server server' : Server}, server'.peers = server.peers → server'.roster = server.roster →
    server'.listening = server.listening → server'.terminating = server.terminating →
    server'.loop = server.loop → server'.source.map Source.label = server.source.map Source.label →
    related server server'
  broadcast : ∀ (server : Server) (record : Json), related server (server.broadcast record)
  trans : ∀ {first second third : Server}, related first second → related second third →
    related first third

/-- The operations that neither concern a client nor move the loop. -/
def Operation.isQuiet : Operation → Bool
  | .connect _ _ | .transport _ _ _ | .start | .advance | .shutdown => false
  | _ => true

namespace Carried

variable {related : Server → Server → Prop} (carried : Carried related) (server : Server)

include carried

theorem refl : related server server := carried.beside rfl rfl rfl rfl rfl rfl

theorem appendLog (body : Json) (source : String) : related server (server.appendLog body source) := by
  rw [appendLog_eq]
  exact carried.beside rfl rfl rfl rfl rfl rfl

theorem broadcastAll (records : List Json) : related server (server.broadcastAll records) := by
  unfold Server.broadcastAll
  induction records generalizing server with
  | nil => exact carried.refl server
  | cons record records ih => exact carried.trans (carried.broadcast server record) (ih _)

theorem dispatch (command : Command) : related server (server.dispatch command).2 := by
  have answer := dispatched server command
  generalize server.dispatch command = attempt at answer ⊢
  cases answer with
  | late | refused | noSampler | busy | noSession => exact carried.refl server
  | obeyed | started => exact carried.beside rfl rfl rfl rfl rfl rfl
  | stopped =>
    have emptied : related server { server with session := none } := carried.beside rfl rfl rfl rfl rfl rfl
    exact carried.trans emptied (carried.broadcastAll _ _)

theorem handle (incoming : Incoming) (source : String) :
    related server (server.handle incoming source).2 := by
  cases incoming with
  | parsed command => exact carried.trans (carried.appendLog server _ source) (carried.dispatch _ command)
  | raw text =>
    have logged := carried.appendLog server (Json.ofMessage text) source
    unfold Server.handle handleText
    dsimp only
    split
    · exact carried.trans logged (carried.dispatch _ _)
    · exact logged

/-- A client that has something to say, or nothing now, is read, and no more is done than to handle it. -/
theorem serve_of_ok {peer : Nat} {c : Connection} {text : String}
    (found : server.connection? peer = some c) (received : c.receive.1 = .ok text) :
    related (server.setConnection peer c.receive.2) (server.serve peer) := by
  unfold Server.serve
  rw [found]
  dsimp only
  rw [received]
  dsimp only
  split
  · exact carried.refl _
  · exact carried.handle _ (.raw text) _

theorem pollSource (ready : Bool) : related server (server.pollSource ready) := by
  unfold Server.pollSource
  split
  · exact carried.refl server
  next source found =>
  have polled : related server { server with source := some (source.poll ready).2 } := by
    refine carried.beside rfl rfl rfl rfl rfl ?_
    rw [found]
    exact congrArg some (source.label_poll ready)
  dsimp only
  split
  · exact polled
  · exact carried.trans polled (carried.handle _ _ _)

theorem sessionPublishes : related server server.sessionPublishes := by
  unfold Server.sessionPublishes
  split
  · exact carried.refl server
  next session found =>
  split
  · exact carried.beside rfl rfl rfl rfl rfl rfl
  · next record rest publishing =>
    have taken : related server { server with session := some { session with progress := .publishing rest } } :=
      carried.beside rfl rfl rfl rfl rfl rfl
    exact carried.trans taken (carried.broadcast _ _)
  · exact carried.refl server

theorem sessionFinishes : related server server.sessionFinishes := by
  unfold Server.sessionFinishes
  split
  · exact carried.refl server
  · next session found =>
    have finished : related server { server with session := some session.finish } :=
      carried.beside rfl rfl rfl rfl rfl rfl
    exact carried.trans finished (carried.broadcastAll _ _)

/-- All that is done quietly is carried. -/
theorem operate {operation : Operation} (quiet : operation.isQuiet = true) :
    related server (server.operate operation) := by
  cases operation with
  | connect | transport | start | advance | shutdown => cases quiet
  | typed input =>
    change related server (server.typed fun _ => input)
    unfold Server.typed
    split
    · next source found => exact carried.beside rfl rfl rfl rfl rfl (by rw [found]; rfl)
    · exact carried.refl server
  | clock | sampler | setEnabled | setRate | samples | sessionExpires => exact carried.beside rfl rfl rfl rfl rfl rfl
  | broadcast record => exact carried.broadcast server record
  | handleText text source => exact carried.handle server (.raw text) source
  | handleCommand command source => exact carried.handle server (.parsed command) source
  | dispatch command => exact carried.dispatch server command
  | sessionPublishes => exact carried.sessionPublishes server
  | sessionFinishes => exact carried.sessionFinishes server

end Carried

/-! ## The seats and what has arrived -/

/-- Nobody takes a seat or leaves it, nothing has arrived or been read, and the loop stays where it is. -/
structure Beside (server server' : Server) : Prop where
  roster : server'.roster = server.roster
  loop : server'.loop = server.loop
  terminating : server'.terminating = server.terminating
  stand : server.Stand server'
  input : ∀ peer, server'.input? peer = server.input? peer

theorem beside_of_same {server server' : Server} (peers : server'.peers = server.peers)
    (roster : server'.roster = server.roster) (terminating : server'.terminating = server.terminating)
    (loop : server'.loop = server.loop) : server.Beside server' := by
  refine ⟨roster, loop, terminating, stand_of_same peers, fun peer => ?_⟩
  unfold input?
  rw [peers]

theorem beside_broadcast (server : Server) (record : Json) : server.Beside (server.broadcast record) := by
  cases running : server.terminating with
  | true =>
    rw [broadcast_of_terminating running]
    exact beside_of_same rfl rfl rfl rfl
  | false =>
    have unread : ∀ c : Connection, c.Unread (c.send (payload record)).2 := fun c => c.unread_send _
    rw [broadcast_of_running running, appendLog_eq]
    exact ⟨rfl, rfl, rfl, stand_updateAll server _ fun c => (unread c).toStands,
      input?_updateAll server _ unread⟩

theorem carried_beside : Carried Beside where
  beside peers roster _ terminating loop _ := beside_of_same peers roster terminating loop
  broadcast := beside_broadcast
  trans left right :=
    ⟨right.roster.trans left.roster, right.loop.trans left.loop,
      right.terminating.trans left.terminating, left.stand.trans right.stand,
      fun peer => (right.input peer).trans (left.input peer)⟩

/-! ## The name of the command source -/

/-- The name of the command source, if there is one. -/
def label? (server : Server) : Option String := server.source.map Source.label

theorem carried_label : Carried fun server server' => server'.label? = server.label? where
  beside _ _ _ _ _ label := label
  broadcast server record := congrArg (·.map Source.label) (source_broadcast server record)
  trans left right := right.trans left

theorem label?_leave (server : Server) : server.leave.label? = server.label? :=
  congrArg (·.map Source.label) (source_shutdown server)

theorem label?_serve (server : Server) (peer : Nat) : (server.serve peer).label? = server.label? := by
  unfold serve
  split
  · rfl
  dsimp only
  split
  · split
    · rfl
    · exact carried_label.handle _ (.raw _) _
  · rcases evict_cases (server.setConnection peer _) _ with same | ⟨client, roster, removed, same⟩ <;>
      rw [same] <;> rfl

theorem label?_advance (server : Server) : server.advance.label? = server.label? := by
  unfold advance
  cases server.loop with
  | idle | ended => rfl
  | top =>
    have reaped : server.reap.label? = server.label? := by
      rw [reap_eq]
      rfl
    dsimp only
    split
    · exact label?_leave server
    · split
      · exact reaped
      · exact (label?_leave server.reap).trans reaped
  | held polled => exact congrArg (·.map Source.label) (source_setPhase server .running)
  | woken ready listener source =>
    have dispatching : (server.setPhase .dispatching).label? = server.label? :=
      congrArg (·.map Source.label) (source_setPhase server .dispatching)
    dsimp only
    split
    · exact label?_leave server
    · split
      · refine Eq.trans ?_ dispatching
        rw [acceptAll_eq]
        rfl
      · exact dispatching
  | serving ready source =>
    cases ready with
    | cons peer ready => exact label?_serve _ peer
    | nil => exact carried_label.pollSource _ source

/-- No operation gives the command source another name. -/
theorem label?_operate (server : Server) (operation : Operation) :
    (server.operate operation).label? = server.label? := by
  cases quiet : operation.isQuiet with
  | true => exact carried_label.operate server quiet
  | false =>
    cases operation with
    | connect | transport => rfl
    | start =>
      change server.enterLoop.label? = server.label?
      unfold enterLoop
      split <;> rfl
    | shutdown => exact congrArg (·.map Source.label) (source_shutdown server)
    | advance => exact label?_advance server
    | _ => cases quiet

end Server
end TelemetryHub
