import TelemetryHub.Proofs.Net.Connections
import TelemetryHub.Proofs.Server.Steps

/-!
# Clients

A change of a connection either keeps what has been written and lets nobody come back
(`Connection.Keeps`), or it is a payload, of which a whole or a part is written. Loops over clients
are changes of all their connections at once (`Server.updateAll`), and changes of the roster are seen
on the list of its clients.
-/

namespace TelemetryHub

/-! ## Connections -/

namespace Connection

/-- What has been written to the client. -/
def sent (c : Connection) : List UInt8 := c.socket.output.sent

/-- Nothing has been written, and a client that was gone has not come back. -/
structure Keeps (c c' : Connection) : Prop where
  sent : c'.sent = c.sent
  back : c'.isConnected = true → c.isConnected = true

theorem keeps_refl (c : Connection) : Keeps c c := ⟨rfl, id⟩

theorem isConnected_close (c : Connection) : c.close.isConnected = false := by
  rw [not_isConnected_iff, phase_close]
  exact nofun

theorem keeps_close (c : Connection) : Keeps c c.close := by
  refine ⟨congrArg (·.output.sent) c.socket_close, fun connected => ?_⟩
  rw [isConnected_close] at connected
  cases connected

theorem keeps_receive (c : Connection) : Keeps c c.receive.2 := by
  have receives := c.receives
  generalize c.receive = result at receives ⊢
  cases receives with
  | refused => exact keeps_refl c
  | gives connected | waits connected | ends connected | breaks connected => exact ⟨rfl, fun _ => connected⟩

/-- A payload is written as a whole, or less of it is written and the client is gone. -/
theorem send_of_connected {c : Connection} (connected : c.isConnected = true)
    (payload : List UInt8) :
    (c.send payload).2.isConnected = true ∧ (c.send payload).2.sent = c.sent ++ payload ∨
      (c.send payload).2.isConnected = false ∧ ∃ taken, taken <+: payload ∧
        taken.length < payload.length ∧ (c.send payload).2.sent = c.sent ++ taken := by
  have taken := c.socket.output.write_taken payload
  have sends := c.sends payload
  generalize c.send payload = result at sends ⊢
  cases sends with
  | refused gone => exact absurd (connected.symm.trans gone) nofun
  | writes _ write =>
    rw [write] at taken
    rcases taken with ⟨output, written, same⟩ | ⟨failure, output, front, written, -⟩
    · cases written
      exact .inl ⟨connected, same⟩
    · cases written
  | breaks _ write =>
    rw [write] at taken
    rcases taken with ⟨output, written, -⟩ | ⟨failure, output, front, written, isFront, short, same⟩
    · cases written
    · cases written
      exact .inr ⟨rfl, front, isFront, short, same⟩

end Connection

/-! ## Changes of connections -/

/-- Change the connection of a peer, if it is a client. -/
def Peer.update (change : Connection → Connection) : Peer → Peer
  | .accepted connection => .accepted (change connection)
  | .waiting socket => .waiting socket
  | .rejected socket => .rejected socket

theorem Peer.connection?_update (change : Connection → Connection) (peer : Peer) :
    (peer.update change).connection? = peer.connection?.map change := by
  cases peer <;> rfl

theorem Peer.update_eq_waiting {change : Connection → Connection} {peer : Peer} {socket : Socket}
    (same : peer.update change = .waiting socket) : peer = .waiting socket := by
  cases peer <;> cases same
  rfl

namespace Server

theorem isConnected_eq (server : Server) (peer : Nat) :
    server.isConnected peer = (server.connection? peer).any Connection.isConnected := by
  unfold isConnected connection?
  cases server.peers[peer]? <;> rfl

theorem isConnected_of_some {server : Server} {peer : Nat} {c : Connection}
    (found : server.connection? peer = some c) : server.isConnected peer = c.isConnected := by
  rw [isConnected_eq, found]
  rfl

/-- Change the connections of clients. -/
def updateAll (server : Server) (clients : List Nat) (change : Connection → Connection) : Server :=
  { server with
    peers := clients.foldl (fun peers peer => peers.modify peer (Peer.update change)) server.peers }

theorem modifyConnection_eq (server : Server) (peer : Nat) (change : Connection → Connection) :
    server.modifyConnection peer change = server.updateAll [peer] change := by
  have same : ∀ peers, server.peers.modify peer (Peer.update change) = peers →
      server.updateAll [peer] change = { server with peers } := by
    rintro peers rfl
    rfl
  unfold modifyConnection connection?
  cases found : server.peers[peer]? with
  | none =>
    rw [same server.peers (List.ext_getElem? fun i => ?_)]
    · rfl
    · rw [List.getElem?_modify]
      by_cases here : peer = i
      · rw [← here, found]
        rfl
      · simp [here]
  | some other =>
    cases other with
    | accepted c =>
      rw [same (server.peers.set peer (.accepted (change c))) (List.ext_getElem? fun i => ?_)]
      · rfl
      · rw [List.getElem?_modify, List.getElem?_set]
        by_cases here : peer = i
        · rw [← here, found]
          have within := (List.getElem?_eq_some_iff.mp found).1
          simp [within, Peer.update]
        · simp [here]
    | _ =>
      rw [same server.peers (List.ext_getElem? fun i => ?_)]
      · rfl
      · rw [List.getElem?_modify]
        by_cases here : peer = i
        · rw [← here, found]
          simp [Peer.update]
        · simp [here]

theorem foldl_modifyConnection (clients : List Nat) (server : Server)
    (change : Connection → Connection) :
    clients.foldl (fun server peer => server.modifyConnection peer change) server =
      server.updateAll clients change := by
  induction clients generalizing server with
  | nil => rfl
  | cons peer clients ih =>
    rw [List.foldl_cons, ih, modifyConnection_eq]
    rfl

theorem length_updateAll (server : Server) (clients : List Nat) (change : Connection → Connection) :
    (server.updateAll clients change).peers.length = server.peers.length := by
  have folded : ∀ (clients : List Nat) (peers : List Peer),
      (clients.foldl (fun peers peer => peers.modify peer (Peer.update change)) peers).length =
        peers.length := by
    intro clients
    induction clients with
    | nil => exact fun _ => rfl
    | cons peer clients ih =>
      intro peers
      rw [List.foldl_cons, ih, List.length_modify]
  exact folded clients server.peers

theorem getElem?_updateAll (server : Server) {clients : List Nat} (distinct : clients.Nodup)
    (change : Connection → Connection) (i : Nat) :
    (server.updateAll clients change).peers[i]? =
      if i ∈ clients then server.peers[i]?.map (Peer.update change) else server.peers[i]? := by
  have folded : ∀ (clients : List Nat) (peers : List Peer), clients.Nodup →
      (clients.foldl (fun peers peer => peers.modify peer (Peer.update change)) peers)[i]? =
        if i ∈ clients then peers[i]?.map (Peer.update change) else peers[i]? := by
    intro clients
    induction clients with
    | nil => simp
    | cons peer clients ih =>
      intro peers distinct
      obtain ⟨notIn, distinct⟩ := List.nodup_cons.mp distinct
      rw [List.foldl_cons, ih _ distinct, List.getElem?_modify]
      by_cases here : peer = i
      · rw [← here]
        simp [notIn]
      · have other : i ≠ peer := fun same => here same.symm
        simp [here, other]
  exact folded clients server.peers distinct

theorem connection?_updateAll (server : Server) {clients : List Nat} (distinct : clients.Nodup)
    (change : Connection → Connection) (i : Nat) :
    (server.updateAll clients change).connection? i =
      if i ∈ clients then (server.connection? i).map change else server.connection? i := by
  unfold connection?
  rw [getElem?_updateAll server distinct]
  split
  · cases server.peers[i]? with
    | none => rfl
    | some peer => exact peer.connection?_update change
  · rfl

theorem waiting_of_updateAll {server : Server} {clients : List Nat} (distinct : clients.Nodup)
    {change : Connection → Connection} {i : Nat} {socket : Socket}
    (waits : (server.updateAll clients change).peers[i]? = some (.waiting socket)) :
    server.peers[i]? = some (.waiting socket) := by
  rw [getElem?_updateAll server distinct] at waits
  split at waits
  · obtain ⟨peer, found, same⟩ := Option.map_eq_some_iff.mp waits
    rw [found, Peer.update_eq_waiting same]
  · exact waits

end Server

/-! ## The roster -/

namespace Roster

variable {γ : Type}

theorem filterMap_id_cons (slot : Option γ) (slots : List (Option γ)) :
    (slot :: slots).filterMap id = slot.toList ++ slots.filterMap id := by
  cases slot <;> rfl

theorem toList_keep (connected : γ → Bool) (slot : Option γ) :
    (keep connected slot).toList = slot.toList.filter connected := by
  cases slot with
  | none => rfl
  | some client => cases stays : connected client <;> simp [keep, Option.filter, stays]

theorem clients_keep (roster : Roster γ) (connected : γ → Bool) :
    (roster.reap connected).2.clients = roster.clients.filter connected := by
  obtain ⟨slots⟩ := roster
  change (slots.map (keep connected)).filterMap id = (slots.filterMap id).filter connected
  induction slots with
  | nil => rfl
  | cons slot slots ih =>
    rw [List.map_cons, filterMap_id_cons, filterMap_id_cons, List.filter_append, toList_keep, ih]

/-- Only the client of one slot changes when the slot is set. -/
theorem clients_set {slots : List (Option γ)} {slot : Nat} {old : Option γ}
    (found : slots[slot]? = some old) (new : Option γ) :
    ∃ before behind, (Roster.mk slots).clients = before ++ (old.toList ++ behind) ∧
      (Roster.mk (slots.set slot new)).clients = before ++ (new.toList ++ behind) := by
  obtain ⟨within, same⟩ := List.getElem?_eq_some_iff.mp found
  have split : slots = slots.take slot ++ old :: slots.drop (slot + 1) := by
    rw [← same, List.getElem_cons_drop, List.take_append_drop]
  refine ⟨(slots.take slot).filterMap id, (slots.drop (slot + 1)).filterMap id, ?_, ?_⟩
  · rw [← filterMap_id_cons, ← List.filterMap_append, ← split]
    rfl
  · rw [← filterMap_id_cons, ← List.filterMap_append]
    simp only [clients, List.set_eq_take_append_cons_drop, within, if_true]

theorem slots_of_get {roster : Roster γ} {slot : Nat} {client : γ}
    (found : roster.get slot = some client) : roster.slots[slot]? = some (some client) := by
  unfold get at found
  cases held : roster.slots[slot]? with
  | none => rw [held] at found; cases found
  | some entry => rw [held] at found; exact congrArg some found

theorem get_of_remove {roster after : Roster γ} {slot : Nat} {client : γ}
    (removed : roster.remove slot = .ok (client, after)) : roster.get slot = some client := by
  unfold remove at removed
  split at removed
  · next taken found =>
    cases removed
    exact found
  · cases removed

theorem remove_of_get {roster : Roster γ} {slot : Nat} {client : γ}
    (found : roster.get slot = some client) :
    roster.remove slot = .ok (client, ⟨roster.slots.set slot none⟩) := by
  unfold remove
  rw [found]

/-- The client that is taken out of a slot is the only one that goes. -/
theorem clients_remove {roster after : Roster γ} {slot : Nat} {client : γ}
    (removed : roster.remove slot = .ok (client, after)) :
    ∃ before behind, roster.clients = before ++ client :: behind ∧ after.clients = before ++ behind := by
  have found := get_of_remove removed
  rw [remove_of_get found] at removed
  cases removed
  exact clients_set (slots_of_get found) none

/-- The client that is put into a slot is the only one that comes. -/
theorem clients_insert {roster after : Roster γ} {slot : Nat} {client : γ}
    (inserted : roster.insert slot client = .ok after) :
    ∃ before behind, roster.clients = before ++ behind ∧ after.clients = before ++ client :: behind := by
  unfold insert at inserted
  split at inserted
  · next found =>
    cases inserted
    exact clients_set found (some client)
  · cases inserted
  · cases inserted

end Roster

end TelemetryHub
