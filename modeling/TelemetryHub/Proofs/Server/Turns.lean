import TelemetryHub.Proofs.Server.Shutdown

/-!
# The turns of the loop

An iteration of the loop gives a turn to each client that was ready, in the order of their slots, and
then to the command source (`isChain_turns`), whatever else is done to the server meanwhile. A client
keeps its slot for good, so that the order in which the clients were noted is still that of their slots
when their turns come (`InOrder`), and the roster notes them in this order since every client is in the
slot of its connection (`Seated`).
-/

namespace TelemetryHub

/-! ## Slots -/

namespace Roster

variable {γ : Type}

theorem get_of_reap {roster : Roster γ} {connected : γ → Bool} {slot : Nat} {client : γ}
    (held : (roster.reap connected).2.get slot = some client) : roster.get slot = some client := by
  unfold reap get at held
  dsimp only at held
  rw [List.getElem?_map] at held
  unfold get
  cases found : roster.slots[slot]? with
  | none => rw [found] at held; cases held
  | some entry =>
    rw [found] at held
    exact (Option.filter_eq_some_iff.mp held).1

theorem get_set {slots : List (Option γ)} {slot other : Nat} {entry : Option γ} {client : γ}
    (held : get ⟨slots.set slot entry⟩ other = some client) :
    slot = other ∧ entry = some client ∨ get ⟨slots⟩ other = some client := by
  unfold get at held ⊢
  dsimp only at held ⊢
  rw [List.getElem?_set] at held
  split at held
  · next here =>
    split at held
    · exact .inl ⟨here, held⟩
    · cases held
  · exact .inr held

theorem get_of_insert {roster roster' : Roster γ} {slot other : Nat} {client client' : γ}
    (inserted : roster.insert slot client = .ok roster')
    (held : roster'.get other = some client') :
    slot = other ∧ client = client' ∨ roster.get other = some client' := by
  unfold insert at inserted
  split at inserted
  · cases inserted
    exact (get_set held).imp_left fun ⟨here, same⟩ => ⟨here, Option.some.inj same⟩
  · cases inserted
  · cases inserted

theorem get_empty (capacity slot : Nat) : (empty capacity : Roster γ).get slot = none := by
  unfold get empty
  dsimp only
  rw [List.getElem?_replicate]
  split <;> rfl

end Roster

namespace Server

/-- The slot of a peer, if it is a client. -/
def slot? (server : Server) (peer : Nat) : Option Nat := (server.connection? peer).map Connection.slot

theorem slot?_updateAll (server : Server) (clients : List Nat) {change : Connection → Connection}
    (keeps : ∀ c : Connection, (change c).slot = c.slot) (peer : Nat) :
    (server.updateAll clients change).slot? peer = server.slot? peer := by
  have changed : ∀ other : Peer, (other.update change).connection?.map Connection.slot =
      other.connection?.map Connection.slot := by
    intro other
    rw [Peer.connection?_update, Option.map_map]
    exact congrArg (other.connection?.map ·) (funext keeps)
  have folded : ∀ (clients : List Nat) (peers : List Peer),
      ((clients.foldl (fun peers peer => peers.modify peer (Peer.update change)) peers)[peer]?.bind
        Peer.connection?).map Connection.slot = (peers[peer]?.bind Peer.connection?).map Connection.slot := by
    intro clients
    induction clients with
    | nil => exact fun _ => rfl
    | cons client clients ih =>
      intro peers
      rw [List.foldl_cons, ih, List.getElem?_modify]
      cases peers[peer]? with
      | none => rfl
      | some other =>
        by_cases here : client = peer
        · simp only [here, if_true]
          exact changed other
        · simp only [here, if_false]
          rfl
  exact folded clients server.peers

/-- A step leaves the slots of all peers, unless it accepts one. -/
theorem slot?_perform (server : Server) {step : Step} (notAccept : ∀ peer, step ≠ .accept peer)
    (peer : Nat) : (server.perform step).slot? peer = server.slot? peer := by
  cases step with
  | connect input acceptance => exact congrArg (·.map Connection.slot) (connection?_connect server _ peer)
  | transport target input acceptance =>
    unfold slot?
    rw [show (server.perform (.transport target input acceptance)).connection? peer = _ from
      connection?_modifySocket server target _ peer, Option.map_map]
    congr 1
    funext c
    simp only [Function.comp]
    split <;> rfl
  | accept target => exact absurd rfl (notAccept target)
  | broadcast record =>
    change (server.broadcast record).slot? peer = server.slot? peer
    cases running : server.terminating with
    | true => rw [broadcast_of_terminating running]
    | false =>
      rw [broadcast_of_running running]
      unfold slot?
      rw [connection?_appendLog]
      exact slot?_updateAll server _ (fun c => c.slot_send _) peer
  | receive target =>
    change (server.modifyConnection target fun connection => connection.receive.2).slot? peer = _
    rw [modifyConnection_eq]
    exact slot?_updateAll server _ Connection.slot_receive peer
  | reap =>
    change server.reap.slot? peer = server.slot? peer
    rw [reap_eq]
    exact slot?_updateAll _ _ Connection.slot_close peer
  | evict slot =>
    change (server.evict slot).slot? peer = server.slot? peer
    rcases evict_cases server slot with same | ⟨client, roster, removed, same⟩ <;> rw [same]
    exact slot?_updateAll _ _ Connection.slot_close peer
  | log body source foreign => exact congrArg (·.map Connection.slot) (connection?_appendLog server _ _ peer)
  | shutdown =>
    change server.shutdown.slot? peer = server.slot? peer
    cases running : server.terminating with
    | true => rw [shutdown_of_terminating running]
    | false =>
      rw [shutdown_of_running running]
      exact slot?_updateAll _ _ Connection.slot_close peer
  | elsewhere other foreign => rfl

/-- An acceptance gives a peer a slot that had none. -/
theorem slot?_acceptOne (server : Server) (target peer : Nat) :
    (server.acceptOne target).slot? peer = server.slot? peer ∨
      peer = target ∧ server.slot? peer = none := by
  rcases acceptOne_cases server target with same | ⟨socket, waits, same⟩ |
    ⟨socket, slot, roster, waits, inserted, same⟩ <;> rw [same]
  · exact .inl rfl
  all_goals
    by_cases here : target = peer
    · refine .inr ⟨here.symm, ?_⟩
      unfold slot?
      rw [← here, connection?_of_waiting waits]
      rfl
    · left
      unfold slot?
      first
      | rw [connection?_settle server waits, if_neg here]
      | rw [connection?_settle { server with roster } waits, if_neg here]; rfl

theorem slot?_acceptOne_of_some {server : Server} {peer slot : Nat} (has : server.slot? peer = some slot)
    (target : Nat) : (server.acceptOne target).slot? peer = some slot := by
  rcases slot?_acceptOne server target peer with same | ⟨-, none⟩
  · exact same.trans has
  · cases none.symm.trans has

/-- Whoever has a slot keeps it. -/
theorem Evolves.slot? {server server' : Server} (evolves : server.Evolves server') {peer slot : Nat}
    (has : server.slot? peer = some slot) : server'.slot? peer = some slot := by
  induction evolves with
  | beside peers =>
    unfold Server.slot? connection? at has ⊢
    rw [peers]
    exact has
  | step server step =>
    cases step with
    | accept target =>
      change (if server.listening then server.acceptOne target else server).slot? peer = some slot
      split
      · exact slot?_acceptOne_of_some has target
      · exact has
    | _ => exact (slot?_perform server (by nofun) peer).trans has
  | trans _ _ first second => exact second (first has)

/-! ## Seats -/

/-- Whoever is in a slot of the roster is a client with this slot. -/
def Seated (server : Server) : Prop :=
  ∀ slot peer, server.roster.get slot = some peer → server.slot? peer = some slot

theorem seated_new (capacity : Nat) (log : Option Log) (source : Option Source)
    (sampler : Option Sampler) (deadline : Deadline) (now : String) :
    (new capacity log source sampler deadline now).Seated := by
  intro slot peer held
  rw [show (new capacity log source sampler deadline now).roster.get slot = none from
    Roster.get_empty capacity slot] at held
  cases held

theorem Seated.acceptOne {server : Server} (seated : server.Seated) (target : Nat) :
    (server.acceptOne target).Seated := by
  intro slot peer held
  have kept : server.roster.get slot = some peer → (server.acceptOne target).slot? peer = some slot :=
    fun held => slot?_acceptOne_of_some (seated slot peer held) target
  rcases acceptOne_cases server target with same | ⟨socket, waits, same⟩ |
    ⟨socket, free, roster, waits, inserted, same⟩ <;> rw [same] at held
  · exact kept held
  · exact kept held
  · rcases Roster.get_of_insert inserted held with ⟨rfl, rfl⟩ | before
    · have settled := connection?_settle { server with roster } waits
        (.accepted (.new free socket)) target
      rw [same]
      unfold Server.slot?
      rw [settled, if_pos rfl]
      rfl
    · exact kept before

/-- A step puts nobody into the roster, unless it accepts a peer. -/
theorem get_roster_of_perform {server : Server} {step : Step} (notAccept : ∀ peer, step ≠ .accept peer)
    {slot peer : Nat} (held : (server.perform step).roster.get slot = some peer) :
    server.roster.get slot = some peer := by
  cases step with
  | accept target => exact absurd rfl (notAccept target)
  | broadcast record =>
    change (server.broadcast record).roster.get slot = some peer at held
    cases running : server.terminating with
    | true =>
      rw [broadcast_of_terminating running] at held
      exact held
    | false =>
      rw [broadcast_of_running running, appendLog_eq] at held
      exact held
  | receive target =>
    change (server.modifyConnection target fun connection => connection.receive.2).roster.get slot = _ at held
    rw [modifyConnection_eq] at held
    exact held
  | reap =>
    change server.reap.roster.get slot = _ at held
    rw [reap_eq] at held
    exact Roster.get_of_reap held
  | evict target =>
    change (server.evict target).roster.get slot = _ at held
    rcases evict_cases server target with same | ⟨client, roster, removed, same⟩ <;> rw [same] at held
    · exact held
    · rw [Roster.remove_of_get (Roster.get_of_remove removed)] at removed
      cases removed
      rcases Roster.get_set held with ⟨-, none⟩ | before
      · cases none
      · exact before
  | log body source foreign =>
    change (server.appendLog body source).roster.get slot = _ at held
    rw [appendLog_eq] at held
    exact held
  | shutdown =>
    change server.shutdown.roster.get slot = _ at held
    cases running : server.terminating with
    | true =>
      rw [shutdown_of_terminating running] at held
      exact held
    | false =>
      rw [shutdown_of_running running] at held
      cases (Roster.get_empty server.roster.capacity slot).symm.trans held
  | connect | transport | elsewhere => exact held

theorem Seated.perform {server : Server} (seated : server.Seated) (step : Step) :
    (server.perform step).Seated := by
  cases step with
  | accept target =>
    change (if server.listening then server.acceptOne target else server).Seated
    split
    · exact seated.acceptOne target
    · exact seated
  | _ =>
    intro slot peer held
    rw [slot?_perform server (by nofun)]
    exact seated slot peer (get_roster_of_perform (by nofun) held)

theorem Seated.evolve {server server' : Server} (seated : server.Seated)
    (evolves : server.Evolves server') : server'.Seated := by
  induction evolves with
  | beside peers roster =>
    intro slot peer held
    rw [roster] at held
    have has := seated slot peer held
    unfold Server.slot? connection? at has ⊢
    rw [peers]
    exact has
  | step server step => exact seated.perform step
  | trans _ _ first second => exact second (first seated)

/-! ## Clients in the order of their slots -/

/-- The peers are clients in the order of their slots, the first of which is at least `least`. -/
inductive InOrder (server : Server) : Nat → List Nat → Prop where
  | nil {least : Nat} : InOrder server least []
  | cons {least slot peer : Nat} {peers : List Nat} (has : server.slot? peer = some slot)
    (high : least ≤ slot) (others : InOrder server (slot + 1) peers) :
    InOrder server least (peer :: peers)

theorem InOrder.mono {server : Server} {least lower : Nat} {peers : List Nat}
    (order : server.InOrder least peers) (less : lower ≤ least) : server.InOrder lower peers := by
  cases order with
  | nil => exact .nil
  | cons has high others => exact .cons has (Nat.le_trans less high) others

theorem InOrder.sublist {server : Server} {least : Nat} {peers fewer : List Nat}
    (order : server.InOrder least peers) (sublist : fewer.Sublist peers) : server.InOrder least fewer := by
  induction sublist generalizing least with
  | slnil => exact .nil
  | cons peer _ ih =>
    cases order with
    | cons has high others =>
      exact ih (others.mono (Nat.le_trans high (Nat.le_succ _)))
  | cons_cons peer _ ih =>
    cases order with
    | cons has high others => exact .cons has high (ih others)

theorem InOrder.evolve {server server' : Server} {least : Nat} {peers : List Nat}
    (order : server.InOrder least peers) (evolves : server.Evolves server') :
    server'.InOrder least peers := by
  induction order with
  | nil => exact .nil
  | cons has high _ ih => exact .cons (evolves.slot? has) high ih

/-- The clients of the roster are in the order of their slots, and so are those that are connected. -/
theorem Seated.inOrder_connected {server : Server} (seated : server.Seated) :
    server.InOrder 0 server.connected := by
  have behind : ∀ (slots : List (Option Nat)) (least : Nat),
      (∀ i peer, slots[i]? = some (some peer) → server.slot? peer = some (least + i)) →
        server.InOrder least (slots.filterMap id) := by
    intro slots
    induction slots with
    | nil => exact fun _ _ => .nil
    | cons entry slots ih =>
      intro least held
      have others : server.InOrder (least + 1) (slots.filterMap id) := by
        refine ih (least + 1) fun i peer found => ?_
        rw [Nat.add_right_comm]
        exact held (i + 1) peer found
      cases entry with
      | none => exact others.mono (Nat.le_succ least)
      | some peer => exact .cons (held 0 peer rfl) (Nat.le_refl least) others
  refine InOrder.sublist (behind server.roster.slots 0 fun i peer found => ?_) List.filter_sublist
  rw [Nat.zero_add]
  refine seated i peer ?_
  unfold Roster.get
  rw [found]
  rfl

/-! ## Turns -/

/-- What the loop comes to: the start of an iteration, a client, or the command source. -/
inductive Turn where
  | begins
  | client (slot : Nat)
  /-- The turn of the command source with this label, if there is one. -/
  | source (label : Option String)

namespace Turn

/-- The name of those whose turn it is, as it stands in the log. -/
def origin? : Turn → Option String
  | begins => none
  | client slot => some (clientName slot)
  | source label => label

/-- Which turn may be next: an iteration begins, clients have their turns in the order of their slots,
and the command source comes last. -/
inductive Next : Turn → Turn → Prop where
  | first (slot : Nat) : Next begins (client slot)
  | alone (label : Option String) : Next begins (source label)
  | later {slot slot' : Nat} (higher : slot < slot') : Next (client slot) (client slot')
  | last (slot : Nat) (label : Option String) : Next (client slot) (source label)
  | again (label : Option String) : Next (source label) begins

end Turn

/-- The turn that a step of the loop takes, if any. -/
def turn? (server : Server) : Option Turn :=
  match server.loop with
  | .top => if server.terminating then none else some .begins
  | .serving (peer :: _) _ => (server.slot? peer).map .client
  | .serving [] _ => some (.source (server.source.map Source.label))
  | _ => none

/-- The turns that the loop takes over operations. -/
def turns (server : Server) : List Operation → List Turn
  | [] => []
  | .advance :: operations => server.turn?.toList ++ server.advance.turns operations
  | operation :: operations => (server.operate operation).turns operations

/-- What the loop is about to do agrees with its last turn. -/
inductive InTurn (server : Server) : LoopPoint → Option Turn → Prop where
  | idle : InTurn server .idle none
  | start : InTurn server .top none
  | again {label : Option String} : InTurn server .top (some (.source label))
  | held {polled : List Nat} (order : server.InOrder 0 polled) :
    InTurn server (.held polled) (some .begins)
  | woken {ready : List Nat} {listener source : Bool} (order : server.InOrder 0 ready) :
    InTurn server (.woken ready listener source) (some .begins)
  | first {ready : List Nat} {source : Bool} (order : server.InOrder 0 ready) :
    InTurn server (.serving ready source) (some .begins)
  | next {slot : Nat} {ready : List Nat} {source : Bool} (order : server.InOrder (slot + 1) ready) :
    InTurn server (.serving ready source) (some (.client slot))
  | ended {turn : Option Turn} : InTurn server .ended turn

theorem InTurn.evolve {server server' : Server} {point : LoopPoint} {last : Option Turn}
    (inTurn : server.InTurn point last) (evolves : server.Evolves server') : server'.InTurn point last := by
  cases inTurn with
  | idle => exact .idle
  | start => exact .start
  | again => exact .again
  | held order => exact .held (order.evolve evolves)
  | woken order => exact .woken (order.evolve evolves)
  | first order => exact .first (order.evolve evolves)
  | next order => exact .next (order.evolve evolves)
  | ended => exact .ended

/-- **Step**: the turn that a step of the loop takes is one that may be next, and what the loop is about
to do then agrees with it. -/
theorem Seated.inTurn_advance {server : Server} (seated : server.Seated) {last : Option Turn}
    (inTurn : server.InTurn server.loop last) :
    server.advance.InTurn server.advance.loop (server.turn?.or last) ∧
      ∀ turn, server.turn? = some turn → ∀ earlier, last = some earlier → Turn.Next earlier turn := by
  have step := server.advanced
  have evolves := server.evolves_advance
  unfold turn?
  generalize atPoint : server.loop = point at step inTurn ⊢
  generalize server.advance = server' at step evolves ⊢
  cases step with
  | idle | ended =>
    rw [atPoint]
    exact ⟨inTurn, nofun⟩
  | late ending =>
    rw [if_pos ending]
    exact ⟨.ended, nofun⟩
  | deaf running | begins running =>
    rw [if_neg (Bool.eq_false_iff.mp running)]
    refine ⟨?_, fun turn now earlier before => ?_⟩
    · first
      | exact .ended
      | exact .held ((seated.evolve (within_reap server).evolves).inOrder_connected.evolve
          (evolves_setLoop _ _))
    · cases now
      cases inTurn with
      | start => cases before
      | again => cases before; exact .again _
  | wakes fewer =>
    cases inTurn with
    | held order => exact ⟨.woken ((order.sublist fewer).evolve evolves), nofun⟩
  | cut => exact ⟨.ended, nofun⟩
  | turns =>
    cases inTurn with
    | woken order => exact ⟨.first (order.evolve evolves), nofun⟩
  | @serves peer ready source =>
    have stays := (within_serve { server with loop := .serving ready source } peer).loop
    rw [stays]
    cases inTurn with
    | first order =>
      cases order with
      | cons has high others =>
        simp only [has, Option.map_some, Option.some_or]
        refine ⟨.next (others.evolve evolves), fun turn now earlier before => ?_⟩
        cases now
        cases before
        exact .first _
    | next order =>
      cases order with
      | cons has high others =>
        simp only [has, Option.map_some, Option.some_or]
        refine ⟨.next (others.evolve evolves), fun turn now earlier before => ?_⟩
        cases now
        cases before
        exact .later high
  | @polls source =>
    have stays := (within_pollSource { server with loop := .top } source).loop
    rw [stays]
    refine ⟨.again, fun turn now earlier before => ?_⟩
    cases now
    cases inTurn with
    | first => cases before; exact .alone _
    | next => cases before; exact .last _ _

/-- What is done beside the loop leaves it in turn. -/
theorem InTurn.operate {server : Server} {last : Option Turn} (inTurn : server.InTurn server.loop last)
    {operation : Operation} (beside : operation ≠ .advance) :
    (server.operate operation).InTurn (server.operate operation).loop last := by
  have evolves := evolves_operate server operation
  cases moves : operation.moves with
  | false =>
    rw [(within_operate server moves).loop]
    exact inTurn.evolve evolves
  | true =>
    cases operation with
    | clock now => exact inTurn.evolve evolves
    | start =>
      change server.enterLoop.InTurn server.enterLoop.loop last
      unfold enterLoop
      split
      · next idle =>
        rw [idle] at inTurn
        cases inTurn with
        | idle => exact .start
      · exact inTurn
    | advance => exact absurd rfl beside
    | shutdown =>
      have loop : server.shutdown.loop = server.loop := by
        cases running : server.terminating with
        | true => rw [shutdown_of_terminating running]
        | false => rw [shutdown_of_running running]; rfl
      change server.shutdown.InTurn server.shutdown.loop last
      rw [loop]
      exact inTurn.evolve evolves
    | _ => cases moves

/-- **Run**: the turns of the loop follow each other, whatever else is done to the server. -/
theorem Seated.isChain_turns {server : Server} (seated : server.Seated) {last : Option Turn}
    (inTurn : server.InTurn server.loop last) (operations : List Operation) :
    List.IsChain Turn.Next (last.toList ++ server.turns operations) := by
  induction operations generalizing server last with
  | nil => cases last <;> simp [turns]
  | cons operation operations ih =>
    have seated' := seated.evolve (evolves_operate server operation)
    by_cases turn : operation = .advance
    · rw [turn] at seated' ⊢
      obtain ⟨inTurn', next⟩ := seated.inTurn_advance inTurn
      have others := ih seated' inTurn'
      change List.IsChain Turn.Next
        (last.toList ++ (server.turn?.toList ++ server.advance.turns operations))
      cases now : server.turn? with
      | none =>
        rw [now] at others
        exact others
      | some turn =>
        rw [now] at others
        cases last with
        | none => exact others
        | some earlier => exact .cons_cons (next turn now earlier rfl) others
    · have rest : server.turns (operation :: operations) = (server.operate operation).turns operations := by
        cases operation with
        | advance => exact absurd rfl turn
        | _ => rfl
      rw [rest]
      exact ih seated' (inTurn.operate turn)

end Server
end TelemetryHub
