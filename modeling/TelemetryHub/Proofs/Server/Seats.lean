import TelemetryHub.Proofs.Server.Frames
import TelemetryHub.Proofs.Server.Isolation

/-!
# The seats of the clients

A client has one slot from its acceptance until it is taken out, and no other client has it meanwhile.
What an operation does to the roster is said once (`Reseats`): the clients that have gone are taken out
at the start of an iteration, the peers that wait get the free slots when the loop has woken
(`Admits`), a client that has nothing more to say is taken out in its turn, and the shutdown takes
everybody out. The loop holds on to clients between these moments; it only ever holds clients that are
in their slots (`Housed.pending`), so that nobody is taken out in another's place.
-/

namespace TelemetryHub

/-! ## Free slots -/

namespace Roster

variable {γ : Type} {roster : Roster γ}

/-- The free slots, the lowest first. -/
def free (roster : Roster γ) : List Nat :=
  (List.range roster.capacity).filter fun slot => (roster.get slot).isNone

theorem nodup_free : roster.free.Nodup := List.nodup_range.filter _

theorem mem_free {slot : Nat} : slot ∈ roster.free ↔ slot < roster.capacity ∧ roster.get slot = none := by
  simp [free]

/-- All lower slots are taken. -/
theorem taken_below {slot : Nat} {others : List Nat} (free : roster.free = slot :: others) {lower : Nat}
    (below : lower < slot) : roster.get lower ≠ none := by
  have first : roster.free.head? = some slot := by rw [free]; rfl
  unfold Roster.free at first
  rw [List.head?_filter, List.find?_range_eq_some] at first
  intro vacant
  have taken := first.2.2 lower below
  rw [vacant] at taken
  cases taken

theorem get_slots_set {slot : Nat} (within : slot < roster.capacity) (entry : Option γ) (other : Nat) :
    get ⟨roster.slots.set slot entry⟩ other = if slot = other then entry else roster.get other := by
  unfold get
  dsimp only
  rw [List.getElem?_set]
  split
  · next here =>
    rw [if_pos (show slot < roster.slots.length from within)]
    rfl
  · rfl

/-- The slot that is given away is the lowest free one. -/
theorem vacant_of_free {slot : Nat} {others : List Nat} (free : roster.free = slot :: others) :
    roster.vacant = .ok slot := by
  have isFree := mem_free.mp (free ▸ List.mem_cons_self : slot ∈ roster.free)
  have within : slot < roster.slots.length := isFree.1
  have entry : ∀ {i : Nat} (bound : i < roster.slots.length),
      roster.slots[i].isNone = (roster.get i).isNone := by
    intro i bound
    unfold get
    rw [List.getElem?_eq_getElem bound]
    rfl
  have found : roster.slots.findIdx Option.isNone = slot := by
    rw [List.findIdx_eq within, entry within, isFree.2]
    refine ⟨rfl, fun lower below => ?_⟩
    rw [entry]
    cases held : roster.get lower with
    | none => exact absurd held (taken_below free below)
    | some _ => rfl
  unfold vacant
  dsimp only
  rw [found, if_pos isFree.1]

theorem vacant_of_full (full : roster.free = []) : roster.vacant = .error (.full roster.capacity) := by
  unfold vacant
  dsimp only
  split
  · next within =>
    have isNone := List.findIdx_getElem (w := within)
    have isFree : roster.slots.findIdx Option.isNone ∈ roster.free := by
      refine mem_free.mpr ⟨within, ?_⟩
      unfold get
      rw [List.getElem?_eq_getElem within, Option.isNone_iff_eq_none.mp isNone]
      rfl
    rw [full] at isFree
    cases isFree
  · rfl

theorem free_of_vacant {slot : Nat} (vacant : roster.vacant = .ok slot) :
    ∃ others, roster.free = slot :: others := by
  cases free : roster.free with
  | nil =>
    rw [vacant_of_full free] at vacant
    cases vacant
  | cons first others =>
    rw [vacant_of_free free] at vacant
    cases vacant
    exact ⟨others, rfl⟩

/-- The slot that is given away is the lowest free one, and a client can be put into it. -/
theorem lowest_of_vacant {slot : Nat} (vacant : roster.vacant = .ok slot) :
    slot < roster.capacity ∧ roster.get slot = none ∧ (∀ lower < slot, roster.get lower ≠ none) ∧
      ∀ client, ∃ after, roster.insert slot client = .ok after := by
  obtain ⟨others, free⟩ := free_of_vacant vacant
  obtain ⟨within, isFree⟩ := mem_free.mp (free ▸ List.mem_cons_self : slot ∈ roster.free)
  exact ⟨within, isFree, fun lower below => taken_below free below,
    fun client => ⟨_, insert_vacant vacant client⟩⟩

/-- Whoever gets the lowest free slot leaves the others. -/
theorem free_set {slot : Nat} {others : List Nat} (free : roster.free = slot :: others) (client : γ) :
    Roster.free ⟨roster.slots.set slot (some client)⟩ = others := by
  have isFree := mem_free.mp (free ▸ List.mem_cons_self : slot ∈ roster.free)
  have notOthers : slot ∉ others := (List.nodup_cons.mp (free ▸ nodup_free)).1
  have capacity : Roster.capacity ⟨roster.slots.set slot (some client)⟩ = roster.capacity :=
    List.length_set
  have without : Roster.free ⟨roster.slots.set slot (some client)⟩ =
      roster.free.filter fun other => other != slot := by
    unfold Roster.free
    rw [capacity, List.filter_filter]
    refine List.filter_congr fun other _ => ?_
    rw [get_slots_set isFree.1]
    by_cases here : slot = other
    · simp [here]
    · have other' : other ≠ slot := fun same => here same.symm
      simp [here, other']
  rw [without, free, List.filter_cons, if_neg (by simp)]
  exact List.filter_eq_self.mpr fun other isIn => bne_iff_ne.mpr fun same => notOthers (same ▸ isIn)

theorem get_reap (roster : Roster γ) (connected : γ → Bool) (slot : Nat) :
    (roster.reap connected).2.get slot = (roster.get slot).filter connected := by
  unfold reap get
  dsimp only
  rw [List.getElem?_map]
  cases roster.slots[slot]? <;> rfl

theorem mem_clients_of_get {slot : Nat} {client : γ} (held : roster.get slot = some client) :
    client ∈ roster.clients :=
  List.mem_filterMap.mpr ⟨some client, List.mem_of_getElem? (slots_of_get held), rfl⟩

theorem exists_get_of_mem_clients {client : γ} (isIn : client ∈ roster.clients) :
    ∃ slot, roster.get slot = some client := by
  obtain ⟨entry, among, same⟩ := List.mem_filterMap.mp isIn
  obtain ⟨slot, found⟩ := List.mem_iff_getElem?.mp among
  refine ⟨slot, ?_⟩
  unfold get
  rw [found]
  exact same

theorem count_le_capacity (roster : Roster γ) : roster.count ≤ roster.capacity :=
  List.length_filterMap_le id roster.slots

end Roster

namespace Server

/-! ## Acceptance -/

/-- Whether a peer waits to be accepted. -/
def isWaiting (server : Server) (peer : Nat) : Bool :=
  match server.peers[peer]? with
  | some (.waiting _) => true
  | _ => false

theorem isWaiting_iff {server : Server} {peer : Nat} :
    server.isWaiting peer = true ↔ ∃ socket, server.peers[peer]? = some (.waiting socket) := by
  unfold isWaiting
  split
  · next socket waits => exact ⟨fun _ => ⟨socket, waits⟩, fun _ => rfl⟩
  · next notWaiting => exact ⟨nofun, fun ⟨socket, waits⟩ => absurd waits (notWaiting socket)⟩

/-- The peers that wait, in the order in which they came. -/
def waiting (server : Server) : List Nat := (List.range server.peers.length).filter server.isWaiting

/-- The peers of the queue have got the free slots, the lowest first; those who are left when there are
no more slots have been turned away, and nothing has happened to anybody else. -/
structure Admits (server : Server) (queue : List Nat) (server' : Server) : Prop where
  seats : ∀ peer slot, (peer, slot) ∈ queue.zip server.roster.free → ∃ socket,
    server.peers[peer]? = some (.waiting socket) ∧
    server'.peers[peer]? = some (.accepted (.new slot socket)) ∧ server'.roster.get slot = some peer
  turnsAway : ∀ peer ∈ queue.drop server.roster.free.length, ∃ socket,
    server.peers[peer]? = some (.waiting socket) ∧ server'.peers[peer]? = some (.rejected socket)
  keeps : ∀ slot, slot ∉ server.roster.free.take queue.length →
    server'.roster.get slot = server.roster.get slot
  others : ∀ peer, peer ∉ queue → server'.peers[peer]? = server.peers[peer]?
  capacity : server'.roster.capacity = server.roster.capacity

theorem acceptOne_of_not_waiting {server : Server} {peer : Nat} (notWaiting : server.isWaiting peer ≠ true) :
    server.acceptOne peer = server := by
  unfold acceptOne
  split
  · next socket waits => exact absurd (isWaiting_iff.mpr ⟨socket, waits⟩) notWaiting
  · rfl

section

variable {server : Server} {peer : Nat} {socket : Socket}
  (waits : server.peers[peer]? = some (.waiting socket))

include waits

theorem acceptOne_of_free {slot : Nat} {others : List Nat} (free : server.roster.free = slot :: others) :
    server.acceptOne peer = { server with roster := ⟨server.roster.slots.set slot (some peer)⟩ }.settle
      peer (.accepted (.new slot socket)) := by
  have vacant := Roster.vacant_of_free free
  unfold acceptOne
  rw [waits]
  dsimp only
  rw [vacant]
  dsimp only
  rw [Roster.insert_vacant vacant]

theorem acceptOne_of_full (full : server.roster.free = []) :
    server.acceptOne peer = server.settle peer (.rejected socket) := by
  unfold acceptOne
  rw [waits]
  dsimp only
  rw [Roster.vacant_of_full full]

theorem getElem?_settle (settled : Peer) (other : Nat) :
    (server.settle peer settled).peers[other]? =
      if peer = other then some settled else server.peers[other]? := by
  have within := (List.getElem?_eq_some_iff.mp waits).1
  unfold settle
  rw [List.getElem?_set, if_pos within]

variable {queue : List Nat} {server' : Server} (new : peer ∉ queue)

include new

/-- The first of the queue gets the lowest free slot. -/
theorem Admits.seat {slot : Nat} {others : List Nat} (free : server.roster.free = slot :: others)
    (rest : (server.acceptOne peer).Admits queue server') : server.Admits (peer :: queue) server' := by
  have isFree := Roster.mem_free.mp (free ▸ List.mem_cons_self : slot ∈ server.roster.free)
  have notOthers : slot ∉ others := (List.nodup_cons.mp (free ▸ Roster.nodup_free)).1
  obtain ⟨seats, turnsAway, keeps, elsewhere, capacity⟩ := rest
  rw [acceptOne_of_free waits free] at seats turnsAway keeps elsewhere capacity
  have peers := getElem?_settle waits (.accepted (.new slot socket))
  have freed : Roster.free ⟨server.roster.slots.set slot (some peer)⟩ = others :=
    Roster.free_set free peer
  have away : ∀ other ∈ queue, peer ≠ other := fun other isIn here => new (here ▸ isIn)
  change ∀ other slot, (other, slot) ∈ queue.zip (Roster.free ⟨_⟩) → _ at seats
  change ∀ other ∈ queue.drop (Roster.free ⟨_⟩).length, _ at turnsAway
  change ∀ other, other ∉ (Roster.free ⟨_⟩).take _ → server'.roster.get other = Roster.get ⟨_⟩ other at keeps
  rw [freed] at seats turnsAway keeps
  refine ⟨fun other slot' isIn => ?_, fun other isIn => ?_, fun other notIn => ?_, fun other notIn => ?_, ?_⟩
  · rw [free, List.zip_cons_cons, List.mem_cons] at isIn
    rcases isIn with here | later
    · cases here
      refine ⟨socket, waits, (elsewhere peer new).trans ?_, ?_⟩
      · exact (peers peer).trans (if_pos rfl)
      · rw [keeps slot fun isIn => notOthers (List.mem_of_mem_take isIn), Roster.get_slots_set isFree.1,
          if_pos rfl]
    · obtain ⟨socket', waits', settled⟩ := seats other slot' later
      refine ⟨socket', ?_, settled⟩
      exact (if_neg (away other (List.of_mem_zip later).1) ▸ peers other).symm.trans waits'
  · rw [free, List.length_cons, List.drop_succ_cons] at isIn
    obtain ⟨socket', waits', settled⟩ := turnsAway other isIn
    refine ⟨socket', ?_, settled⟩
    exact (if_neg (away other (List.mem_of_mem_drop isIn)) ▸ peers other).symm.trans waits'
  · rw [free, List.length_cons, List.take_succ_cons, List.mem_cons, not_or] at notIn
    rw [keeps other notIn.2, Roster.get_slots_set isFree.1, if_neg fun here => notIn.1 here.symm]
  · rw [List.mem_cons, not_or] at notIn
    exact (elsewhere other notIn.2).trans ((peers other).trans (if_neg fun here => notIn.1 here.symm))
  · exact capacity.trans List.length_set

/-- Nobody gets a slot when there is none. -/
theorem Admits.turnAway (full : server.roster.free = [])
    (rest : (server.acceptOne peer).Admits queue server') : server.Admits (peer :: queue) server' := by
  obtain ⟨seats, turnsAway, keeps, elsewhere, capacity⟩ := rest
  rw [acceptOne_of_full waits full] at seats turnsAway keeps elsewhere capacity
  have peers := getElem?_settle waits (.rejected socket)
  change ∀ other ∈ queue.drop server.roster.free.length, _ at turnsAway
  change ∀ other, other ∉ server.roster.free.take _ → _ at keeps
  rw [full] at turnsAway keeps
  refine ⟨fun other slot isIn => ?_, fun other isIn => ?_, fun other _ => ?_, fun other notIn => ?_, capacity⟩
  · rw [full, List.zip_nil_right] at isIn
    cases isIn
  · rw [full, List.length_nil, List.drop_zero, List.mem_cons] at isIn
    rcases isIn with rfl | later
    · exact ⟨socket, waits, (elsewhere other new).trans ((peers other).trans (if_pos rfl))⟩
    · obtain ⟨socket', waits', settled⟩ := turnsAway other later
      have away : peer ≠ other := fun here => new (here ▸ later)
      exact ⟨socket', (if_neg away ▸ peers other).symm.trans waits', settled⟩
  · exact keeps other (by simp)
  · rw [List.mem_cons, not_or] at notIn
    exact (elsewhere other notIn.2).trans ((peers other).trans (if_neg fun here => notIn.1 here.symm))

end

theorem isWaiting_acceptOne {server : Server} {peer other : Nat} (away : other ≠ peer) :
    (server.acceptOne peer).isWaiting other = server.isWaiting other := by
  unfold isWaiting
  rcases acceptOne_cases server peer with same | ⟨socket, waits, same⟩ |
    ⟨socket, slot, roster, waits, -, same⟩ <;> rw [same]
  · rw [getElem?_settle waits, if_neg fun here => away here.symm]
  · have waits' : ({ server with roster } : Server).peers[peer]? = some (.waiting socket) := waits
    rw [getElem?_settle waits', if_neg fun here => away here.symm]

/-- **Run**: the peers that are asked one after the other get the free slots if they wait. -/
theorem admits_foldl (peers : List Nat) (server : Server) (distinct : peers.Nodup) :
    server.Admits (peers.filter server.isWaiting) (peers.foldl acceptOne server) := by
  induction peers generalizing server with
  | nil =>
    refine ⟨fun _ _ isIn => ?_, fun _ isIn => ?_, fun _ _ => rfl, fun _ _ => rfl, rfl⟩
    · rw [List.filter_nil, List.zip_nil_left] at isIn
      cases isIn
    · rw [List.filter_nil, List.drop_nil] at isIn
      cases isIn
  | cons peer peers ih =>
    obtain ⟨new, distinct⟩ := List.nodup_cons.mp distinct
    have rest := ih (server.acceptOne peer) distinct
    have queue : peers.filter (server.acceptOne peer).isWaiting = peers.filter server.isWaiting :=
      List.filter_congr fun other isIn => isWaiting_acceptOne fun here => new (here ▸ isIn)
    have notIn : peer ∉ peers.filter server.isWaiting := fun isIn => new (List.mem_of_mem_filter isIn)
    rw [queue] at rest
    rw [List.foldl_cons, List.filter_cons]
    split
    · next isWaiting =>
      obtain ⟨socket, waits⟩ := isWaiting_iff.mp isWaiting
      cases free : server.roster.free with
      | cons slot others => exact .seat waits notIn free rest
      | nil => exact .turnAway waits notIn free rest
    · next notWaiting =>
      rw [acceptOne_of_not_waiting notWaiting] at rest ⊢
      exact rest

theorem admits_acceptAll {server : Server} (listening : server.listening = true) :
    server.Admits server.waiting server.acceptAll := by
  unfold acceptAll
  rw [if_pos listening]
  exact admits_foldl _ server List.nodup_range

/-! ## Where the peers stand -/

/-- Where a peer stands with the roster. -/
inductive Standing where
  /-- It has not tried to connect yet. -/
  | unknown
  | waits
  | turnedAway
  | seated (slot : Nat)
  /-- It has been a client with this slot. -/
  | evicted (slot : Nat)

def standing (server : Server) (peer : Nat) : Standing :=
  match server.peers[peer]? with
  | none => .unknown
  | some (.waiting _) => .waits
  | some (.rejected _) => .turnedAway
  | some (.accepted c) => if server.roster.get c.slot = some peer then .seated c.slot else .evicted c.slot

/-- How a client loses its seat: the loop finds it gone at the start of an iteration, it has nothing
more to say in its turn, or the server is shut down. -/
inductive Leaves (server : Server) (peer : Nat) : Operation → Prop where
  | reaped (point : server.loop = .top) (gone : server.isConnected peer = false) :
    Leaves server peer .advance
  | served {ready : List Nat} {source : Bool} {c : Connection} {error : TransportError}
    (point : server.loop = .serving (peer :: ready) source) (found : server.connection? peer = some c)
    (failed : c.receive.1 = .error error) : Leaves server peer .advance
  | shutdown : Leaves server peer .shutdown

/-- How an operation moves a peer. -/
inductive Moves (server : Server) (operation : Operation) (peer : Nat) : Standing → Standing → Prop where
  | stays (standing : Standing) : Moves server operation peer standing standing
  | comes {input : Inbound} {acceptance : Acceptance} (connects : operation = .connect input acceptance) :
    Moves server operation peer .unknown .waits
  /-- It has got the free slot that its place in the queue gives it. -/
  | sits {slot : Nat} (advances : operation = .advance)
    (given : (peer, slot) ∈ server.waiting.zip server.roster.free) :
    Moves server operation peer .waits (.seated slot)
  /-- All slots were taken before it was its turn. -/
  | turnedAway (advances : operation = .advance) (full : peer ∈ server.waiting.drop server.roster.free.length) :
    Moves server operation peer .waits .turnedAway
  | leaves {slot : Nat} (leaves : Leaves server peer operation) :
    Moves server operation peer (.seated slot) (.evicted slot)

end Server

/-- The clients that the loop is about to serve. -/
def LoopPoint.pending : LoopPoint → List Nat
  | .held polled => polled
  | .woken ready _ _ | .serving ready _ => ready
  | .idle | .top | .ended => []

namespace Server

/-- Each client is in its slot of the roster, or it has been taken out and released; the loop holds
clients that are in their slots. -/
structure Housed (capacity : Nat) (server : Server) : Prop where
  sound : server.Sound
  seated : server.Seated
  capacity : server.roster.capacity = capacity
  released : ∀ peer c, server.connection? peer = some c → server.roster.get c.slot ≠ some peer →
    c.phase = .closed
  distinct : server.loop.pending.Nodup
  pending : server.terminating = false → ∀ peer ∈ server.loop.pending,
    ∃ slot, server.roster.get slot = some peer

/-! ## What an operation does to the roster -/

/-- Exactly this client has been taken out of its slot, and it has been released. -/
structure Evicted (server : Server) (peer : Nat) (c : Connection) (server' : Server) : Prop where
  held : server.roster.get c.slot = some peer
  roster : server'.roster = ⟨server.roster.slots.set c.slot none⟩
  stand : server.Stand server'
  released : ∀ c, server'.connection? peer = some c → c.phase = .closed

/-- All that an operation can come to for the seats. -/
inductive Reseats (server : Server) : Operation → Server → Prop where
  | stays {operation : Operation} {server' : Server} (roster : server'.roster = server.roster)
    (stand : server.Stand server') (terminating : server'.terminating = server.terminating)
    (pending : server'.loop.pending.Sublist server.loop.pending) : Reseats server operation server'
  /-- Somebody tries to connect. -/
  | comes (input : Inbound) (acceptance : Acceptance) :
    Reseats server (.connect input acceptance) (server.connect ⟨input, [], acceptance⟩)
  /-- The clients that are not connected any more are taken out, and the loop notes the others. -/
  | reaps {server' : Server} (point : server.loop = .top)
    (roster : server'.roster = (server.roster.reap server.isConnected).2) (stand : server.Stand server')
    (released : ∀ peer ∈ server.roster.clients, server.isConnected peer = false →
      ∀ c, server'.connection? peer = some c → c.phase = .closed)
    (terminating : server'.terminating = server.terminating)
    (pending : server'.loop.pending = server'.connected) : Reseats server .advance server'
  /-- The peers that wait are accepted or turned away. -/
  | admits {server' : Server} {ready : List Nat} {source : Bool}
    (point : server.loop = .woken ready true source) (admits : server.Admits server.waiting server')
    (terminating : server'.terminating = server.terminating) (pending : server'.loop.pending = ready) :
    Reseats server .advance server'
  /-- A client has nothing more to say in its turn. -/
  | evicts {server' : Server} {peer : Nat} {ready : List Nat} {source : Bool} {c : Connection}
    {error : TransportError} (point : server.loop = .serving (peer :: ready) source)
    (found : server.connection? peer = some c) (failed : c.receive.1 = .error error)
    (evicted : server.Evicted peer c server')
    (terminating : server'.terminating = server.terminating) (pending : server'.loop.pending = ready) :
    Reseats server .advance server'
  | drains {server' : Server} (roster : server'.roster = .empty server.roster.capacity)
    (stand : server.Stand server')
    (released : ∀ peer ∈ server.roster.clients, ∀ c, server'.connection? peer = some c → c.phase = .closed)
    (terminating : server'.terminating = true) (pending : server'.loop.pending = server.loop.pending) :
    Reseats server .shutdown server'

theorem Beside.reseats {server server' : Server} (beside : server.Beside server') (operation : Operation) :
    Reseats server operation server' :=
  .stays beside.roster beside.stand beside.terminating (by rw [beside.loop])

/-- Those whose connections are released by a change of all of them. -/
theorem released_updateAll {server : Server} {clients : List Nat} (distinct : clients.Nodup) {peer : Nat}
    (isIn : peer ∈ clients) (c : Connection)
    (found : (server.updateAll clients Connection.close).connection? peer = some c) : c.phase = .closed := by
  rw [connection?_updateAll server distinct, if_pos isIn] at found
  obtain ⟨before, -, rfl⟩ := Option.map_eq_some_iff.mp found
  exact before.phase_close

theorem stand_close (server : Server) (clients : List Nat) :
    server.Stand (server.updateAll clients Connection.close) :=
  stand_updateAll server clients fun c => c.unread_close.toStands

theorem stand_receive {server : Server} {peer : Nat} {c : Connection}
    (found : server.connection? peer = some c) : server.Stand (server.setConnection peer c.receive.2) := by
  rw [← modifyConnection_of_some found fun c => c.receive.2, modifyConnection_eq]
  exact stand_updateAll server [peer] Connection.stands_receive

theorem serve_of_error {server : Server} {peer : Nat} {c : Connection} {error : TransportError}
    (found : server.connection? peer = some c) (failed : c.receive.1 = .error error) :
    server.serve peer = (server.setConnection peer c.receive.2).evict c.slot := by
  unfold serve
  rw [found]
  dsimp only
  rw [failed]

/-- A client that has nothing more to say is the one that is taken out, if it is in its slot. -/
theorem evicted_serve {server : Server} {peer : Nat} {c : Connection} {error : TransportError}
    (found : server.connection? peer = some c) (failed : c.receive.1 = .error error)
    (held : server.roster.get c.slot = some peer) : server.Evicted peer c (server.serve peer) := by
  have held' : (server.setConnection peer c.receive.2).roster.get c.slot = some peer := held
  rw [serve_of_error found failed, Apart.evict_of_get held']
  exact ⟨held, rfl, (stand_receive found).trans ((stand_of_same rfl).trans (stand_close _ _)),
    released_updateAll (by simp) List.mem_cons_self⟩

theorem evict_of_vacant {server : Server} {slot : Nat} (free : server.roster.get slot = none) :
    server.evict slot = server := by
  unfold evict Roster.remove
  rw [free]

/-- A client that has something to say, or nothing now, leaves everybody in their slots. -/
theorem beside_serve_of_ok {server : Server} {peer : Nat} {c : Connection} {text : String}
    (found : server.connection? peer = some c) (received : c.receive.1 = .ok text) :
    (server.setConnection peer c.receive.2).Beside (server.serve peer) :=
  carried_beside.serve_of_ok server found received

theorem Sound.get_of_terminating {server : Server} (sound : server.Sound)
    (terminating : server.terminating = true) (slot : Nat) : server.roster.get slot = none := by
  have nobody := (sound.ended terminating).clients
  cases held : server.roster.get slot with
  | none => rfl
  | some peer =>
    have isIn := Roster.mem_clients_of_get held
    rw [nobody] at isIn
    cases isIn

/-- Whoever is in a slot of the roster is in the slot of its connection. -/
theorem Seated.exists_connection {server : Server} (seated : server.Seated) {peer slot : Nat}
    (held : server.roster.get slot = some peer) :
    ∃ c, server.connection? peer = some c ∧ c.slot = slot := Option.map_eq_some_iff.mp (seated slot peer held)

variable {capacity : Nat} {server : Server}

/-- Before the shutdown a client is served in its own slot. -/
theorem Housed.held_of_pending (housed : server.Housed capacity) (running : server.terminating = false)
    {peer : Nat} (isIn : peer ∈ server.loop.pending) :
    ∃ c, server.connection? peer = some c ∧ server.roster.get c.slot = some peer := by
  obtain ⟨slot, held⟩ := housed.pending running peer isIn
  obtain ⟨c, found, rfl⟩ := housed.seated.exists_connection held
  exact ⟨c, found, held⟩

theorem Housed.reseats_serve (housed : server.Housed capacity) {peer : Nat} {ready : List Nat}
    {source : Bool} (point : server.loop = .serving (peer :: ready) source) :
    Reseats server .advance ({ server with loop := .serving ready source }.serve peer) := by
  have fewer : ready.Sublist server.loop.pending := by
    rw [point]
    exact List.sublist_cons_self peer ready
  cases found : server.connection? peer with
  | none =>
    have nothing : ({ server with loop := .serving ready source } : Server).serve peer =
        { server with loop := .serving ready source } := by
      unfold serve
      rw [show connection? { server with loop := .serving ready source } peer = none from found]
    rw [nothing]
    exact .stays rfl (stand_of_same rfl) rfl fewer
  | some c =>
    have found' : ({ server with loop := .serving ready source } : Server).connection? peer = some c := found
    have within := within_serve { server with loop := .serving ready source } peer
    have pending : (serve { server with loop := .serving ready source } peer).loop.pending = ready := by
      rw [within.loop]
      rfl
    cases received : c.receive.1 with
    | ok text =>
      have beside := beside_serve_of_ok found' received
      exact .stays beside.roster ((stand_receive found').trans beside.stand) beside.terminating
        (by rw [pending]; exact fewer)
    | error error =>
      by_cases running : server.terminating = false
      · obtain ⟨c', same, held⟩ := housed.held_of_pending running
          (show peer ∈ server.loop.pending by rw [point]; exact List.mem_cons_self)
        cases found.symm.trans same
        obtain ⟨held, roster, stand, released⟩ := evicted_serve found' received held
        exact .evicts point found received ⟨held, roster, stand, released⟩ within.terminating pending
      · -- the shutdown has left nobody who could be taken out
        have free := housed.sound.get_of_terminating (Bool.not_eq_false _ ▸ running) c.slot
        have free' : (setConnection { server with loop := .serving ready source } peer
          c.receive.2).roster.get c.slot = none := free
        rw [serve_of_error found' received, evict_of_vacant free']
        exact .stays rfl (stand_receive found') rfl fewer

/-- A step of the loop reseats the clients. -/
theorem Housed.reseats_advance (housed : server.Housed capacity) :
    Reseats server .advance server.advance := by
  unfold advance
  cases point : server.loop with
  | idle | ended => exact .stays rfl (stand_of_same rfl) rfl (.refl _)
  | top =>
    dsimp only
    split
    · next terminating =>
      rw [leave_of_terminating terminating]
      exact .stays rfl (stand_of_same rfl) rfl (List.nil_sublist _)
    · next goesOn =>
      have within := within_reap server
      have listening : server.reap.listening = true := by
        rw [within.listening, housed.sound.paced.listening]
        simpa using goesOn
      rw [if_pos listening]
      have reaped := reap_eq server
      have stand : server.Stand server.reap := by
        rw [reaped]
        exact (stand_of_same rfl).trans (stand_close _ _)
      refine .reaps point (congrArg Server.roster reaped) stand (fun peer isIn gone c found => ?_)
        within.terminating rfl
      change server.reap.connection? peer = some c at found
      rw [reaped] at found
      refine released_updateAll (housed.sound.coherent.distinct.filter _) ?_ c found
      rw [List.mem_filter, gone]
      exact ⟨isIn, rfl⟩
  | held polled =>
    dsimp only
    rw [setPhase_eq]
    refine .stays rfl (stand_of_same rfl) rfl ?_
    rw [point]
    exact List.filter_sublist
  | woken ready listener source =>
    dsimp only
    split
    · next terminating =>
      rw [leave_of_terminating terminating]
      exact .stays rfl (stand_of_same rfl) rfl (List.nil_sublist _)
    · next goesOn =>
      rw [setPhase_eq]
      cases listener with
      | false =>
        refine .stays rfl (stand_of_same rfl) rfl ?_
        rw [point]
        exact List.Sublist.refl ready
      | true =>
        have listening : server.listening = true := by
          rw [housed.sound.paced.listening]
          simpa using goesOn
        rw [if_pos rfl]
        generalize (server.setPhase .dispatching).phase = phase
        have admits : ({ server with phase } : Server).Admits server.waiting _ := admits_acceptAll listening
        exact .admits point ⟨admits.seats, admits.turnsAway, admits.keeps, admits.others, admits.capacity⟩
          (within_acceptAll _).terminating rfl
  | serving ready source =>
    cases ready with
    | cons peer ready => exact housed.reseats_serve point
    | nil =>
      have beside := carried_beside.pollSource { server with loop := .top } source
      refine .stays beside.roster beside.stand beside.terminating ?_
      rw [beside.loop]
      exact List.nil_sublist _

theorem Housed.reseats (housed : server.Housed capacity) (operation : Operation) :
    Reseats server operation (server.operate operation) := by
  cases quiet : operation.isQuiet with
  | true => exact (carried_beside.operate server quiet).reseats operation
  | false =>
    cases operation with
    | connect input acceptance => exact .comes input acceptance
    | transport peer input acceptance => exact .stays rfl (stand_modifySocket server peer _) rfl (.refl _)
    | start =>
      change Reseats server .start server.enterLoop
      unfold enterLoop
      split
      · exact .stays rfl (stand_of_same rfl) rfl (List.nil_sublist _)
      · exact .stays rfl (stand_of_same rfl) rfl (.refl _)
    | advance => exact housed.reseats_advance
    | shutdown =>
      change Reseats server .shutdown server.shutdown
      cases running : server.terminating with
      | true =>
        rw [shutdown_of_terminating running]
        exact .stays rfl (stand_of_same rfl) rfl (.refl _)
      | false =>
        rw [shutdown_of_running running]
        refine .drains rfl ((stand_of_same rfl).trans (stand_close _ server.roster.clients))
          (fun peer isIn c found => ?_) rfl rfl
        exact released_updateAll housed.sound.coherent.distinct isIn c found
    | _ => cases quiet

/-! ## What is kept -/

/-- Whoever is not in its slot is released, if those are who lose their slots. -/
theorem Housed.released_of_stand (housed : server.Housed capacity) {server' : Server}
    (stand : server.Stand server')
    (goes : ∀ peer c, server'.connection? peer = some c → server.roster.get c.slot = some peer →
      server'.roster.get c.slot ≠ some peer → c.phase = .closed) (peer : Nat) (c' : Connection)
    (found : server'.connection? peer = some c') (vacant : server'.roster.get c'.slot ≠ some peer) :
    c'.phase = .closed := by
  obtain ⟨c, before, stands⟩ := stand.exists_before found
  by_cases held : server.roster.get c'.slot = some peer
  · exact goes peer c' found held vacant
  · rw [stands.slot] at held
    exact stands.released (housed.released peer c before held)

/-- A client keeps its seat, or it leaves it in one of the ways to do so. -/
theorem Stand.moves {server' : Server} (stand : server.Stand server') {operation : Operation} {peer : Nat}
    (kept : ∀ slot, server.roster.get slot = some peer → server'.roster.get slot = some peer ∨
      Leaves server peer operation)
    (fewer : ∀ slot, server'.roster.get slot = some peer → server.roster.get slot = some peer) :
    Moves server operation peer (server.standing peer) (server'.standing peer) := by
  have here := stand peer
  unfold standing
  generalize server.peers[peer]? = before, server'.peers[peer]? = after at here ⊢
  cases here with
  | none => exact .stays _
  | some stands =>
    cases stands with
    | waiting | rejected => exact .stays _
    | @accepted c c' stands =>
      dsimp only
      rw [stands.slot]
      by_cases held : server.roster.get c.slot = some peer
      · rw [if_pos held]
        by_cases held' : server'.roster.get c.slot = some peer
        · rw [if_pos held']
          exact .stays _
        · rw [if_neg held']
          exact .leaves ((kept c.slot held).resolve_left held')
      · rw [if_neg held, if_neg fun held' => held (fewer c.slot held')]
        exact .stays _

section Admission

variable {queue : List Nat} {server' : Server}

/-- A slot is as it was, or somebody of the queue has got it. -/
theorem Admits.get_cases (admits : server.Admits queue server') (slot : Nat) :
    (∃ peer ∈ queue, server'.roster.get slot = some peer) ∨
      server'.roster.get slot = server.roster.get slot := by
  by_cases given : slot ∈ server.roster.free.take queue.length
  · left
    obtain ⟨i, bound, same⟩ := List.mem_take_iff_getElem.mp given
    have enough : i < queue.length := by omega
    have within : i < (queue.zip server.roster.free).length := by
      rw [List.length_zip]
      omega
    have isIn : (queue[i], slot) ∈ queue.zip server.roster.free := by
      rw [← same, ← List.getElem_zip (h := within)]
      exact List.getElem_mem _
    obtain ⟨socket, -, -, held⟩ := admits.seats _ slot isIn
    exact ⟨_, List.getElem_mem _, held⟩
  · exact .inr (admits.keeps slot given)

/-- Whoever is in the queue has a place among the free slots, or behind them. -/
theorem mem_queue_cases {peer : Nat} (isIn : peer ∈ queue) (free : List Nat) :
    (∃ slot, (peer, slot) ∈ queue.zip free) ∨ peer ∈ queue.drop free.length := by
  obtain ⟨i, bound, rfl⟩ := List.mem_iff_getElem.mp isIn
  by_cases enough : i < free.length
  · left
    have within : i < (queue.zip free).length := by
      rw [List.length_zip]
      omega
    refine ⟨free[i], ?_⟩
    rw [← List.getElem_zip (h := within)]
    exact List.getElem_mem _
  · right
    exact List.mem_drop_iff_getElem.mpr ⟨i - free.length, by omega, by congr 1; omega⟩

theorem Admits.connection?_of_not_mem (admits : server.Admits queue server') {peer : Nat}
    (notIn : peer ∉ queue) : server'.connection? peer = server.connection? peer := by
  unfold connection?
  rw [admits.others peer notIn]

/-- A slot that is taken stays so. -/
theorem Admits.get_of_some (admits : server.Admits queue server') {slot peer : Nat}
    (held : server.roster.get slot = some peer) : server'.roster.get slot = some peer := by
  rw [admits.keeps slot fun isIn => ?_]
  · exact held
  · have isFree := (Roster.mem_free.mp (List.mem_of_mem_take isIn)).2
    rw [held] at isFree
    cases isFree

/-- A peer of the queue is seated or turned away, and nobody else is moved. -/
theorem Admits.moves (admits : server.Admits server.waiting server') (peer : Nat) :
    Moves server .advance peer (server.standing peer) (server'.standing peer) := by
  by_cases queued : peer ∈ server.waiting
  · rcases mem_queue_cases queued server.roster.free with ⟨slot, given⟩ | full
    · obtain ⟨socket, waits, accepted, held⟩ := admits.seats peer slot given
      have held' : server'.roster.get (Connection.new slot socket).slot = some peer := held
      unfold standing
      rw [waits, accepted]
      dsimp only
      rw [if_pos held']
      exact .sits rfl given
    · obtain ⟨socket, waits, rejected⟩ := admits.turnsAway peer full
      unfold standing
      rw [waits, rejected]
      exact .turnedAway rfl full
  · have held : ∀ slot, server'.roster.get slot = some peer ↔ server.roster.get slot = some peer := by
      intro slot
      refine ⟨fun held => ?_, admits.get_of_some⟩
      rcases admits.get_cases slot with ⟨other, among, held'⟩ | kept
      · rw [held] at held'
        cases held'
        exact absurd among queued
      · exact kept ▸ held
    have same : server'.standing peer = server.standing peer := by
      unfold standing
      rw [admits.others peer queued]
      simp only [held]
    rw [same]
    exact .stays _

end Admission

theorem housed_new (capacity : Nat) (log : Option Log) (source : Option Source)
    (sampler : Option Sampler) (deadline : Deadline) (now : String) :
    (new capacity log source sampler deadline now).Housed capacity where
  sound := sound_new capacity log source sampler deadline now
  seated := seated_new capacity log source sampler deadline now
  capacity := Roster.capacity_empty capacity
  released _ _ found := by cases found
  distinct := List.nodup_nil
  pending _ _ isIn := by cases isIn

theorem Evicted.within {server' : Server} {peer : Nat} {c : Connection} (evicted : server.Evicted peer c server') :
    c.slot < server.roster.capacity := (List.getElem?_eq_some_iff.mp (Roster.slots_of_get evicted.held)).1

theorem Evicted.get {server' : Server} {peer : Nat} {c : Connection} (evicted : server.Evicted peer c server')
    (slot : Nat) : server'.roster.get slot = if c.slot = slot then none else server.roster.get slot := by
  rw [evicted.roster, Roster.get_slots_set evicted.within]

/-- **Step**: whatever is done to the server, each client stays in its slot or leaves it for good. -/
theorem Housed.operate (housed : server.Housed capacity) (operation : Operation) :
    (server.operate operation).Housed capacity := by
  have sound := housed.sound.operate operation
  have seated := housed.seated.evolve (evolves_operate server operation)
  have reseats := housed.reseats operation
  generalize server.operate operation = server' at sound seated reseats
  cases reseats with
  | stays roster stand terminating pending =>
    refine ⟨sound, seated, ?_, housed.released_of_stand stand ?_, pending.nodup housed.distinct, ?_⟩
    · rw [roster]
      exact housed.capacity
    · intro peer c _ held vacant
      rw [roster] at vacant
      exact absurd held vacant
    · intro running peer isIn
      rw [roster]
      exact housed.pending (terminating ▸ running) peer (pending.subset isIn)
  | comes input acceptance =>
    refine ⟨sound, seated, housed.capacity, fun peer c found => ?_, housed.distinct, housed.pending⟩
    rw [connection?_connect] at found
    exact housed.released peer c found
  | reaps point roster stand released terminating pending =>
    refine ⟨sound, seated, ?_, housed.released_of_stand stand ?_, ?_, ?_⟩
    · rw [roster]
      exact (List.length_map ..).trans housed.capacity
    · intro peer c found held vacant
      refine released peer (Roster.mem_clients_of_get held) ?_ c found
      rw [roster, Roster.get_reap, held] at vacant
      cases gone : server.isConnected peer with
      | false => rfl
      | true => exact absurd (Option.filter_some_pos gone) vacant
    · rw [pending]
      exact sound.coherent.nodup_connected
    · intro _ peer isIn
      rw [pending] at isIn
      exact Roster.exists_get_of_mem_clients (List.mem_of_mem_filter isIn)
  | admits point admits terminating pending =>
    have before := housed.pending
    have distinct := housed.distinct
    rw [point] at before distinct
    refine ⟨sound, seated, admits.capacity.trans housed.capacity, fun peer c found vacant => ?_, ?_, ?_⟩
    · by_cases queued : peer ∈ server.waiting
      · unfold connection? at found
        rcases mem_queue_cases queued server.roster.free with ⟨slot, given⟩ | full
        · obtain ⟨socket, -, accepted, held⟩ := admits.seats peer slot given
          rw [accepted] at found
          cases found
          exact absurd held vacant
        · obtain ⟨socket, -, rejected⟩ := admits.turnsAway peer full
          rw [rejected] at found
          cases found
      · rw [admits.connection?_of_not_mem queued] at found
        exact housed.released peer c found fun held => vacant (admits.get_of_some held)
    · rw [pending]
      exact distinct
    · intro running peer isIn
      obtain ⟨slot, held⟩ := before (terminating ▸ running) peer (pending ▸ isIn)
      exact ⟨slot, admits.get_of_some held⟩
  | @evicts _ target _ _ c _ point found failed evicted terminating pending =>
    have before := housed.pending
    have distinct := housed.distinct
    rw [point] at before distinct
    refine ⟨sound, seated, ?_, housed.released_of_stand evicted.stand ?_, ?_, ?_⟩
    · rw [evicted.roster]
      exact List.length_set.trans housed.capacity
    · intro peer c' found' held' vacant
      rw [evicted.get] at vacant
      split at vacant
      · next here =>
        rw [← here, evicted.held] at held'
        cases held'
        exact evicted.released c' found'
      · exact absurd held' vacant
    · rw [pending]
      exact (List.nodup_cons.mp distinct).2
    · intro running peer isIn
      rw [pending] at isIn
      obtain ⟨slot, held'⟩ := before (terminating ▸ running) peer (List.mem_cons_of_mem _ isIn)
      refine ⟨slot, ?_⟩
      rw [evicted.get, if_neg fun here => ?_]
      · exact held'
      · rw [← here, evicted.held] at held'
        cases held'
        exact (List.nodup_cons.mp distinct).1 isIn
  | drains roster stand released terminating pending =>
    refine ⟨sound, seated, ?_, housed.released_of_stand stand ?_, ?_, ?_⟩
    · rw [roster]
      exact (Roster.capacity_empty _).trans housed.capacity
    · intro peer c found held _
      exact released peer (Roster.mem_clients_of_get held) c found
    · rw [pending]
      exact housed.distinct
    · intro running
      cases terminating.symm.trans running

/-- **Run**: so it is after any operations. -/
theorem Housed.operateAll (housed : server.Housed capacity) (operations : List Operation) :
    (server.operateAll operations).Housed capacity := by
  induction operations generalizing server with
  | nil => exact housed
  | cons operation operations ih => exact ih (housed.operate operation)

theorem moves_connect (server : Server) (input : Inbound) (acceptance : Acceptance) (peer : Nat) :
    Moves server (.connect input acceptance) peer (server.standing peer)
      ((server.connect ⟨input, [], acceptance⟩).standing peer) := by
  unfold standing connect
  dsimp only
  rw [List.getElem?_append]
  by_cases within : peer < server.peers.length
  · rw [if_pos within]
    exact .stays _
  · rw [if_neg within, List.getElem?_eq_none (Nat.le_of_not_lt within)]
    cases found : [Peer.waiting ⟨input, [], acceptance⟩][peer - server.peers.length]? with
    | none => exact .stays _
    | some other =>
      rw [List.mem_singleton.mp (List.mem_of_getElem? found)]
      exact .comes rfl

/-- How an operation moves a peer: it is seated or turned away by its place in the queue, and it leaves in
one of the ways to do so. -/
theorem Housed.moves (housed : server.Housed capacity) (operation : Operation) (peer : Nat) :
    Moves server operation peer (server.standing peer) ((server.operate operation).standing peer) := by
  have reseats := housed.reseats operation
  generalize server.operate operation = server' at reseats
  cases reseats with
  | stays roster stand =>
    refine stand.moves (fun slot held => .inl ?_) (fun slot held => ?_) <;> rw [roster] at * <;> exact held
  | comes input acceptance => exact moves_connect server input acceptance peer
  | reaps point roster stand released =>
    refine stand.moves (fun slot held => ?_) (fun slot held => ?_)
    · rw [roster, Roster.get_reap, held]
      cases connected : server.isConnected peer with
      | true => exact .inl (Option.filter_some_pos connected)
      | false => exact .inr (.reaped point connected)
    · rw [roster] at held
      exact Roster.get_of_reap held
  | admits point admits => exact admits.moves peer
  | evicts point found failed evicted =>
    refine evicted.stand.moves (fun slot held => ?_) (fun slot held => ?_)
    · rw [evicted.get]
      split
      · next here =>
        rw [← here, evicted.held] at held
        cases held
        exact .inr (.served point found failed)
      · exact .inl held
    · rw [evicted.get] at held
      split at held
      · cases held
      · exact held
  | drains roster stand =>
    refine stand.moves (fun _ _ => .inr .shutdown) (fun slot held => ?_)
    rw [roster, Roster.get_empty] at held
    cases held

/-- A client is in its own slot and in no other, or it is in none and has been released. -/
theorem Housed.placed (housed : server.Housed capacity) {peer : Nat} {c : Connection}
    (found : server.connection? peer = some c) :
    (∀ slot, server.roster.get slot = some peer ↔ slot = c.slot) ∨
      (∀ slot, server.roster.get slot ≠ some peer) ∧ c.phase = .closed := by
  have own : ∀ slot, server.roster.get slot = some peer → slot = c.slot := by
    intro slot held
    obtain ⟨c', found', same⟩ := housed.seated.exists_connection held
    cases found.symm.trans found'
    exact same.symm
  by_cases held : server.roster.get c.slot = some peer
  · exact .inl fun slot => ⟨own slot, fun here => here ▸ held⟩
  · refine .inr ⟨fun slot held' => held ?_, housed.released peer c found held⟩
    exact own slot held' ▸ held'

/-- When the loop has woken for its listener, everybody who waits is admitted or turned away. -/
theorem Housed.admits (housed : server.Housed capacity) (running : server.terminating = false)
    {ready : List Nat} {source : Bool} (point : server.loop = .woken ready true source) :
    server.Admits server.waiting server.advance := by
  have listening : server.listening = true := by
    rw [housed.sound.paced.listening, running]
    rfl
  unfold advance
  rw [point]
  dsimp only
  rw [running, if_neg Bool.false_ne_true, if_pos rfl, setPhase_eq]
  generalize (server.setPhase .dispatching).phase = phase
  have admits : ({ server with phase } : Server).Admits server.waiting _ := admits_acceptAll listening
  exact ⟨admits.seats, admits.turnsAway, admits.keeps, admits.others, admits.capacity⟩

/-- Before the shutdown a client is served in its slot: it leaves everybody there, or it is taken out
itself. -/
theorem Housed.serves (housed : server.Housed capacity) (running : server.terminating = false)
    {peer : Nat} {ready : List Nat} {source : Bool} (point : server.loop = .serving (peer :: ready) source) :
    ∃ c, server.connection? peer = some c ∧ server.roster.get c.slot = some peer ∧
      (∀ text, c.receive.1 = .ok text → server.advance.roster = server.roster) ∧
      ∀ error, c.receive.1 = .error error → server.Evicted peer c server.advance := by
  obtain ⟨c, found, held⟩ := housed.held_of_pending running
    (show peer ∈ server.loop.pending by rw [point]; exact List.mem_cons_self)
  have served : server.advance = ({ server with loop := .serving ready source } : Server).serve peer := by
    unfold advance
    rw [point]
  have found' : ({ server with loop := .serving ready source } : Server).connection? peer = some c := found
  rw [served]
  refine ⟨c, found, held, fun text received => (beside_serve_of_ok found' received).roster, fun error failed => ?_⟩
  obtain ⟨held, roster, stand, released⟩ := evicted_serve found' failed held
  exact ⟨held, roster, stand, released⟩

/-- **Seats**: after any operations on a server with any number of slots, whoever is in a slot is the
client with this slot, so that there are at most as many clients as slots; every client is in its own slot
and in no other, or it is in none and has been released. The slot that is given away is the lowest free
one. Whoever waits when the loop has woken for its listener gets the free slot that its place in the queue
gives it, or is turned away if there are not so many; nobody is moved otherwise, and a client leaves its
slot in the ways of `Leaves` only. A client that is served before the shutdown is in its slot, and if it
has nothing more to say, it is the one that is taken out. -/
theorem roster_invariant (capacity : Nat) (log : Option Log) (source : Option Source)
    (sampler : Option Sampler) (deadline : Deadline) (now : String) (operations : List Operation) :
    let server := (new capacity log source sampler deadline now).operateAll operations
    server.roster.capacity = capacity ∧ server.roster.count ≤ capacity ∧
    (∀ slot peer, server.roster.get slot = some peer → server.slot? peer = some slot) ∧
    (∀ peer c, server.connection? peer = some c →
      (∀ slot, server.roster.get slot = some peer ↔ slot = c.slot) ∨
        (∀ slot, server.roster.get slot ≠ some peer) ∧ c.phase = .closed) ∧
    (∀ operation peer,
      Moves server operation peer (server.standing peer) ((server.operate operation).standing peer)) ∧
    (∀ slot, server.roster.vacant = .ok slot →
      slot < capacity ∧ server.roster.get slot = none ∧ (∀ lower < slot, server.roster.get lower ≠ none) ∧
        ∀ peer, ∃ roster, server.roster.insert slot peer = .ok roster) ∧
    (server.terminating = false →
      (∀ ready source, server.loop = .woken ready true source →
        server.Admits server.waiting server.advance) ∧
      ∀ peer ready source, server.loop = .serving (peer :: ready) source →
        ∃ c, server.connection? peer = some c ∧ server.roster.get c.slot = some peer ∧
          (∀ text, c.receive.1 = .ok text → server.advance.roster = server.roster) ∧
          ∀ error, c.receive.1 = .error error → server.Evicted peer c server.advance) := by
  intro server
  have housed : server.Housed capacity :=
    (housed_new capacity log source sampler deadline now).operateAll operations
  refine ⟨housed.capacity, ?_, housed.seated, fun _ _ => housed.placed, housed.moves, fun slot vacant => ?_,
    fun running => ⟨fun _ _ => housed.admits running, fun _ _ _ => housed.serves running⟩⟩
  · have fewer := server.roster.count_le_capacity
    rwa [housed.capacity] at fewer
  · have lowest := Roster.lowest_of_vacant vacant
    rwa [housed.capacity] at lowest

/-- Two of three peers get the slots, the first of them hangs up, and its slot goes to the next peer. -/
example (deadline : Deadline) :
    let come := Operation.connect .opened .all
    let server := (new 2 none none none deadline "t").operateAll
      ([come, come, come, .start] ++ List.replicate 4 .advance ++
        [.transport 0 Inbound.opened.close .all] ++ List.replicate 5 .advance ++
        [come] ++ List.replicate 4 .advance)
    [0, 1, 2, 3].map server.standing = [.evicted 0, .seated 1, .turnedAway, .seated 0] := by
  cbv

end Server
end TelemetryHub
