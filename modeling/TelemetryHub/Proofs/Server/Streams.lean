import TelemetryHub.Proofs.Server.Processing
import TelemetryHub.Proofs.Server.Seats

/-!
# The streams of clients

A peer sends a stream of bytes, which arrive in any pieces and at any time (`Event`). The reads on its
connection are consecutive pieces of the stream, of at most `messageLimit` bytes each
(`unread_happenAll`): each event leaves what has arrived and not been read alone, or puts bytes behind
it, or takes bytes from its front (`Hears`). Between two reads on a connection an iteration begins
(`Seated.begins_between`), and whoever has said something when the loop waits for it has its turn before the
next one (`Housed.exists_turn_of_awaited`).
-/

namespace TelemetryHub

theorem clientName_inj {slot slot' : Nat} (same : clientName slot = clientName slot') : slot = slot' := by
  have digits : ∀ n : Nat, (clientName n).toList = "client-".toList ++ Nat.toDigits 10 n := by
    intro n
    simp [clientName, Nat.toString_eq_repr, Nat.repr_eq_ofList_toDigits]
  have tails := congrArg String.toList same
  rw [digits, digits, List.append_cancel_left_eq] at tails
  rw [← @Nat.ofDigitChars_ten_toDigits slot, ← @Nat.ofDigitChars_ten_toDigits slot', tails]

namespace Server

/-! ## Events -/

/-- The operations of the server itself, of its producers and of its operators: they are not those of a
peer, and they handle nothing in the name of a client. -/
def Operation.Own : Operation → Prop
  | .connect _ _ | .transport _ _ _ => False
  | .handleText _ source | .handleCommand _ source => ∀ slot, source ≠ clientName slot
  | _ => True

/-- What happens: a peer does what a peer can do, or the server does something. -/
inductive Event where
  | connects (acceptance : Acceptance)
  /-- Bytes arrive from a peer; none do once it has ended its stream. -/
  | arrives (peer : Nat) (bytes : List UInt8)
  | ends (peer : Nat)
  | leaves (peer : Nat)
  | resets (peer : Nat)
  /-- The next read fails. -/
  | interrupts (peer : Nat) (failure : Failure)
  /-- From now on the peer takes more or less. -/
  | takes (peer : Nat) (acceptance : Acceptance)
  | does (operation : Operation) (own : operation.Own)

/-- The loop takes a step. -/
def Event.turn : Event := .does .advance trivial

/-- A change of a peer's socket. -/
def transported (server : Server) (peer : Nat) (change : Socket → Socket) : Operation :=
  match server.peers[peer]? with
  | some other => .transport peer (change other.socket).input (change other.socket).output.acceptance
  | none => .transport peer .opened .all

def Event.operation (server : Server) : Event → Operation
  | .connects acceptance => .connect .opened acceptance
  | .arrives peer bytes =>
    server.transported peer fun socket =>
      if socket.input.finish = .opened then socket.arrive bytes else socket
  | .ends peer => server.transported peer Socket.peerEnds
  | .leaves peer => server.transported peer Socket.peerLeaves
  | .resets peer => server.transported peer Socket.peerResets
  | .interrupts peer failure =>
    server.transported peer fun socket => { socket with input := socket.input.interrupt failure }
  | .takes peer acceptance =>
    server.transported peer fun socket => { socket with output := { socket.output with acceptance } }
  | .does operation _ => operation

/-- What comes from a peer is not processed before it is read. -/
theorem processed_transported (server : Server) (peer : Nat) (change : Socket → Socket) :
    server.processed (server.transported peer change) = [] := by
  unfold processed transported
  split
  · rfl
  · cases server.peers[peer]? <;> rfl

def happen (server : Server) (event : Event) : Server := server.operate (event.operation server)

def happenAll (server : Server) (events : List Event) : Server := events.foldl happen server

/-- The operations that events come to. -/
def operations (server : Server) : List Event → List Operation
  | [] => []
  | event :: events => event.operation server :: (server.happen event).operations events

theorem happenAll_eq (server : Server) (events : List Event) :
    server.happenAll events = server.operateAll (server.operations events) := by
  induction events generalizing server with
  | nil => rfl
  | cons event events ih => exact ih (server.happen event)

/-- The command source is not named like a client. -/
def NamedApart (server : Server) : Prop := ∀ label, server.label? = some label → ∀ slot, label ≠ clientName slot

theorem namedApart_new {capacity : Nat} {log : Option Log} {source : Option Source} {sampler : Option Sampler}
    {deadline : Deadline} {now : String}
    (foreign : ∀ given, source = some given → ∀ slot, given.label ≠ clientName slot) :
    (new capacity log source sampler deadline now).NamedApart := by
  intro label labelled slot
  obtain ⟨given, found, rfl⟩ := Option.map_eq_some_iff.mp labelled
  exact foreign given found slot

theorem NamedApart.happen {server : Server} (apart : server.NamedApart) (event : Event) :
    (server.happen event).NamedApart := by
  have same : (server.happen event).label? = server.label? := label?_operate server _
  unfold NamedApart
  rw [same]
  exact apart

theorem NamedApart.happenAll {server : Server} (apart : server.NamedApart) (events : List Event) :
    (server.happenAll events).NamedApart := by
  induction events generalizing server with
  | nil => exact apart
  | cons event events ih => exact ih (apart.happen event)

theorem happenAll_append (server : Server) (first second : List Event) :
    server.happenAll (first ++ second) = (server.happenAll first).happenAll second := List.foldl_append

/-! ## Streams and pieces -/

/-- Whether bytes can arrive from a peer. -/
def isOpen (server : Server) (peer : Nat) : Bool :=
  (server.input? peer).any fun input => input.finish = .opened

/-- The bytes that arrive from a peer. -/
def arriving (server : Server) (peer : Nat) : Event → List UInt8
  | .arrives target bytes => if target = peer ∧ server.isOpen peer then bytes else []
  | _ => []

/-- All bytes that arrive from a peer. -/
def stream (server : Server) (peer : Nat) : List Event → List UInt8
  | [] => []
  | event :: events => server.arriving peer event ++ (server.happen event).stream peer events

/-- What has arrived from a peer and has not been read. -/
def unread (server : Server) (peer : Nat) : List UInt8 := (server.input? peer).elim [] Inbound.queue

/-- What the read gives that is made on the connection of a peer, if one is made. -/
def reading? (server : Server) (peer : Nat) : Event → Option Reading
  | .does .advance _ =>
    match server.loop with
    | .serving (target :: _) _ =>
      if target = peer then (server.connection? peer).bind Connection.reading? else none
    | _ => none
  | _ => none

/-- The piece that is read from a peer, if one is. -/
def piece? (server : Server) (peer : Nat) (event : Event) : Option (List UInt8) :=
  (server.reading? peer event).bind Reading.piece?

/-- The pieces that are read from a peer. -/
def pieces (server : Server) (peer : Nat) : List Event → List (List UInt8)
  | [] => []
  | event :: events => (server.piece? peer event).toList ++ (server.happen event).pieces peer events

/-! ## What arrives and what is read -/

/-- All that an event can mean for what has arrived from a peer and has not been read. -/
inductive Hears (server : Server) (peer : Nat) (event : Event) : Option Inbound → Option Inbound → Prop where
  | nothing {input : Option Inbound} (quiet : server.arriving peer event = [])
    (left : server.reading? peer event = none) : Hears server peer event input input
  | comes (quiet : server.arriving peer event = []) (left : server.reading? peer event = none) :
    Hears server peer event none (some .opened)
  | arrives {inbound : Inbound} (opened : inbound.finish = .opened)
    (left : server.reading? peer event = none) :
    Hears server peer event (some inbound) (some (inbound.arrive (server.arriving peer event)))
  /-- Something else becomes of the stream: it ends, or the next read fails. -/
  | turns {inbound inbound' : Inbound} (queue : inbound'.queue = inbound.queue)
    (finished : inbound.finish ≠ .opened → inbound'.finish ≠ .opened)
    (quiet : server.arriving peer event = []) (left : server.reading? peer event = none) :
    Hears server peer event (some inbound) (some inbound')
  | reads {inbound : Inbound} (quiet : server.arriving peer event = [])
    (reading : server.reading? peer event = some (inbound.read messageLimit).1) :
    Hears server peer event (some inbound) (some (inbound.read messageLimit).2)

theorem input?_modifySocket (server : Server) (target : Nat) (change : Socket → Socket) (peer : Nat) :
    (server.modifySocket target change).input? peer =
      if target = peer then server.peers[peer]?.map fun other => (change other.socket).input
      else server.input? peer := by
  unfold input? modifySocket
  rw [List.getElem?_modify]
  split
  · cases server.peers[peer]? with
    | none => rfl
    | some other => cases other <;> rfl
  · exact congrArg _ (Option.map_id' ..)

/-- What a change of a peer's socket means for what arrives from it. -/
theorem input?_transported (server : Server) (target : Nat) (change : Socket → Socket) (peer : Nat) :
    (server.operate (server.transported target change)).input? peer =
      if target = peer then server.peers[peer]?.map fun other => (change other.socket).input
      else server.input? peer := by
  unfold transported
  cases found : server.peers[target]? with
  | none =>
    refine (input?_modifySocket server target _ peer).trans ?_
    split
    · next here =>
      rw [← here, found]
      rfl
    · rfl
  | some other =>
    refine (input?_modifySocket server target _ peer).trans ?_
    split
    · next here =>
      rw [← here, found]
      rfl
    · rfl

/-- A change of a socket by which nothing arrives leaves what has not been read. -/
theorem hears_transported {server : Server} {target peer : Nat} (change : Socket → Socket) {event : Event}
    (queue : ∀ socket, (change socket).input.queue = socket.input.queue)
    (finished : ∀ socket, socket.input.finish ≠ .opened → (change socket).input.finish ≠ .opened)
    (quiet : server.arriving peer event = []) (left : server.reading? peer event = none) :
    Hears server peer event (server.input? peer)
      ((server.operate (server.transported target change)).input? peer) := by
  rw [input?_transported]
  split
  · unfold input?
    cases server.peers[peer]? with
    | none => exact .nothing quiet left
    | some other => exact .turns (queue _) (finished _) quiet left
  · exact .nothing quiet left

theorem input?_settle (server : Server) {target : Nat} {old : Peer}
    (found : server.peers[target]? = some old) (settled : Peer) (same : settled.socket = old.socket)
    (peer : Nat) : (server.settle target settled).input? peer = server.input? peer := by
  have within := (List.getElem?_eq_some_iff.mp found).1
  unfold input? settle
  rw [List.getElem?_set]
  split
  · next here =>
    rw [← here, found]
    exact congrArg (fun socket : Socket => some socket.input) same
  · rfl

/-- Whoever is accepted or turned away keeps its socket. -/
theorem input?_acceptAll (server : Server) (peer : Nat) :
    server.acceptAll.input? peer = server.input? peer := by
  have each : ∀ (peers : List Nat) (server : Server),
      (peers.foldl acceptOne server).input? peer = server.input? peer := by
    intro peers
    induction peers with
    | nil => exact fun _ => rfl
    | cons target peers ih =>
      intro server
      rw [List.foldl_cons, ih]
      rcases acceptOne_cases server target with same | ⟨socket, waits, same⟩ |
        ⟨socket, slot, roster, waits, -, same⟩ <;> rw [same]
      · exact input?_settle server waits (.rejected socket) rfl peer
      · exact input?_settle { server with roster } waits (.accepted (.new slot socket)) rfl peer
  unfold acceptAll
  split
  · exact each _ server
  · rfl

theorem input?_reap (server : Server) (peer : Nat) : server.reap.input? peer = server.input? peer := by
  rw [reap_eq]
  exact input?_updateAll _ _ Connection.unread_close peer

theorem input?_evict (server : Server) (slot peer : Nat) :
    (server.evict slot).input? peer = server.input? peer := by
  rcases evict_cases server slot with same | ⟨client, roster, removed, same⟩ <;> rw [same]
  exact input?_updateAll _ _ Connection.unread_close peer

theorem input?_shutdown (server : Server) (peer : Nat) :
    server.shutdown.input? peer = server.input? peer := by
  cases running : server.terminating with
  | true => rw [shutdown_of_terminating running]
  | false =>
    rw [shutdown_of_running running]
    exact input?_updateAll { server with roster := .empty server.roster.capacity } _
      Connection.unread_close peer

theorem input?_leave (server : Server) (peer : Nat) : server.leave.input? peer = server.input? peer :=
  input?_shutdown server peer

theorem input?_setConnection {server : Server} {target : Nat} {c : Connection}
    (found : server.connection? target = some c) (c' : Connection) (peer : Nat) :
    (server.setConnection target c').input? peer =
      if target = peer then some c'.socket.input else server.input? peer := by
  obtain ⟨other, here, -⟩ := Option.bind_eq_some_iff.mp found
  have within := (List.getElem?_eq_some_iff.mp here).1
  unfold input? setConnection
  rw [List.getElem?_set]
  split <;> rfl

/-- In the turn of a client what is read is read from it. -/
theorem input?_serve (server : Server) (target peer : Nat) :
    (server.serve target).input? peer =
      if target = peer then
        (server.connection? peer).elim (server.input? peer) fun c => some c.receive.2.socket.input
      else server.input? peer := by
  unfold serve
  cases found : server.connection? target with
  | none =>
    dsimp only
    split
    · next here =>
      rw [← here, found]
      rfl
    · rfl
  | some c =>
    have read := input?_setConnection found c.receive.2 peer
    have goal : (server.setConnection target c.receive.2).input? peer = if target = peer then
        (server.connection? peer).elim (server.input? peer) fun c => some c.receive.2.socket.input
        else server.input? peer := by
      rw [read]
      split
      · next here =>
        rw [← here, found]
        rfl
      · rfl
    dsimp only
    split
    · split
      · exact goal
      · exact ((carried_beside.handle _ (.raw _) _).input peer).trans goal
    · exact (input?_evict _ _ peer).trans goal

/-- **Step**: what a step of the loop reads, it takes from the front of what has arrived. -/
theorem hears_advance (server : Server) (peer : Nat) :
    Hears server peer .turn (server.input? peer) (server.advance.input? peer) := by
  have idle : (∀ target ready source, server.loop ≠ .serving (target :: ready) source) →
      server.advance.input? peer = server.input? peer →
        Hears server peer .turn (server.input? peer) (server.advance.input? peer) := by
    intro away same
    rw [same]
    refine .nothing rfl ?_
    unfold reading? Event.turn
    dsimp only
    split
    · next point => exact absurd point (away _ _ _)
    · rfl
  cases point : server.loop with
  | idle | ended =>
    refine idle (by simp [point]) ?_
    unfold advance
    rw [point]
  | top =>
    refine idle (by simp [point]) ?_
    unfold advance
    rw [point]
    dsimp only
    split
    · exact input?_leave server peer
    · split
      · exact input?_reap server peer
      · exact (input?_leave server.reap peer).trans (input?_reap server peer)
  | held polled =>
    refine idle (by simp [point]) ?_
    unfold advance
    rw [point, setPhase_eq]
    rfl
  | woken ready listener source =>
    refine idle (by simp [point]) ?_
    unfold advance
    rw [point]
    dsimp only
    split
    · exact input?_leave server peer
    · rw [setPhase_eq]
      split
      · exact input?_acceptAll { server with phase := _ } peer
      · rfl
  | serving ready source =>
    cases ready with
    | nil =>
      refine idle (by simp [point]) ?_
      unfold advance
      rw [point]
      exact (carried_beside.pollSource { server with loop := .top } source).input peer
    | cons target ready =>
      have served : server.advance.input? peer = _ :=
        (congrArg (·.input? peer) (show server.advance = serve { server with loop := .serving ready source }
          target by unfold advance; rw [point])).trans (input?_serve _ target peer)
      rw [served]
      have reading : server.reading? peer .turn =
          if target = peer then (server.connection? peer).bind Connection.reading? else none := by
        unfold reading? Event.turn
        rw [point]
      by_cases here : target = peer
      · rw [if_pos here] at reading ⊢
        change Hears server peer .turn (server.input? peer) ((server.connection? peer).elim _ _)
        cases found : server.connection? peer with
        | none =>
          rw [found] at reading
          exact .nothing rfl reading
        | some c =>
          rw [found] at reading
          rw [input?_of_some found]
          change Hears server peer .turn _ (some c.receive.2.socket.input)
          rw [Connection.input_receive]
          change server.reading? peer .turn = c.reading? at reading
          unfold Connection.reading? at reading
          split at reading
          · next connected =>
            rw [if_pos connected]
            exact .reads rfl reading
          · next gone =>
            rw [if_neg gone]
            exact .nothing rfl reading
      · rw [if_neg here] at reading ⊢
        exact .nothing rfl reading

theorem input?_connect (server : Server) (acceptance : Acceptance) (peer : Nat) :
    (server.connect ⟨.opened, [], acceptance⟩).input? peer =
      if peer = server.peers.length then some .opened else server.input? peer := by
  unfold input? connect
  dsimp only
  rw [List.getElem?_append]
  split
  · next within => rw [if_neg (Nat.ne_of_lt within)]
  · next beyond =>
    rw [List.getElem?_eq_none (Nat.le_of_not_lt beyond)]
    split
    · next here =>
      rw [here, Nat.sub_self]
      rfl
    · rw [List.getElem?_eq_none (by simp only [List.length_singleton]; omega)]

theorem Operation.reading?_of_ne_advance (server : Server) (peer : Nat) {operation : Operation}
    (own : operation.Own) (other : operation ≠ .advance) :
    server.reading? peer (.does operation own) = none := by
  unfold reading?
  split
  · next same =>
    cases same
    exact absurd rfl other
  · rfl

/-- **Step**: an event leaves what has arrived from a peer, or puts bytes behind it, or takes a piece from
its front. -/
theorem hears_happen (server : Server) (peer : Nat) (event : Event) :
    Hears server peer event (server.input? peer) ((server.happen event).input? peer) := by
  cases event with
  | connects acceptance =>
    rw [show (server.happen (.connects acceptance)).input? peer = _ from input?_connect server acceptance peer]
    split
    · next here =>
      have nobody : server.input? peer = none := by
        unfold input?
        rw [here, List.getElem?_eq_none (Nat.le_refl _)]
        rfl
      rw [nobody]
      exact .comes rfl rfl
    · exact .nothing rfl rfl
  | arrives target bytes =>
    have arrived := input?_transported server target
      (fun socket => if socket.input.finish = .opened then socket.arrive bytes else socket) peer
    rw [show (server.happen (.arrives target bytes)).input? peer = _ from arrived]
    have arriving : server.arriving peer (.arrives target bytes) =
        if target = peer ∧ server.isOpen peer then bytes else [] := rfl
    split
    · next here =>
      subst here
      simp only [true_and] at arriving
      unfold isOpen input? at arriving
      unfold input?
      cases found : server.peers[target]? with
      | none =>
        rw [found] at arriving
        exact .nothing arriving rfl
      | some other =>
        rw [found] at arriving
        change _ = if decide (other.socket.input.finish = .opened) = true then bytes else [] at arriving
        change Hears server target _ (some other.socket.input) (some (if _ then _ else _ : Socket).input)
        split
        · next opened =>
          rw [if_pos (decide_eq_true opened)] at arriving
          have hears := @Hears.arrives server target (.arrives target bytes) _ opened rfl
          rw [arriving] at hears
          exact hears
        · next finished =>
          rw [if_neg fun opened => finished (of_decide_eq_true opened)] at arriving
          exact .nothing arriving rfl
    · next away =>
      rw [if_neg fun both => away both.1] at arriving
      exact .nothing arriving rfl
  | ends target =>
    refine hears_transported _ (fun socket => ?_) (fun socket finished => ?_) rfl rfl
    · change socket.input.close.queue = _
      unfold Inbound.close
      split <;> rfl
    · change socket.input.close.finish ≠ _
      unfold Inbound.close
      rw [if_neg finished]
      exact finished
  | leaves target =>
    refine hears_transported _ (fun socket => ?_) (fun socket finished => ?_) rfl rfl
    · change socket.input.close.queue = _
      unfold Inbound.close
      split <;> rfl
    · change socket.input.close.finish ≠ _
      unfold Inbound.close
      rw [if_neg finished]
      exact finished
  | resets target => exact hears_transported Socket.peerResets (fun _ => rfl) (fun _ _ => nofun) rfl rfl
  | interrupts target failure =>
    exact hears_transported (fun socket => { socket with input := socket.input.interrupt failure })
      (fun _ => rfl) (fun _ => id) rfl rfl
  | takes target acceptance =>
    exact hears_transported (fun socket => { socket with output := { socket.output with acceptance } })
      (fun _ => rfl) (fun _ => id) rfl rfl
  | does operation own =>
    have same : operation ≠ .advance → (server.operate operation).input? peer = server.input? peer →
        Hears server peer (.does operation own) (server.input? peer) ((server.operate operation).input? peer) := by
      intro other same
      rw [same]
      exact .nothing rfl (Operation.reading?_of_ne_advance server peer own other)
    cases quiet : operation.isQuiet with
    | true =>
      refine same (fun advance => ?_) ((carried_beside.operate server quiet).input peer)
      rw [advance] at quiet
      cases quiet
    | false =>
      cases operation with
      | advance => exact hears_advance server peer
      | shutdown => exact same nofun (input?_shutdown server peer)
      | start =>
        refine same nofun ?_
        change server.enterLoop.input? peer = _
        unfold enterLoop
        split <;> rfl
      | connect | transport => exact own.elim
      | _ => cases quiet

/-- What has not been read and what arrives are the piece that is read and what is left. -/
theorem unread_happen (server : Server) (peer : Nat) (event : Event) :
    server.unread peer ++ server.arriving peer event =
      (server.piece? peer event).toList.flatten ++ (server.happen event).unread peer := by
  have hears := hears_happen server peer event
  unfold unread piece?
  generalize server.input? peer = before, (server.happen event).input? peer = after at hears ⊢
  cases hears with
  | nothing quiet left | comes quiet left =>
    rw [quiet, left, List.append_nil]
    rfl
  | arrives opened left =>
    rw [left]
    rfl
  | turns queue finished quiet left =>
    rw [quiet, left, List.append_nil]
    exact queue.symm
  | reads quiet reading =>
    rw [quiet, reading, List.append_nil]
    exact Inbound.queue_read _ messageLimit

/-- **Run**: the pieces read from a peer are consecutive pieces of its stream. -/
theorem unread_happenAll (server : Server) (peer : Nat) (events : List Event) :
    server.unread peer ++ server.stream peer events =
      (server.pieces peer events).flatten ++ (server.happenAll events).unread peer := by
  induction events generalizing server with
  | nil => exact List.append_nil _
  | cons event events ih =>
    calc server.unread peer ++ (server.arriving peer event ++ (server.happen event).stream peer events)
        = (server.piece? peer event).toList.flatten ++
            ((server.happen event).unread peer ++ (server.happen event).stream peer events) := by
          rw [← List.append_assoc, unread_happen, List.append_assoc]
      _ = (server.pieces peer (event :: events)).flatten ++
            (server.happenAll (event :: events)).unread peer := by
          rw [ih, ← List.append_assoc, pieces, List.flatten_append]
          rfl

/-- A piece is not empty, and no longer than the limit. -/
theorem length_of_mem_pieces {server : Server} {peer : Nat} {events : List Event} {piece : List UInt8}
    (isIn : piece ∈ server.pieces peer events) : piece ≠ [] ∧ piece.length ≤ messageLimit := by
  induction events generalizing server with
  | nil => cases isIn
  | cons event events ih =>
    rcases List.mem_append.mp isIn with here | later
    · have taken := Option.mem_toList.mp here
      have hears := hears_happen server peer event
      generalize server.input? peer = before, (server.happen event).input? peer = after at hears
      unfold piece? at taken
      cases hears with
      | nothing _ left | comes _ left | arrives _ left | turns _ _ _ left =>
        rw [left] at taken
        cases taken
      | reads _ reading =>
        rw [reading] at taken
        exact Inbound.length_piece _ (by decide) taken
    · exact ih later

/-! ## The end of a stream -/

/-- Nothing arrives any more from this peer. -/
def Finished (server : Server) (peer : Nat) : Prop :=
  ∃ inbound, server.input? peer = some inbound ∧ inbound.finish ≠ .opened

theorem Finished.happen {server : Server} {peer : Nat} (finished : server.Finished peer) (event : Event) :
    (server.happen event).Finished peer ∧ server.arriving peer event = [] := by
  obtain ⟨inbound, found, closed⟩ := finished
  have hears := hears_happen server peer event
  unfold Finished
  rw [found] at hears
  generalize (server.happen event).input? peer = after at hears ⊢
  cases hears with
  | nothing quiet => exact ⟨⟨inbound, rfl, closed⟩, quiet⟩
  | arrives opened => exact absurd opened closed
  | turns _ kept quiet => exact ⟨⟨_, rfl, kept closed⟩, quiet⟩
  | reads quiet => exact ⟨⟨_, rfl, inbound.finish_read closed⟩, quiet⟩

theorem Finished.stream {server : Server} {peer : Nat} (finished : server.Finished peer)
    (events : List Event) : server.stream peer events = [] := by
  induction events generalizing server with
  | nil => rfl
  | cons event events ih =>
    obtain ⟨finished', quiet⟩ := finished.happen event
    rw [Server.stream, quiet, ih finished']
    rfl

theorem stream_append (server : Server) (peer : Nat) (first second : List Event) :
    server.stream peer (first ++ second) =
      server.stream peer first ++ (server.happenAll first).stream peer second := by
  induction first generalizing server with
  | nil => rfl
  | cons event first ih =>
    rw [List.cons_append, stream, stream, ih, List.append_assoc]
    rfl

/-- Once the end has been read, all of the stream has been. -/
theorem finished_of_ended {server : Server} {peer : Nat} {event : Event}
    (ended : server.reading? peer event = some .ended) :
    server.Finished peer ∧ server.unread peer = [] := by
  have hears := hears_happen server peer event
  unfold Finished unread
  generalize server.input? peer = before, (server.happen event).input? peer = after at hears ⊢
  cases hears with
  | nothing _ left | comes _ left | arrives _ left | turns _ _ _ left => cases ended.symm.trans left
  | reads _ reading =>
    obtain ⟨empty, closed⟩ := Inbound.of_read_ended _ (Option.some.inj (reading.symm.trans ended))
    exact ⟨⟨_, rfl, closed⟩, empty⟩

/-! ## Iterations -/

variable {capacity : Nat} {server : Server}

theorem turns_append (server : Server) (first second : List Operation) :
    server.turns (first ++ second) = server.turns first ++ (server.operateAll first).turns second := by
  induction first generalizing server with
  | nil => rfl
  | cons operation first ih =>
    cases operation with
    | advance =>
      change server.turn?.toList ++ server.advance.turns (first ++ second) = _
      rw [ih, ← List.append_assoc]
      rfl
    | _ => exact ih _

/-- Within an iteration the turns of clients are those of higher and higher slots. -/
theorem Turn.slot_lt_of_chain {slot slot' : Nat} {between : List Turn}
    (chain : List.IsChain Turn.Next (.client slot :: (between ++ [.client slot'])))
    (within : Turn.begins ∉ between) : slot < slot' := by
  induction between generalizing slot with
  | nil =>
    cases (List.isChain_cons_cons.mp chain).1 with
    | later higher => exact higher
  | cons turn between ih =>
    obtain ⟨next, chain⟩ := List.isChain_cons_cons.mp chain
    rw [List.mem_cons, not_or] at within
    cases next with
    | later higher => exact Nat.lt_trans higher (ih chain within.2)
    | last =>
      -- behind the command source only an iteration can begin
      cases between with
      | nil => cases (List.isChain_cons_cons.mp chain).1
      | cons turn between =>
        cases (List.isChain_cons_cons.mp chain).1
        exact absurd List.mem_cons_self within.2

/-- A read is made in the turn of the client. -/
theorem turn?_of_reading {peer : Nat} {reading : Reading} (read : server.reading? peer .turn = some reading) :
    ∃ slot, server.slot? peer = some slot ∧ server.turn? = some (.client slot) := by
  unfold reading? Event.turn at read
  dsimp only at read
  split at read
  · next target ready source point =>
    split at read
    · next here =>
      obtain ⟨c, found, -⟩ := Option.bind_eq_some_iff.mp read
      have has : server.slot? peer = some c.slot := by
        unfold slot?
        rw [found]
        rfl
      refine ⟨c.slot, has, ?_⟩
      unfold turn?
      rw [point]
      dsimp only
      rw [here, has]
      rfl
    · cases read
  · cases read

theorem slot?_happenAll {peer slot : Nat} (has : server.slot? peer = some slot) (events : List Event) :
    (server.happenAll events).slot? peer = some slot := by
  induction events generalizing server with
  | nil => exact has
  | cons event events ih => exact ih ((evolves_operate server _).slot? has)

/-- An iteration begins between two reads on a connection. -/
theorem Seated.begins_between {last : Option Turn} (seated : server.Seated)
    (inTurn : server.InTurn server.loop last) {before between : List Event} {peer : Nat}
    {first second : Reading} (earlier : (server.happenAll before).reading? peer .turn = some first)
    (later : (server.happenAll (before ++ .turn :: between)).reading? peer .turn = some second) :
    .begins ∈ ((server.happenAll before).happen .turn).turns
      (((server.happenAll before).happen .turn).operations between) := by
  rw [happenAll_append] at later
  generalize reachedEq : server.happenAll before = reached at earlier later ⊢
  obtain ⟨slot, has, turn⟩ := turn?_of_reading earlier
  obtain ⟨slot', has', turn'⟩ := turn?_of_reading later
  have same : slot' = slot := Option.some.inj (has'.symm.trans (slot?_happenAll has _))
  subst same
  by_contra within
  have chain := seated.isChain_turns inTurn
    (server.operations before ++ .advance :: (reached.advance.operations between ++ [.advance]))
  rw [turns_append, ← happenAll_eq, reachedEq, turns, turns_append, ← happenAll_eq] at chain
  have final : (reached.advance.happenAll between).turns [.advance] = [.client slot'] := by
    change ((reached.advance.happenAll between).turn?.toList ++ []) = _
    rw [show (reached.advance.happenAll between).turn? = some (.client slot') from turn']
    rfl
  rw [turn, final, ← List.append_assoc] at chain
  have tail := chain.right_of_append
  exact Nat.lt_irrefl slot' (Turn.slot_lt_of_chain tail within)

/-! ## Whose turn comes -/

/-- A client that has said something when the loop waits for it has its turn to come, unless the server is
shut down. -/
def Awaited (server : Server) (peer : Nat) : Prop :=
  match server.loop with
  | .held polled => server.terminating = true ∨ peer ∈ polled ∧ server.unread peer ≠ []
  | .woken ready _ _ => server.terminating = true ∨ peer ∈ ready
  | .serving ready _ => peer ∈ ready
  | .ended => True
  | .idle | .top => False

/-- What is done beside the loop leaves a client its turn. -/
theorem Awaited.beside {server' : Server} {peer : Nat} (awaited : server.Awaited peer)
    (loop : server'.loop = server.loop)
    (terminating : server.terminating = true → server'.terminating = true)
    (unread : server.unread peer ≠ [] → server'.unread peer ≠ []) : server'.Awaited peer := by
  unfold Awaited at awaited ⊢
  rw [loop]
  generalize server.loop = point at awaited ⊢
  cases point with
  | held => exact awaited.imp terminating (And.imp_right unread)
  | woken => exact awaited.imp_left terminating
  | serving | ended | idle | top => exact awaited

theorem loop_shutdown (server : Server) : server.shutdown.loop = server.loop := by
  cases running : server.terminating with
  | true => rw [shutdown_of_terminating running]
  | false =>
    rw [shutdown_of_running running]
    rfl

/-- In a step of the loop a client has its turn, or the turn is still to come. -/
theorem Housed.awaited_advance (housed : server.Housed capacity) {peer : Nat} (awaited : server.Awaited peer) :
    (∃ ready source, server.loop = .serving (peer :: ready) source) ∨ server.advance.Awaited peer := by
  unfold Awaited at awaited
  cases point : server.loop with
  | idle | top =>
    rw [point] at awaited
    exact awaited.elim
  | ended =>
    right
    unfold advance Awaited
    rw [point]
    dsimp only
    rw [point]
    trivial
  | held polled =>
    rw [point] at awaited
    right
    unfold advance
    rw [point]
    change (server.setPhase .running).terminating = true ∨ peer ∈ polled.filter _
    rw [setPhase_eq]
    cases running : server.terminating with
    | true => exact .inl rfl
    | false =>
      obtain ⟨isIn, something⟩ := awaited.resolve_left (Bool.eq_false_iff.mp running)
      obtain ⟨c, found, -⟩ := housed.held_of_pending running
        (show peer ∈ server.loop.pending by rw [point]; exact isIn)
      have queue : c.socket.input.queue ≠ [] := by
        unfold unread at something
        rw [input?_of_some found] at something
        exact something
      have ready : c.isReady = true := by
        unfold Connection.isReady Inbound.isReady
        cases same : c.socket.input.queue with
        | nil => exact absurd same queue
        | cons => rfl
      refine .inr (List.mem_filter.mpr ⟨isIn, ?_⟩)
      obtain ⟨other, here, accepted⟩ := Option.bind_eq_some_iff.mp found
      change server.peers[peer]?.any Peer.isReady = true
      rw [here, Option.any_some, Peer.isReady, accepted, Option.any_some]
      exact ready
  | woken ready listener source =>
    rw [point] at awaited
    right
    unfold advance
    rw [point]
    dsimp only
    split
    · trivial
    · next running => exact awaited.resolve_left running
  | serving ready source =>
    rw [point] at awaited
    cases ready with
    | nil => cases awaited
    | cons target ready =>
      rcases List.mem_cons.mp awaited with rfl | later
      · exact .inl ⟨ready, source, rfl⟩
      · right
        unfold advance Awaited
        rw [point]
        dsimp only
        rw [(within_serve _ _).loop]
        exact later

/-- **Step**: with every event a client has its turn, or the turn is still to come. -/
theorem Housed.awaited_happen (housed : server.Housed capacity) {peer : Nat} (awaited : server.Awaited peer)
    (event : Event) : (event = .turn ∧ ∃ ready source, server.loop = .serving (peer :: ready) source) ∨
      (server.happen event).Awaited peer := by
  have stays : server.reading? peer event = none → (server.happen event).loop = server.loop →
      (server.happen event).Awaited peer := by
    intro left loop
    refine awaited.beside loop (fun terminating => ?_) (fun something nothing => something ?_)
    · have ended := housed.sound.ended terminating
      exact (ended.lingers (ended.operate (event.operation server)).1).terminating
    · have same := unread_happen server peer event
      rw [nothing, piece?, left] at same
      exact (List.append_eq_nil_iff.mp same).1
  have transports : ∀ target change, (server.operate (server.transported target change)).loop = server.loop := by
    intro target change
    unfold transported
    cases server.peers[target]? <;> rfl
  cases event with
  | connects => exact .inr (stays rfl rfl)
  | arrives | ends | leaves | resets | interrupts | takes =>
    refine .inr (stays rfl ?_)
    unfold happen Event.operation
    exact transports _ _
  | does operation own =>
    by_cases turn : operation = .advance
    · subst turn
      exact (housed.awaited_advance awaited).imp_left fun now => ⟨rfl, now⟩
    · right
      by_cases begin : operation = .start
      · subst begin
        refine stays rfl ?_
        change server.enterLoop.loop = server.loop
        unfold enterLoop
        split
        · next idle =>
          unfold Awaited at awaited
          rw [idle] at awaited
          exact awaited.elim
        · rfl
      · refine stays (Operation.reading?_of_ne_advance server peer own turn) ?_
        cases quiet : operation.isQuiet with
        | true => exact (carried_beside.operate server quiet).loop
        | false =>
          cases operation with
          | advance => exact absurd rfl turn
          | start => exact absurd rfl begin
          | shutdown => exact loop_shutdown server
          | connect | transport => exact own.elim
          | _ => cases quiet

/-- **Run**: before the loop comes to its next iteration, a client that is awaited has had its turn. -/
theorem Housed.exists_turn_of_awaited (housed : server.Housed capacity) {peer : Nat}
    (awaited : server.Awaited peer) {events : List Event} (again : (server.happenAll events).loop = .top) :
    ∃ before after, events = before ++ .turn :: after ∧
      ∃ ready source, (server.happenAll before).loop = .serving (peer :: ready) source := by
  induction events generalizing server with
  | nil =>
    unfold Awaited at awaited
    rw [show server.loop = .top from again] at awaited
    exact awaited.elim
  | cons event events ih =>
    rcases housed.awaited_happen awaited event with ⟨rfl, now⟩ | awaited'
    · exact ⟨[], events, rfl, now⟩
    · obtain ⟨before, after, same, now⟩ := ih (housed.operate _) awaited' again
      exact ⟨event :: before, after, by rw [same]; rfl, now⟩

theorem Housed.happenAll (housed : server.Housed capacity) (events : List Event) :
    (server.happenAll events).Housed capacity := by
  rw [happenAll_eq]
  exact housed.operateAll _

end Server
end TelemetryHub
