import TelemetryHub.Proofs.Command.Parsing
import TelemetryHub.Proofs.Server.Replay
import TelemetryHub.Proofs.Server.Texts

/-!
# Clients and operators

A client and an operator who types are two channels on which a server gets its commands (`Channel`), and the
same can happen on both of them (`Feed`). A connection and a source of typed commands that have the same in
front of them have the same in front of them after a turn, and they give the same text, but that the source
passes blank ones over (`Interactive.Mirrors.text?_poll`). Since a blank text is no command, the servers
behind the two channels have the same gates whatever happens, as long as the client takes what is sent to it
(`channels_alike`).
-/

namespace TelemetryHub

/-! ## Blank texts -/

/-- Whether a text is nothing but blanks. -/
def isBlank (text : String) : Bool := text.toList.all Text.isBlank

theorem isBlank_eq (text : String) : isBlank text = (Text.trim text.toList).isEmpty := by
  rw [Bool.eq_iff_iff, List.isEmpty_iff, Text.trim_eq_nil_iff]
  exact List.all_eq_true

theorem isBlank_of_isEmpty {text : String} (empty : text.isEmpty = true) : isBlank text = true := by
  rw [String.isEmpty_iff.mp empty]
  rfl

/-- A blank text is no command. -/
theorem Incoming.command?_of_isBlank {text : String} (blank : isBlank text = true) :
    (Incoming.raw text).command? = none := by
  have nothing : Text.trim text.toList = [] := List.isEmpty_iff.mp (isBlank_eq text ▸ blank)
  obtain ⟨mistake, malformed⟩ := @Command.parse_of_not_spells text fun message spells => by
    obtain ⟨c, more, same, -⟩ := spells.bracket
    rw [nothing] at same
    cases same
  exact congrArg Except.toOption malformed

/-! ## One read on both sides -/

/-- The text of a turn of a source of typed commands. -/
def Typed.text? : Typed → Option String
  | .message text => some text
  | _ => none

theorem Source.poll_interactive (operator : Interactive) (readable : Bool) :
    (Source.interactive operator).poll readable =
      ((operator.poll readable).1.text?.map .raw, .interactive (operator.poll readable).2) := by
  unfold poll
  dsimp only
  generalize operator.poll readable = turn
  obtain ⟨typed, after⟩ := turn
  cases typed <;> rfl

/-- Whether nothing can be read any more: the end has been read, or a failure that does not pass. -/
def Reading.isLast : Reading → Bool
  | .bytes _ => false
  | .ended => true
  | .failed failure => !failure.isTransient

/-- What a client says is the text of what is read; without one it has nothing to say, now or ever. -/
theorem Connection.toOption_receive {c : Connection} (connected : c.isConnected = true) :
    (c.receive.1.toOption.filter fun text => !text.isEmpty) =
        ((c.socket.input.read messageLimit).1.piece?.map said).filter (fun text => !text.isEmpty) ∧
      c.receive.1.isOk = !(c.socket.input.read messageLimit).1.isLast := by
  rw [fst_receive connected]
  cases (c.socket.input.read messageLimit).1 with
  | bytes | ended => exact ⟨rfl, rfl⟩
  | failed failure =>
    unfold Reading.isLast
    dsimp only
    cases failure.isTransient <;> exact ⟨rfl, rfl⟩

namespace Interactive

/-- An operator has the same in front of it as a client, and it is exhausted when the client is gone. -/
structure Mirrors (operator : Interactive) (c : Connection) : Prop where
  input : operator.input = c.socket.input
  exhausted : operator.exhausted = !c.isConnected

variable {operator : Interactive} {c : Connection}

theorem poll_of_listening (listening : operator.exhausted = false) :
    operator.poll true =
      match operator.input.read messageLimit with
      | (.bytes piece, input) => (typed piece, { operator with input })
      | (.ended, input) => (.ended, { operator with input, exhausted := true })
      | (.failed failure, input) =>
        if failure.isTransient then (.nothing, { operator with input })
        else (.failed failure, { operator with input, exhausted := true }) := by
  unfold poll
  rw [listening, if_neg (by decide)]
  generalize operator.input.read messageLimit = read
  obtain ⟨reading, input⟩ := read
  cases reading <;> rfl

theorem text?_typed (piece : List UInt8) :
    (typed piece).text? = (some (said piece)).filter fun text => !isBlank text := by
  have same : isBlank (said piece) = (Text.trim (messageText piece)).isEmpty := by
    rw [isBlank_eq, said, String.toList_ofList]
    rfl
  unfold typed
  rw [Option.filter_some, same]
  dsimp only
  cases (Text.trim (messageText piece)).isEmpty <;> rfl

variable (mirrors : operator.Mirrors c)

include mirrors

/-- An operator says what a client says, unless it is blank. -/
theorem Mirrors.text?_poll :
    (operator.poll true).1.text? = c.receive.1.toOption.filter fun text => !isBlank text := by
  obtain ⟨input, exhausted⟩ := mirrors
  cases connected : c.isConnected with
  | false =>
    rw [poll_exhausted (exhausted.trans (congrArg not connected)), Connection.receive_of_gone connected]
    rfl
  | true =>
    rw [poll_of_listening (exhausted.trans (congrArg not connected)), c.fst_receive connected, input]
    generalize c.socket.input.read messageLimit = read
    obtain ⟨reading, after⟩ := read
    cases reading with
    | bytes piece => exact text?_typed piece
    | ended => rfl
    | failed failure =>
      dsimp only
      cases failure.isTransient <;> rfl

/-- After a turn of both they have the same in front of them again, and they have come to their ends
together. -/
theorem Mirrors.poll : (operator.poll true).2.Mirrors c.receive.2 := by
  obtain ⟨input, exhausted⟩ := mirrors
  cases connected : c.isConnected with
  | false =>
    rw [poll_exhausted (exhausted.trans (congrArg not connected)), c.receive_of_gone connected]
    exact ⟨input, exhausted⟩
  | true =>
    rw [connected] at exhausted
    have after := c.input_receive
    have connected' := c.isConnected_receive
    rw [if_pos connected] at after
    rw [c.fst_receive connected] at connected'
    rw [poll_of_listening exhausted, input]
    generalize c.socket.input.read messageLimit = read at after connected' ⊢
    obtain ⟨reading, left⟩ := read
    cases reading with
    | bytes piece => exact ⟨after.symm, exhausted.trans (congrArg not connected'.symm)⟩
    | ended => exact ⟨after.symm, congrArg not connected'.symm⟩
    | failed failure =>
      dsimp only at connected' ⊢
      cases transient : failure.isTransient with
      | true =>
        rw [transient] at connected'
        exact ⟨after.symm, exhausted.trans (congrArg not connected'.symm)⟩
      | false =>
        rw [transient] at connected'
        exact ⟨after.symm, congrArg not connected'.symm⟩

end Interactive

/-! ## The turn of a client -/

namespace Server

theorem Stand.exists_after {server server' : Server} (stand : server.Stand server') {peer : Nat}
    {c : Connection} (found : server.connection? peer = some c) :
    ∃ c', server'.connection? peer = some c' ∧ c.Stands c' := by
  have here := stand peer
  unfold connection? at found ⊢
  generalize server.peers[peer]? = before, server'.peers[peer]? = after at here found ⊢
  cases here with
  | none => cases found
  | some stands =>
    cases stands with
    | accepted stands =>
      cases found
      exact ⟨_, rfl, stands⟩
    | waiting | rejected => cases found

/-- Where a client stands between its turns: it is connected and in its own slot, or it is gone and its slot
is free. -/
inductive Attends (server : Server) (peer : Nat) (c : Connection) : Prop where
  | connected (connected : c.isConnected = true)
    (placed : ∀ slot, server.roster.get slot = some peer ↔ slot = c.slot)
  | gone (gone : c.isConnected = false) (free : server.roster.get c.slot = none)
    (nowhere : ∀ slot, server.roster.get slot ≠ some peer)

/-- No send to a client has failed: a failed one leaves it in its slot, but not connected
(`Connection.send_of_connected`). -/
def Delivered (server : Server) (peer : Nat) : Prop :=
  peer ∈ server.roster.clients → server.isConnected peer = true

/-- Whoever is taken out of its only slot is in none. -/
theorem Evicted.nowhere {server server' : Server} {peer : Nat} {c : Connection}
    (evicted : server.Evicted peer c server')
    (placed : ∀ slot, server.roster.get slot = some peer ↔ slot = c.slot) (slot : Nat) :
    server'.roster.get slot ≠ some peer := by
  intro held
  rw [evicted.get] at held
  split at held
  · cases held
  · next away => exact away ((placed slot).mp held).symm

section Turn

variable {server : Server} {peer : Nat} {c : Connection} (found : server.connection? peer = some c)

include found

/-- What a client says is what it is read, unless it is empty. -/
theorem said?_of_some : server.said? peer =
    (c.receive.1.toOption.filter fun text => !text.isEmpty).map .raw := by
  unfold said?
  rw [found]
  dsimp only
  cases c.receive.1 with
  | error _ => rfl
  | ok text =>
    change (if text.isEmpty then _ else _) = ((some text).filter fun text => !text.isEmpty).map Incoming.raw
    rw [Option.filter_some]
    cases text.isEmpty <;> rfl

/-- A client that is gone is left alone, and so is everybody else. -/
theorem attends_serve_of_gone (gone : c.isConnected = false) (free : server.roster.get c.slot = none)
    (nowhere : ∀ slot, server.roster.get slot ≠ some peer) :
    ∃ c', (server.serve peer).connection? peer = some c' ∧ c'.isConnected = false ∧
      (server.serve peer).Attends peer c' := by
  have served : server.serve peer = server.setConnection peer c.receive.2 := by
    have failed : c.receive.1 = .error .closed := by rw [Connection.receive_of_gone gone]
    rw [serve_of_error found failed]
    exact evict_of_vacant free
  rw [served]
  obtain ⟨c', found', stands⟩ := (stand_receive found).exists_after found
  have gone' : c'.isConnected = false := Bool.eq_false_iff.mpr fun back =>
    Bool.eq_false_iff.mp gone (stands.back back)
  refine ⟨c', found', gone', .gone gone' ?_ nowhere⟩
  rw [stands.slot]
  exact free

section Placed

variable (placed : ∀ slot, server.roster.get slot = some peer ↔ slot = c.slot)

include placed

/-- A client that may have more to say stays in its slot. -/
theorem attends_serve_of_ok {text : String} (received : c.receive.1 = .ok text)
    (kept : (server.serve peer).isConnected peer = true) :
    ∃ c', (server.serve peer).connection? peer = some c' ∧ c'.isConnected = true ∧
      (server.serve peer).Attends peer c' := by
  have beside := beside_serve_of_ok found received
  obtain ⟨c', found', stands⟩ := ((stand_receive found).trans beside.stand).exists_after found
  have roster : (server.serve peer).roster = server.roster := beside.roster
  have connected : c'.isConnected = true := (isConnected_of_some found').symm.trans kept
  refine ⟨c', found', connected, .connected connected fun slot => ?_⟩
  rw [roster, stands.slot]
  exact placed slot

/-- A client that has nothing more to say leaves its slot free. -/
theorem attends_serve_of_error {error : TransportError} (failed : c.receive.1 = .error error) :
    ∃ c', (server.serve peer).connection? peer = some c' ∧ c'.isConnected = false ∧
      (server.serve peer).Attends peer c' := by
  have evicted := evicted_serve found failed ((placed c.slot).mpr rfl)
  obtain ⟨c', found', stands⟩ := evicted.stand.exists_after found
  have gone : c'.isConnected = false := by
    unfold Connection.isConnected
    rw [evicted.released c' found']
    rfl
  refine ⟨c', found', gone, .gone gone ?_ (evicted.nowhere placed)⟩
  rw [stands.slot, evicted.get, if_pos rfl]

end Placed

/-- **Step**: a turn takes what there is to be read from a client and leaves it where it stands, or takes it
out when it has nothing more to say. -/
theorem Attends.serve (attends : server.Attends peer c)
    (kept : c.receive.1.isOk = true → (server.serve peer).isConnected peer = true) :
    ∃ c', (server.serve peer).connection? peer = some c' ∧
      c'.socket.input = c.receive.2.socket.input ∧ c'.isConnected = c.receive.2.isConnected ∧
      (server.serve peer).Attends peer c' := by
  obtain ⟨c', found', connected', attends'⟩ : ∃ c', (server.serve peer).connection? peer = some c' ∧
      c'.isConnected = c.receive.1.isOk ∧ (server.serve peer).Attends peer c' := by
    cases attends with
    | gone gone free nowhere =>
      rw [Connection.receive_of_gone gone]
      exact attends_serve_of_gone found gone free nowhere
    | connected connected placed =>
      cases received : c.receive.1 with
      | ok text => exact attends_serve_of_ok found placed received (kept (by rw [received]; rfl))
      | error error => exact attends_serve_of_error found placed received
  refine ⟨c', found', ?_, connected'.trans c.isConnected_receive.symm, attends'⟩
  have read := input?_serve server peer peer
  rw [if_pos rfl, found, input?_of_some found'] at read
  exact Option.some.inj read

/-- A client that may have more to say is kept in its turn, if no send to it fails. -/
theorem Attends.kept (attends : server.Attends peer c) (delivered : (server.serve peer).Delivered peer)
    (more : c.receive.1.isOk = true) : (server.serve peer).isConnected peer = true := by
  cases attends with
  | gone gone =>
    rw [Connection.receive_of_gone gone] at more
    cases more
  | connected connected placed =>
    refine delivered ?_
    cases received : c.receive.1 with
    | error error =>
      rw [received] at more
      cases more
    | ok text =>
      rw [(beside_serve_of_ok found received).roster]
      exact Roster.mem_clients_of_get ((placed c.slot).mpr rfl)

/-- Whoever is where it belongs has had no failed send. -/
theorem Attends.delivered (attends : server.Attends peer c) : server.Delivered peer := by
  intro isIn
  cases attends with
  | connected connected => exact (isConnected_of_some found).trans connected
  | gone _ _ nowhere =>
    obtain ⟨slot, held⟩ := Roster.exists_get_of_mem_clients isIn
    exact absurd held (nowhere slot)

end Turn

/-! ## Clients that take everything -/

/-- A client takes whatever is sent to it. -/
def TakesAll (server : Server) (peer : Nat) : Prop :=
  ∀ c, server.connection? peer = some c → c.socket.output.acceptance = .all

theorem send_of_all {c : Connection} (takes : c.socket.output.acceptance = .all) (payload : List UInt8) :
    (c.send payload).2.isConnected = c.isConnected ∧
      (c.send payload).2.socket.output.acceptance = .all := by
  unfold Connection.send Outbound.write
  rw [takes]
  cases connected : c.isConnected with
  | false => exact ⟨connected, takes⟩
  | true => exact ⟨connected, rfl⟩

/-- A client that takes everything goes on doing so, and it does not go. -/
structure Spares (peer : Nat) (server server' : Server) : Prop where
  takesAll : server.TakesAll peer → server'.TakesAll peer
  connected : server.TakesAll peer → server'.isConnected peer = server.isConnected peer

theorem Spares.trans {peer : Nat} {first second third : Server} (left : Spares peer first second)
    (right : Spares peer second third) : Spares peer first third :=
  ⟨right.takesAll ∘ left.takesAll,
    fun takes => (right.connected (left.takesAll takes)).trans (left.connected takes)⟩

theorem spares_of_same {peer : Nat} {server server' : Server} (peers : server'.peers = server.peers) :
    Spares peer server server' := by
  constructor <;> unfold TakesAll connection? <;> intro takes
  · rw [peers]
    exact takes
  · unfold isConnected
    rw [peers]

theorem takesAll_update {server : Server} {peer client : Nat} {change : Connection → Connection}
    (keeps : ∀ c : Connection, c.socket.output.acceptance = .all → (change c).socket.output.acceptance = .all)
    (takes : server.TakesAll peer) : (server.updateAll [client] change).TakesAll peer := by
  intro c' found'
  rw [connection?_updateAll server (by simp : [client].Nodup)] at found'
  split at found'
  · obtain ⟨c, found, rfl⟩ := Option.map_eq_some_iff.mp found'
    exact keeps c (takes c found)
  · exact takes c' found'

theorem spares_send (peer : Nat) (server : Server) (clients : List Nat) (payload : List UInt8) :
    Spares peer server (server.updateAll clients fun c => (c.send payload).2) := by
  induction clients generalizing server with
  | nil => exact spares_of_same rfl
  | cons client clients ih =>
    have first : Spares peer server (server.updateAll [client] fun c => (c.send payload).2) := by
      refine ⟨takesAll_update fun c takes => (send_of_all takes payload).2, fun takes => ?_⟩
      rw [isConnected_eq, isConnected_eq, connection?_updateAll server (by simp : [client].Nodup)]
      split
      · cases found : server.connection? peer with
        | none => rfl
        | some c => exact (send_of_all (takes c found) payload).1
      · rfl
    exact first.trans (ih _)

theorem carried_spares (peer : Nat) : Carried (Spares peer) where
  beside peers _ _ _ _ _ := spares_of_same peers
  broadcast server record := by
    cases running : server.terminating with
    | true =>
      rw [broadcast_of_terminating running]
      exact spares_of_same rfl
    | false =>
      rw [broadcast_of_running running, appendLog_eq]
      exact (spares_send peer server server.connected (payload record)).trans (spares_of_same rfl)
  trans := .trans

section

variable {server : Server} {peer : Nat} {c : Connection} (found : server.connection? peer = some c)
  (takes : server.TakesAll peer)

include found takes

theorem takesAll_receive : (server.setConnection peer c.receive.2).TakesAll peer := by
  rw [← modifyConnection_of_some found fun c => c.receive.2, modifyConnection_eq]
  refine takesAll_update (fun c takes => ?_) takes
  rw [c.output_receive]
  exact takes

/-- A client that takes everything goes on doing so in its turn. -/
theorem takesAll_serve : (server.serve peer).TakesAll peer := by
  have read := takesAll_receive found takes
  cases received : c.receive.1 with
  | ok text => exact ((carried_spares peer).serve_of_ok server found received).takesAll read
  | error error =>
    rw [serve_of_error found received]
    rcases evict_cases (server.setConnection peer c.receive.2) c.slot with same | ⟨client, roster, -, same⟩ <;>
      rw [same]
    · exact read
    · refine takesAll_update (fun c takes => ?_) read
      rw [c.socket_close]
      exact takes

theorem kept_of_takesAll (more : c.receive.1.isOk = true) : (server.serve peer).isConnected peer = true := by
  cases received : c.receive.1 with
  | error error =>
    rw [received] at more
    cases more
  | ok text =>
    rw [((carried_spares peer).serve_of_ok server found received).connected (takesAll_receive found takes)]
    rw [← modifyConnection_of_some found fun c => c.receive.2, modifyConnection_eq, isConnected_eq,
      connection?_updateAll server (by simp : [peer].Nodup), if_pos List.mem_cons_self, found]
    exact c.isConnected_receive.trans more

end

end Server

/-! ## Channels -/

/-- What can happen on a channel. -/
inductive Feed where
  | arrives (bytes : List UInt8)
  | ends
  /-- The channel breaks behind what has arrived. -/
  | breaks (failure : Failure)
  /-- The next read fails. -/
  | fails (failure : Failure)
  /-- The channel has its turn. -/
  | turn

/-- What a feed makes of what has arrived; in a turn nothing arrives. -/
def Feed.change : Feed → Inbound → Inbound
  | .arrives bytes, inbound => inbound.arrive bytes
  | .ends, inbound => inbound.close
  | .breaks failure, inbound => inbound.broken failure
  | .fails failure, inbound => inbound.interrupt failure
  | .turn, inbound => inbound

/-- What a list of feeds makes of what has arrived. -/
def Feed.changeAll (feeds : List Feed) (inbound : Inbound) : Inbound :=
  feeds.foldl (fun inbound feed => feed.change inbound) inbound

/-- What commands a server: a client, or its command source, at which an operator types. -/
inductive Channel where
  | client (peer : Nat)
  | source

def Incoming.text? : Incoming → Option String
  | .raw text => some text
  | .parsed _ => none

namespace Channel

section

variable (server : Server)

/-- What has come in and has not been read. -/
def input? : Channel → Option Inbound
  | .client peer => server.input? peer
  | .source =>
    match server.source with
    | some (.interactive operator) => some operator.input
    | _ => none

def modify (change : Inbound → Inbound) : Channel → Server
  | .client peer => server.modifySocket peer fun socket => { socket with input := change socket.input }
  | .source => server.typed change

/-- One turn, in which something has been found to read. -/
def turn : Channel → Server
  | .client peer => server.serve peer
  | .source => server.pollSource true

/-- What is handled in a turn. -/
def incoming? : Channel → Option Incoming
  | .client peer => server.said? peer
  | .source => server.supplied? true

/-- The client has been taken out of the roster, or the source is exhausted. -/
def IsOver : Channel → Prop
  | .client peer => peer ∉ server.roster.clients
  | .source => ∃ operator, server.source = some (.interactive operator) ∧ operator.exhausted = true

end

variable (channel : Channel)

def feed (server : Server) : Feed → Server
  | .turn => channel.turn server
  | other => channel.modify server other.change

def feedAll (server : Server) (feeds : List Feed) : Server := feeds.foldl channel.feed server

/-- The text that is handled, if one is. -/
def text? (server : Server) : Feed → Option String
  | .turn => (channel.incoming? server).bind Incoming.text?
  | _ => none

/-- The texts that are handled. -/
def texts (server : Server) : List Feed → List String
  | [] => []
  | feed :: feeds => (channel.text? server feed).toList ++ texts (channel.feed server feed) feeds

/-- Whatever else happens, nothing is read from the channel any more, and nothing is handled. -/
def StaysOver (server : Server) : Prop := ∀ more, channel.IsOver (channel.feedAll server more) ∧
  channel.texts server more = [] ∧
  channel.input? (channel.feedAll server more) = (channel.input? server).map (Feed.changeAll more)

/-- What has been said on a channel is handled. -/
theorem exists_feed_eq_handle {server : Server} {feed : Feed} {text : String}
    (said : channel.text? server feed = some text) :
    ∃ read origin, channel.feed server feed = (Server.handle read (.raw text) origin).2 := by
  cases feed with
  | arrives | ends | breaks | fails => cases said
  | turn =>
    obtain ⟨incoming, has, same⟩ := Option.bind_eq_some_iff.mp said
    cases incoming with
    | parsed => cases same
    | raw text =>
      cases same
      cases channel with
      | client peer =>
        obtain ⟨slot, read, -, handled⟩ := Server.exists_serve_eq_handle has
        exact ⟨read, clientName slot, handled⟩
      | source =>
        obtain ⟨label, read, -, handled⟩ := Server.exists_pollSource_eq_handle has
        exact ⟨read, label, handled⟩

end Channel

/-! ## Step by step -/

namespace Server

/-- A message that is handled is all that comes to the gates. -/
theorem Handles.gates_eq {server server' : Server} {incoming : Option Incoming}
    (handles : Handles server incoming server') :
    server'.gates = server.gatesBehind (incoming.bind Incoming.command?).toList := by
  cases handles with
  | nothing gates => exact gates.trans (ite_self _).symm
  | @message before incoming source gates terminating =>
    rw [gates_handle]
    unfold gatesBehind
    rw [gates, terminating]
    rfl

/-- Whatever is handled, the source is what its turn has left. -/
theorem source_pollSource (server : Server) (ready : Bool) :
    (server.pollSource ready).source = server.source.map fun source => (source.poll ready).2 := by
  unfold pollSource
  cases found : server.source with
  | none => exact found
  | some source =>
    dsimp only
    cases (source.poll ready).1 with
    | none => rfl
    | some incoming => exact (aside_handle _ _ _).source

/-- The gates of two servers are the same, and what is in front of an operator of the one is what is in
front of a client of the other. -/
structure Alike (peer : Nat) (server other : Server) (c : Connection) (operator : Interactive) : Prop where
  found : server.connection? peer = some c
  attends : server.Attends peer c
  given : other.source = some (.interactive operator)
  mirrors : operator.Mirrors c
  gates : other.gates = server.gates
  terminating : other.terminating = server.terminating

namespace Alike

variable {peer : Nat} {server other : Server} {c : Connection} {operator : Interactive}
  (alike : Alike peer server other c operator)

include alike

/-- In a turn of both, the same text is handled, or the operator passes over a blank one. -/
theorem exists_text : ∃ text : Option String, server.said? peer = text.map .raw ∧
    other.supplied? true = (text.filter fun text => !isBlank text).map .raw := by
  refine ⟨_, said?_of_some alike.found, ?_⟩
  unfold supplied?
  rw [alike.given, Option.bind_some, Source.poll_interactive, alike.mirrors.text?_poll]
  refine congrArg (Option.map Incoming.raw) ?_
  cases c.receive.1.toOption with
  | none => rfl
  | some text =>
    rw [Option.filter_some, Option.filter_some]
    cases empty : text.isEmpty with
    | true =>
      rw [isBlank_of_isEmpty empty]
      rfl
    | false => rfl

/-- What passes for nothing with an operator does not come to the gates from a client. -/
theorem gates_turn : (other.pollSource true).gates = (server.serve peer).gates := by
  obtain ⟨text, said, supplied⟩ := alike.exists_text
  rw [(handles_pollSource other true).gates_eq, (handles_serve server peer).gates_eq, said, supplied]
  have same : ((text.filter fun text => !isBlank text).map Incoming.raw).bind Incoming.command? =
      (text.map Incoming.raw).bind Incoming.command? := by
    cases text with
    | none => rfl
    | some text =>
      rw [Option.filter_some]
      cases blank : isBlank text with
      | true => exact (Incoming.command?_of_isBlank blank).symm
      | false => rfl
  unfold gatesBehind
  rw [same, alike.gates, alike.terminating]

/-- After a turn the servers are alike again. -/
theorem turn (kept : c.receive.1.isOk = true → (server.serve peer).isConnected peer = true) :
    ∃ c' operator', Alike peer (server.serve peer) (other.pollSource true) c' operator' ∧
      c'.socket.input = c.receive.2.socket.input ∧ c'.isConnected = c.receive.2.isConnected := by
  obtain ⟨c', found, input, connected, attends⟩ := alike.attends.serve alike.found kept
  obtain ⟨mirrored, exhausted⟩ := alike.mirrors.poll
  refine ⟨c', (operator.poll true).2, ⟨found, attends, ?_, ⟨?_, ?_⟩, alike.gates_turn, ?_⟩, input, connected⟩
  · rw [source_pollSource, alike.given, Option.map_some, Source.poll_interactive]
  · rw [mirrored, input]
  · rw [exhausted, connected]
  · rw [(within_pollSource other true).terminating, (within_serve server peer).terminating, alike.terminating]

/-- What arrives on both channels leaves the servers alike. -/
theorem modify (change : Inbound → Inbound) :
    Alike peer ((Channel.client peer).modify server change) (Channel.source.modify other change)
      { c with socket := { c.socket with input := change c.socket.input } }
      { operator with input := change operator.input } := by
  obtain ⟨found, attends, given, ⟨input, exhausted⟩, gates, terminating⟩ := alike
  have changed : other.typed change =
      { other with source := some (.interactive { operator with input := change operator.input }) } := by
    unfold typed
    rw [given]
  unfold Channel.modify
  rw [changed]
  refine ⟨?_, ?_, rfl, ⟨congrArg change input, exhausted⟩, gates, terminating⟩
  · rw [connection?_modifySocket, found, Option.map_some, if_pos rfl]
  · cases attends with
    | connected connected placed => exact .connected connected placed
    | gone gone free nowhere => exact .gone gone free nowhere

/-- **Step**: whatever happens on both channels, the servers are alike again. A client that is gone is left
alone. -/
theorem feed (feed : Feed)
    (kept : feed = .turn → c.receive.1.isOk = true → (server.serve peer).isConnected peer = true) :
    ∃ c' operator', Alike peer ((Channel.client peer).feed server feed) (Channel.source.feed other feed)
        c' operator' ∧
      (c.isConnected = false → c'.isConnected = false ∧ c'.socket.input = feed.change c.socket.input) := by
  cases feed with
  | arrives | ends | breaks | fails => exact ⟨_, _, alike.modify _, fun gone => ⟨gone, rfl⟩⟩
  | turn =>
    obtain ⟨c', operator', alike', input, connected⟩ := alike.turn (kept rfl)
    refine ⟨c', operator', alike', fun gone => ?_⟩
    rw [Connection.receive_of_gone gone] at input connected
    exact ⟨connected.trans gone, input⟩

theorem filter_text? (feed : Feed) :
    (((Channel.client peer).text? server feed).filter fun text => !isBlank text) =
      Channel.source.text? other feed := by
  cases feed with
  | arrives | ends | breaks | fails => rfl
  | turn =>
    obtain ⟨text, said, supplied⟩ := alike.exists_text
    have told : ∀ text : Option String, (text.map Incoming.raw).bind Incoming.text? = text := by
      intro text
      cases text <;> rfl
    unfold Channel.text? Channel.incoming?
    dsimp only
    rw [said, supplied, told, told]

/-- A client that is gone says nothing. -/
theorem text?_of_gone (gone : c.isConnected = false) (feed : Feed) :
    (Channel.client peer).text? server feed = none := by
  cases feed with
  | arrives | ends | breaks | fails => rfl
  | turn =>
    unfold Channel.text? Channel.incoming?
    dsimp only
    rw [said?_of_some alike.found, Connection.receive_of_gone gone]
    rfl

theorem input?_client : (Channel.client peer).input? server = some c.socket.input :=
  input?_of_some alike.found

theorem input?_source : Channel.source.input? other = some c.socket.input := by
  unfold Channel.input?
  dsimp only
  rw [alike.given, ← alike.mirrors.input]

theorem isOver_client : (Channel.client peer).IsOver server ↔ c.isConnected = false := by
  unfold Channel.IsOver
  dsimp only
  cases alike.attends with
  | connected connected placed =>
    rw [connected]
    exact iff_of_false (fun out => out (Roster.mem_clients_of_get ((placed c.slot).mpr rfl))) (by decide)
  | gone gone free nowhere =>
    refine iff_of_true (fun isIn => ?_) gone
    obtain ⟨slot, held⟩ := Roster.exists_get_of_mem_clients isIn
    exact nowhere slot held

theorem isOver_source : Channel.source.IsOver other ↔ c.isConnected = false := by
  unfold Channel.IsOver
  rw [alike.given]
  have exhausted := alike.mirrors.exhausted
  constructor
  · rintro ⟨operator', same, ended⟩
    cases same
    rw [ended] at exhausted
    simpa using exhausted.symm
  · intro gone
    exact ⟨operator, rfl, exhausted.trans (congrArg not gone)⟩

/-- A feed after which no send to the client has failed has kept it. -/
theorem kept {feed : Feed} (delivered : ((Channel.client peer).feed server feed).Delivered peer)
    (turn : feed = .turn) (more : c.receive.1.isOk = true) : (server.serve peer).isConnected peer = true := by
  subst turn
  exact alike.attends.kept alike.found delivered more

/-- One read is made in the turn of a client that is connected. The text of its piece is handled, if it is not
empty, and the client is taken out if there is nothing more to read. -/
theorem reads (connected : c.isConnected = true) :
    (Channel.client peer).input? (server.serve peer) = some (c.socket.input.read messageLimit).2 ∧
    (Channel.client peer).text? server .turn =
      ((c.socket.input.read messageLimit).1.piece?.map said).filter (fun text => !text.isEmpty) ∧
    ((Channel.client peer).IsOver (server.serve peer) ↔
      (c.socket.input.read messageLimit).1.isLast = true) := by
  obtain ⟨heard, more⟩ := Connection.toOption_receive connected
  refine ⟨?_, ?_, ?_⟩
  · refine (input?_serve server peer peer).trans ?_
    rw [if_pos rfl, alike.found, Option.elim_some, c.input_receive, if_pos connected]
  · unfold Channel.text? Channel.incoming?
    dsimp only
    rw [said?_of_some alike.found, heard]
    cases ((c.socket.input.read messageLimit).1.piece?.map said).filter fun text => !text.isEmpty <;> rfl
  · cases alike.attends with
    | gone gone => cases connected.symm.trans gone
    | connected _ placed =>
      have held := (placed c.slot).mpr rfl
      cases received : c.receive.1 with
      | ok text =>
        rw [received] at more
        have roster : (server.serve peer).roster = server.roster := (beside_serve_of_ok alike.found received).roster
        refine iff_of_false (fun out => out ?_) (by simpa [Except.isOk, Except.toBool] using more)
        rw [roster]
        exact Roster.mem_clients_of_get held
      | error error =>
        rw [received] at more
        have evicted := evicted_serve alike.found received held
        refine iff_of_true (fun isIn => ?_) (by simpa [Except.isOk, Except.toBool] using more)
        obtain ⟨slot, held'⟩ := Roster.exists_get_of_mem_clients isIn
        exact evicted.nowhere placed slot held'

omit alike in
/-- **Run**: as long as no send to the client fails the servers are alike, and the texts that are handled are
the same but for blank ones. -/
theorem feedAll (alike : Alike peer server other c operator) {feeds : List Feed}
    (delivered : ∀ before, before <+: feeds → ((Channel.client peer).feedAll server before).Delivered peer) :
    (∃ c' operator', Alike peer ((Channel.client peer).feedAll server feeds)
      (Channel.source.feedAll other feeds) c' operator') ∧
    (((Channel.client peer).texts server feeds).filter fun text => !isBlank text) =
      Channel.source.texts other feeds := by
  induction feeds generalizing server other c operator with
  | nil => exact ⟨⟨c, operator, alike⟩, rfl⟩
  | cons feed feeds ih =>
    obtain ⟨c', operator', alike', -⟩ := alike.feed feed (alike.kept (delivered [feed] ⟨feeds, rfl⟩))
    obtain ⟨reached, texts⟩ := ih alike' fun before front =>
      delivered (feed :: before) (List.cons_prefix_cons.mpr ⟨rfl, front⟩)
    refine ⟨reached, ?_⟩
    unfold Channel.texts
    rw [List.filter_append, texts, ← alike.filter_text? feed, Option.toList_filter]

omit alike in
/-- **Run**: a client that is gone and an operator that is exhausted are left alone for good. -/
theorem feedAll_of_gone (alike : Alike peer server other c operator) (gone : c.isConnected = false)
    (more : List Feed) :
    ∃ c' operator', Alike peer ((Channel.client peer).feedAll server more) (Channel.source.feedAll other more)
        c' operator' ∧ c'.isConnected = false ∧ c'.socket.input = Feed.changeAll more c.socket.input ∧
      (Channel.client peer).texts server more = [] ∧ Channel.source.texts other more = [] := by
  induction more generalizing server other c operator with
  | nil => exact ⟨c, operator, alike, gone, rfl, rfl, rfl⟩
  | cons feed more ih =>
    have silent := alike.text?_of_gone gone feed
    have silent' := alike.filter_text? feed
    rw [silent, Option.filter_none] at silent'
    obtain ⟨c₁, operator₁, alike₁, left⟩ := alike.feed feed fun _ more => by
      rw [Connection.receive_of_gone gone] at more
      cases more
    obtain ⟨gone₁, input₁⟩ := left gone
    obtain ⟨c', operator', alike', gone', input, texts, texts'⟩ := ih alike₁ gone₁
    refine ⟨c', operator', alike', gone', ?_, ?_, ?_⟩
    · rw [input, input₁]
      rfl
    · unfold Channel.texts
      rw [silent, texts]
      rfl
    · unfold Channel.texts
      rw [← silent', texts']
      rfl

theorem staysOver (gone : c.isConnected = false) :
    (Channel.client peer).StaysOver server ∧ Channel.source.StaysOver other := by
  constructor <;> intro more <;>
    obtain ⟨c', operator', alike', gone', input, texts, texts'⟩ := alike.feedAll_of_gone gone more
  · refine ⟨alike'.isOver_client.mpr gone', texts, ?_⟩
    rw [alike'.input?_client, alike.input?_client, input]
    rfl
  · refine ⟨alike'.isOver_source.mpr gone', texts', ?_⟩
    rw [alike'.input?_source, alike.input?_source, input]
    rfl

omit alike in
/-- **Run**: no send to a client that takes everything fails. -/
theorem delivered_of_takesAll (alike : Alike peer server other c operator) (takes : server.TakesAll peer)
    (feeds : List Feed) : ((Channel.client peer).feedAll server feeds).Delivered peer := by
  induction feeds generalizing server other c operator with
  | nil => exact alike.attends.delivered alike.found
  | cons feed feeds ih =>
    obtain ⟨c', operator', alike', -⟩ := alike.feed feed fun _ => kept_of_takesAll alike.found takes
    refine ih alike' ?_
    cases feed with
    | turn => exact takesAll_serve alike.found takes
    | arrives | ends | breaks | fails =>
      intro c'' found
      change (server.modifySocket peer _).connection? peer = some c'' at found
      rw [connection?_modifySocket, alike.found, Option.map_some, if_pos rfl] at found
      cases found
      exact takes c alike.found

end Alike

/-- A client and a command source that begin with the same in front of them and with the same gates are
alike. -/
theorem Housed.alike {capacity : Nat} {server : Server} (housed : server.Housed capacity) {peer : Nat}
    {c : Connection} (found : server.connection? peer = some c) (connected : c.isConnected = true)
    {other : Server} {operator : Interactive} (given : other.source = some (.interactive operator))
    (listening : operator.exhausted = false) (input : operator.input = c.socket.input)
    (gates : other.gates = server.gates) (running : other.terminating = false) :
    Alike peer server other c operator := by
  obtain ⟨running', held⟩ := housed.of_connected found connected
  have placed := (housed.placed found).resolve_right fun nowhere => nowhere.1 c.slot held
  exact ⟨found, .connected connected placed, given, ⟨input, listening.trans (congrArg not connected.symm)⟩, gates,
    running.trans running'.symm⟩

/-- **Channels**: whatever happens to a client of a server, and the same to an operator who types on another
one with the same gates, as long as no send to the client fails the texts that are handled are the same but
for blank ones, which the source passes over. After every step the gates are the same and so is what is in
front of the two; the client has been evicted exactly if the source is exhausted, and from then on nothing is
read from either of them. Before that one read is made in each turn, and it is the last one if it gives the end
or a failure that does not pass. No send fails to a client that takes everything. -/
theorem channels_alike (capacity : Nat) (log : Option Log) (source : Option Source) (sampler : Option Sampler)
    (deadline : Deadline) (now : String) (operations : List Operation) (peer : Nat) (other : Server)
    (operator : Interactive) :
    let server := (new capacity log source sampler deadline now).operateAll operations
    let client := Channel.client peer
    let typing := Channel.source
    ∀ c, server.connection? peer = some c → c.isConnected = true →
      other.source = some (.interactive operator) → operator.exhausted = false →
      operator.input = c.socket.input → other.gates = server.gates → other.terminating = false →
      (c.socket.output.acceptance = .all → ∀ feeds, (client.feedAll server feeds).Delivered peer) ∧
      ∀ feeds, (∀ before, before <+: feeds → (client.feedAll server before).Delivered peer) →
        let server' := client.feedAll server feeds
        let other' := typing.feedAll other feeds
        ((client.texts server feeds).filter fun text => !isBlank text) = typing.texts other feeds ∧
        server'.gates = other'.gates ∧ client.input? server' = typing.input? other' ∧
        (client.IsOver server' ↔ typing.IsOver other') ∧
        (client.IsOver server' → client.StaysOver server' ∧ typing.StaysOver other') ∧
        (∀ inbound, ¬client.IsOver server' → client.input? server' = some inbound →
          client.input? (client.turn server') = some (inbound.read messageLimit).2 ∧
          client.text? server' .turn =
            ((inbound.read messageLimit).1.piece?.map said).filter (fun text => !text.isEmpty) ∧
          (client.IsOver (client.turn server') ↔ (inbound.read messageLimit).1.isLast = true)) ∧
        (∀ text, client.text? server' .turn = some text →
          ∃ read origin, client.turn server' = (handle read (.raw text) origin).2) ∧
        ∀ text, typing.text? other' .turn = some text →
          ∃ read origin, typing.turn other' = (handle read (.raw text) origin).2 := by
  intro server client typing c found connected given listening input gates running
  have housed : server.Housed capacity :=
    (housed_new capacity log source sampler deadline now).operateAll operations
  have alike := housed.alike found connected given listening input gates running
  refine ⟨fun takes => alike.delivered_of_takesAll fun c' found' => ?_, fun feeds delivered => ?_⟩
  · cases found.symm.trans found'
    exact takes
  · obtain ⟨⟨c', operator', alike'⟩, texts⟩ := alike.feedAll delivered
    refine ⟨texts, alike'.gates.symm, ?_, ?_, fun ended => ?_, fun inbound goesOn has => ?_,
      fun _ => client.exists_feed_eq_handle, fun _ => typing.exists_feed_eq_handle⟩
    · exact alike'.input?_client.trans alike'.input?_source.symm
    · exact alike'.isOver_client.trans alike'.isOver_source.symm
    · exact alike'.staysOver (alike'.isOver_client.mp ended)
    · cases alike'.input?_client.symm.trans has
      exact alike'.reads (by simpa using mt alike'.isOver_client.mpr goesOn)

/-- A blank line, a line and the end: the client is heard twice, the operator once, and both are at their ends
at once. -/
theorem channels_alike_blank_line :
    let operations := [Operation.connect .opened .all, .start, .advance, .advance, .advance, .advance]
    let server := (new 1 none none none ⟨⟨0⟩, ⟨0⟩⟩ "").operateAll operations
    let operator := Interactive.new "stdin" .opened
    let other := new 1 none (some (.interactive operator)) none ⟨⟨0⟩, ⟨0⟩⟩ ""
    let feeds := [.arrives (Text.encode " \n".toList), .turn, .arrives (Text.encode "stop\n".toList), .turn,
      .ends, .turn]
    ∃ c, server.connection? 0 = some c ∧ c.isConnected = true ∧ other.source = some (.interactive operator) ∧
      operator.exhausted = false ∧ operator.input = c.socket.input ∧ other.gates = server.gates ∧
      other.terminating = false ∧ c.socket.output.acceptance = .all ∧
      (∀ before, before <+: feeds → ((Channel.client 0).feedAll server before).Delivered 0) ∧
      (Channel.client 0).texts server feeds = [" ", "stop"] ∧ Channel.source.texts other feeds = ["stop"] ∧
      (Channel.client 0).IsOver ((Channel.client 0).feedAll server feeds) ∧
      (Channel.client 0).StaysOver ((Channel.client 0).feedAll server feeds) := by
  intro operations server operator other feeds
  have found : server.connection? 0 = some (.new 0 .opened) := by decide +kernel
  have gates : other.gates = server.gates := by decide +kernel
  have alike := channels_alike 1 none none none ⟨⟨0⟩, ⟨0⟩⟩ "" operations 0 other operator
  obtain ⟨takesAll, runs⟩ := alike _ found rfl rfl rfl rfl gates rfl
  have delivered := takesAll rfl
  have said : (Channel.client 0).texts server feeds = [" ", "stop"] := by decide +kernel
  have ended : 0 ∉ ((Channel.client 0).feedAll server feeds).roster.clients := by decide +kernel
  obtain ⟨texts, -, -, -, stays, -⟩ := runs feeds fun before _ => delivered before
  refine ⟨_, found, rfl, rfl, rfl, rfl, gates, rfl, rfl, fun before _ => delivered before, said, ?_, ended,
    (stays ended).1⟩
  refine texts.symm.trans ?_
  rw [said]
  decide +kernel

end Server

end TelemetryHub
