import TelemetryHub.Proofs.Server.Refusals

/-!
# The gates behind the loop

A step of the loop handles at most one message, of a client or of the command source
(`handles_advance`), and hands the command in it to the server. The gates obey that command, unless the
shutdown has begun, and nothing else that a step does reaches them (`gates_advance`).
-/

namespace TelemetryHub

/-- The command in a message, if it is one. -/
def Incoming.command? : Incoming → Option Command
  | .raw text => (Command.parse text).toOption
  | .parsed command => some command

namespace Server

/-! ## What leaves the gates alone -/

section Gates

variable (server : Server)

theorem gates_appendLog (body : Json) (source : String) :
    (server.appendLog body source).gates = server.gates := by
  rw [appendLog_eq]

theorem gates_setPhase (phase : ServerPhase) : (server.setPhase phase).gates = server.gates := by
  rw [setPhase_eq]

theorem gates_broadcastAll (records : List Json) :
    (server.broadcastAll records).gates = server.gates := by
  obtain ⟨peers, log, same⟩ := broadcastAll_eq server records
  rw [same]

theorem gates_reap : server.reap.gates = server.gates := by
  rw [reap_eq]
  rfl

theorem gates_acceptAll : server.acceptAll.gates = server.gates := by
  rw [acceptAll_eq]

theorem gates_evict (slot : Nat) : (server.evict slot).gates = server.gates := by
  rcases evict_cases server slot with same | ⟨peer, roster, removed, same⟩ <;> rw [same]
  rfl

theorem gates_leave : server.leave.gates = server.gates := by
  unfold leave
  cases running : server.terminating with
  | true => rw [shutdown_of_terminating running]
  | false =>
    rw [shutdown_of_running running]
    rfl

end Gates

/-! ## Commands -/

/-- The gates of the server once it has been given commands. -/
def gatesBehind (server : Server) (commands : List Command) : Registry :=
  if server.terminating then server.gates else server.gates.obeyAll commands

/-- A command for the session is none for a gate. -/
theorem obey_of_onSession {command : Command} (onSession : command.action.onSession = true)
    (gates : Registry) : gates.obey command = gates := by
  rcases gates.obey_cases command with ⟨-, same⟩ | ⟨succeeds, -⟩
  · exact same
  · rcases succeeds.2.2 with action | action | ⟨action, -⟩ <;>
    · rw [action] at onSession
      cases onSession

/-- The gates obey a command unless the shutdown has begun. -/
theorem gates_dispatch (server : Server) (command : Command) :
    (server.dispatch command).2.gates = server.gatesBehind [command] := by
  have answer := dispatched server command
  unfold gatesBehind Registry.obeyAll
  rw [List.foldl_cons, List.foldl_nil]
  generalize server.dispatch command = attempt at answer ⊢
  cases answer with
  | late ending => rw [if_pos ending]
  | refused running _ refuses =>
    rw [running, if_neg Bool.false_ne_true]
    simp only [Registry.obey, refuses]
  | obeyed running _ accepts =>
    rw [running, if_neg Bool.false_ne_true]
    simp only [Registry.obey, accepts]
  | noSampler running starts | busy running starts | started running starts =>
    rw [running, if_neg Bool.false_ne_true, obey_of_onSession (starts ▸ rfl)]
  | noSession running stops =>
    rw [running, if_neg Bool.false_ne_true, obey_of_onSession (stops ▸ rfl)]
  | stopped running stops =>
    rw [running, if_neg Bool.false_ne_true, obey_of_onSession (stops ▸ rfl)]
    exact gates_broadcastAll _ _

/-- A message is logged, and the command in it is dispatched if it is one. -/
theorem gates_handle (server : Server) (incoming : Incoming) (source : String) :
    (server.handle incoming source).2.gates = server.gatesBehind incoming.command?.toList := by
  have logged : ∀ body command,
      ((server.appendLog body source).dispatch command).2.gates = server.gatesBehind [command] := by
    intro body command
    rw [gates_dispatch]
    unfold gatesBehind
    rw [terminating_appendLog, gates_appendLog]
  cases incoming with
  | parsed command => exact logged command.message.toJson command
  | raw text =>
    unfold handle handleText Incoming.command?
    dsimp only
    cases Command.parse text with
    | ok command => exact logged _ command
    | error error =>
      exact (gates_appendLog _ _ _).trans (ite_self _).symm

/-! ## A step of the loop -/

/-- The message that a client says when it is its turn. -/
def said? (server : Server) (peer : Nat) : Option Incoming :=
  match server.connection? peer with
  | none => none
  | some connection =>
    match connection.receive.1 with
    | .ok text => if text.isEmpty then none else some (.raw text)
    | .error _ => none

/-- The message of the command source when it is its turn. -/
def supplied? (server : Server) (ready : Bool) : Option Incoming :=
  server.source.bind fun source => (source.poll ready).1

/-- The message that the next step of the loop handles: one of the client whose turn it is, or of the
command source. -/
def incoming? (server : Server) : Option Incoming :=
  match server.loop with
  | .serving (peer :: _) _ => server.said? peer
  | .serving [] ready => server.supplied? ready
  | _ => none

/-- The command that the next step of the loop hands to the server, if any. -/
def dispatched? (server : Server) : Option Command := server.incoming?.bind Incoming.command?

/-- What becomes of a server that has a message to handle or none: the message is handled, on a server
with the same gates, or nothing comes to them. -/
inductive Handles (server : Server) : Option Incoming → Server → Prop where
  | nothing {server' : Server} (gates : server'.gates = server.gates) : Handles server none server'
  | message {before : Server} (incoming : Incoming) (source : String) (gates : before.gates = server.gates)
    (terminating : before.terminating = server.terminating) :
    Handles server (some incoming) (before.handle incoming source).2

theorem Handles.congr {server other server' : Server} {incoming : Option Incoming}
    (handles : Handles other incoming server') (gates : other.gates = server.gates)
    (terminating : other.terminating = server.terminating) : Handles server incoming server' := by
  cases handles with
  | nothing same => exact .nothing (same.trans gates)
  | message incoming source same same' =>
    exact .message incoming source (same.trans gates) (same'.trans terminating)

theorem handles_serve (server : Server) (peer : Nat) :
    Handles server (server.said? peer) (server.serve peer) := by
  unfold serve said?
  cases server.connection? peer with
  | none => exact .nothing rfl
  | some connection =>
    dsimp only
    cases connection.receive.1 with
    | error _ => exact .nothing (gates_evict _ _)
    | ok text =>
      dsimp only
      split
      · exact .nothing rfl
      · exact .message (.raw text) (clientName connection.slot) rfl rfl

theorem handles_pollSource (server : Server) (ready : Bool) :
    Handles server (server.supplied? ready) (server.pollSource ready) := by
  unfold pollSource supplied?
  cases server.source with
  | none => exact .nothing rfl
  | some source =>
    simp only [Option.bind_some]
    cases (source.poll ready).1 with
    | none => exact .nothing rfl
    | some incoming => exact .message incoming source.label rfl rfl

/-- A step of the loop handles the message that it has, and does nothing else that the gates notice. -/
theorem handles_advance (server : Server) : Handles server server.incoming? server.advance := by
  unfold incoming? advance
  cases server.loop with
  | idle | ended => exact .nothing rfl
  | top =>
    refine .nothing ?_
    dsimp only
    split
    · exact gates_leave server
    · split
      · exact gates_reap server
      · exact (gates_leave _).trans (gates_reap server)
  | held polled => exact .nothing (gates_setPhase server .running)
  | woken ready listener source =>
    refine .nothing ?_
    dsimp only
    split
    · exact gates_leave server
    · split
      · exact (gates_acceptAll _).trans (gates_setPhase server .dispatching)
      · exact gates_setPhase server .dispatching
  | serving ready source =>
    cases ready with
    | cons peer ready =>
      exact (handles_serve { server with loop := .serving ready source } peer).congr rfl rfl
    | nil => exact (handles_pollSource { server with loop := .top } source).congr rfl rfl

/-- **Step**: of all that a step of the loop does, only the command that it hands over is for the
gates. -/
theorem gates_advance (server : Server) :
    server.advance.gates = server.gatesBehind server.dispatched?.toList := by
  have handles := server.handles_advance
  unfold dispatched?
  generalize server.incoming? = incoming at handles ⊢
  generalize server.advance = server' at handles ⊢
  cases handles with
  | nothing gates => exact gates.trans (ite_self _).symm
  | @message before incoming source gates terminating =>
    rw [gates_handle]
    unfold gatesBehind
    rw [gates, terminating]
    rfl

end Server
end TelemetryHub
