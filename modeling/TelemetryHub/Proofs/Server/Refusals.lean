import TelemetryHub.Proofs.Gate.History
import TelemetryHub.Proofs.Server.Logging

/-!
# Refused commands

`Dispatched` is all that a command can come to, one case per answer. Behind a refusal the server is as
it was, also where the session had been taken out and was put back (`dispatch_refused`), so a command
that is refused leaves nothing but its record in the log (`refused_leaves_its_record`). The last section
is about negative rates, which only the gates refuse.
-/

namespace TelemetryHub.Server

open Log (Entry)

/-! ## What a command comes to -/

/-- The answers to a command, each with when it is given and the server behind it. -/
inductive Dispatched (server : Server) (command : Command) : Attempt → Prop where
  | late (ending : server.terminating = true) :
    Dispatched server command (.error .shuttingDown, server)
  | refused {refusal : Refusal} (running : server.terminating = false)
    (onGate : command.action.onSession = false)
    (refuses : server.gates.apply command = .error refusal) :
    Dispatched server command (.error refusal, server)
  | obeyed {gates : Registry} (running : server.terminating = false)
    (onGate : command.action.onSession = false)
    (accepts : server.gates.apply command = .ok gates) :
    Dispatched server command (.ok (), { server with gates })
  | noSampler {seconds : UInt64} (running : server.terminating = false)
    (starts : command.action = .sessionStart seconds) (missing : server.sampler = none) :
    Dispatched server command (.error .samplerUnavailable, server)
  | busy {seconds : UInt64} (running : server.terminating = false)
    (starts : command.action = .sessionStart seconds) (occupied : server.sessionRunning = true) :
    Dispatched server command (.error .sessionActive, server)
  | started {seconds : UInt64} {sampler : Sampler} (running : server.terminating = false)
    (starts : command.action = .sessionStart seconds) (found : server.sampler = some sampler)
    (free : server.sessionRunning = false) :
    Dispatched server command
      (.ok (), { server with session := some (.new sampler server.deadline seconds) })
  | noSession (running : server.terminating = false) (stops : command.action = .sessionStop)
    (missing : server.session = none) :
    Dispatched server command (.error .noSession, server)
  | stopped {session : Session} (running : server.terminating = false)
    (stops : command.action = .sessionStop) (found : server.session = some session) :
    Dispatched server command (.ok (), { server with session := none }.windDown session)

/-- The server without its session is the server with it once the session has been put back. -/
theorem takeSession_putBack {server : Server} {session : Option Session}
    (found : server.session = session) :
    { server.takeSession.2 with session := session } = server := by
  cases server
  cases found
  rfl

theorem dispatched_startSession {server : Server} {command : Command} {seconds : UInt64}
    (running : server.terminating = false) (starts : command.action = .sessionStart seconds) :
    Dispatched server command (server.startSession seconds) := by
  unfold startSession
  cases sampler : server.sampler with
  | none => exact .noSampler running starts sampler
  | some sampler =>
    unfold takeSession
    cases found : server.session with
    | none => exact .started running starts sampler (by simp [sessionRunning, found])
    | some previous =>
      dsimp only
      cases finished : previous.isFinished with
      | true => exact .started running starts sampler (by simp [sessionRunning, found, finished])
      | false =>
        have same := takeSession_putBack found
        unfold takeSession at same
        rw [if_neg Bool.false_ne_true, same]
        exact .busy running starts (by simp [sessionRunning, found, finished])

theorem dispatched_stopSession {server : Server} {command : Command}
    (running : server.terminating = false) (stops : command.action = .sessionStop) :
    Dispatched server command server.stopSession := by
  unfold stopSession takeSession
  cases found : server.session with
  | none =>
    have same := takeSession_putBack found
    unfold takeSession at same
    dsimp only at same ⊢
    rw [same]
    exact .noSession running stops found
  | some session => exact .stopped running stops found

theorem dispatched (server : Server) (command : Command) :
    Dispatched server command (server.dispatch command) := by
  unfold dispatch
  by_cases ending : server.terminating = true
  · rw [if_pos ending]
    exact .late ending
  · have running : server.terminating = false := Bool.eq_false_iff.mpr ending
    rw [if_neg ending]
    cases action : command.action with
    | sessionStart seconds => exact dispatched_startSession running action
    | sessionStop => exact dispatched_stopSession running action
    | _ =>
      have onGate : command.action.onSession = false := by rw [action]; rfl
      dsimp only
      cases applied : server.gates.apply command with
      | ok gates => exact .obeyed running onGate applied
      | error refusal => exact .refused running onGate applied

/-- A command that is refused changes nothing. -/
theorem dispatch_refused {server : Server} {command : Command} {refusal : Refusal}
    (refused : (server.dispatch command).1 = .error refusal) :
    (server.dispatch command).2 = server := by
  have answer := dispatched server command
  generalize server.dispatch command = attempt at answer refused
  cases answer with
  | late | refused | noSampler | busy | noSession => rfl
  | obeyed | started | stopped => cases refused

/-- Records reach the clients and the log. -/
theorem broadcastAll_eq (server : Server) (records : List Json) :
    ∃ peers log, server.broadcastAll records = { server with peers, log } := by
  unfold broadcastAll
  induction records generalizing server with
  | nil => exact ⟨server.peers, server.log, rfl⟩
  | cons record records ih =>
    have once : ∃ peers log, server.broadcast record = { server with peers, log } := by
      by_cases ending : server.terminating = true
      · exact ⟨server.peers, server.log, broadcast_of_terminating ending record⟩
      · rw [broadcast_of_running (Bool.eq_false_iff.mpr ending)]
        exact ⟨_, _, appendLog_eq _ record ownName⟩
    obtain ⟨peers, log, sent⟩ := once
    obtain ⟨peers', log', rest⟩ := ih (server.broadcast record)
    refine ⟨peers', log', rest.trans ?_⟩
    rw [sent]

/-- A session that is cut short publishes what it has. -/
theorem windDown_eq (server : Server) (session : Session) :
    ∃ peers log, server.windDown session = { server with peers, log } := broadcastAll_eq server _

/-! ## What a refused command leaves -/

/-- A server that has shut down has no log any more. -/
def Sealed (server : Server) : Prop := server.terminating = true → server.log = none

theorem Sealed.perform {server : Server} (isSealed : server.Sealed) (step : Step) :
    (server.perform step).Sealed := by
  by_cases ends : step = .shutdown
  · rw [ends]
    change server.shutdown.Sealed
    cases running : server.terminating with
    | true =>
      rw [shutdown_of_terminating running]
      exact isSealed
    | false =>
      rw [shutdown_of_running running]
      exact fun _ => rfl
  · intro terminating
    have before := ((terminating_perform server step).mp terminating).resolve_right ends
    have noLog := isSealed before
    cases logged : step.logged with
    | none => exact (sameLog_perform server logged ends).log.trans noLog
    | some given =>
      rw [perform_closed logged before noLog]
      exact noLog

theorem Sealed.run {server : Server} (isSealed : server.Sealed) (steps : List Step) :
    (server.run steps).Sealed := by
  induction steps generalizing server with
  | nil => exact isSealed
  | cons step steps ih => exact ih (isSealed.perform step)

/-- Nothing but the log is different, and only if there is one: it has one more record, that of the
entry, and holds it behind all others if its device takes it. -/
structure Notes (server server' : Server) (entry : Entry) : Prop where
  rest : server' = { server with log := server'.log }
  unlogged : server.log = none → server' = server
  logged : ∀ log, server.log = some log → ∃ log', server'.log = some log' ∧
    log'.written ++ log'.pending =
      log.written ++ log.pending ++ (entry.record.pretty ++ Log.separator) ∧
    (server.logRefusal = none → ∀ entries, log.Holds entries → log'.Holds (entries ++ [entry]))

theorem notes_appendLog (server : Server) (entry : Entry) (current : entry.now = server.now) :
    server.Notes (server.appendLog entry.body entry.source) entry := by
  cases found : server.log with
  | none =>
    rw [appendLog_of_none found]
    exact ⟨rfl, fun _ => rfl, fun log isThere => absurd (found.symm.trans isThere) nofun⟩
  | some log =>
    rw [appendLog_of_open found]
    refine ⟨rfl, fun missing => absurd (found.symm.trans missing) nofun, fun log' isThere => ?_⟩
    cases found.symm.trans isThere
    refine ⟨_, rfl, ?_, fun accepts entries holds => ?_⟩
    · rw [← current]
      have same : Log.record entry.body entry.source entry.now = entry.record := rfl
      unfold Log.append Log.flush
      cases server.logRefusal <;> simp [same, String.append_assoc]
    · obtain ⟨log', taken, holds'⟩ := holds.append entry
      have call : entry.append log = log.append entry.body entry.source entry.now none := by
        cases entry <;> rfl
      rw [call, current] at taken
      rw [accepts, taken]
      exact holds'

theorem handleText_refused {server : Server} {text tag : String} {refusal : Refusal}
    (refused : (server.handleText text tag).1 = .error refusal) :
    (server.handleText text tag).2 = server.appendLog (Json.ofMessage text) tag := by
  unfold handleText at refused ⊢
  dsimp only at refused ⊢
  cases parsed : Command.parse text with
  | ok command =>
    simp only [parsed] at refused ⊢
    exact dispatch_refused refused
  | error error => rfl

/-- **Refusals**: on every server that can come about, a command that is refused leaves the server as
it was, but for one record in the log if there is one: that of the text, or of the command in its wire
form, with the name of its source. A server that has shut down refuses everything and records nothing. -/
theorem refused_leaves_its_record (capacity : Nat) (log : Option Log) (source : Option Source)
    (sampler : Option Sampler) (deadline : Deadline) (now : String) (steps : List Step) :
    let server := (new capacity log source sampler deadline now).run steps
    (∀ command refusal, (server.dispatch command).1 = .error refusal →
      (server.dispatch command).2 = server) ∧
    (∀ text tag refusal, (server.handleText text tag).1 = .error refusal →
      server.Notes (server.handleText text tag).2 (.text text tag server.now)) ∧
    (∀ command tag refusal, (server.handleCommand command tag).1 = .error refusal →
      server.Notes (server.handleCommand command tag).2
        (.value command.message.toJson tag server.now)) ∧
    (server.terminating = true → ∀ text command tag,
      (∃ refusal, server.handleText text tag = (.error refusal, server)) ∧
      server.handleCommand command tag = (.error .shuttingDown, server)) := by
  intro server
  refine ⟨fun command refusal => dispatch_refused, fun text tag refusal refused => ?_,
    fun command tag refusal refused => ?_, fun terminating text command tag => ?_⟩
  · rw [handleText_refused refused]
    exact notes_appendLog server (.text text tag server.now) rfl
  · rw [show (server.handleCommand command tag).2 = _ from dispatch_refused refused]
    exact notes_appendLog server (.value command.message.toJson tag server.now) rfl
  · have started : (new capacity log source sampler deadline now).Sealed := nofun
    have noLog := started.run steps terminating
    have late : ∀ command, server.dispatch command = (.error .shuttingDown, server) :=
      fun _ => if_pos terminating
    constructor
    · unfold handleText
      rw [appendLog_of_none noLog]
      dsimp only
      split
      · exact ⟨_, late _⟩
      · exact ⟨_, rfl⟩
    · unfold handleCommand
      rw [appendLog_of_none noLog]
      exact late command

/-! ## Negative rates -/

/-- Why a command for a gate is refused whose rate is negative. -/
def negativeRefusal (server : Server) (category : String) (rate : Int64) : Refusal :=
  if server.terminating then .shuttingDown
  else if (Target.named? category).isNone then .unknownCategory category
  else .negativeRate category rate

/-- **Negative rates**: a command for a gate is refused because of one, whatever it asks for and
whatever the server's state is. A command for the session is not: it comes to what it comes to without
a rate. -/
theorem dispatch_negative_rate (server : Server) (category : String) (action : Action) {rate : Int64}
    (negative : rate < 0) :
    server.dispatch ⟨category, action, some rate⟩ =
      if action.onSession then server.dispatch ⟨category, action, none⟩
      else (.error (server.negativeRefusal category rate), server) := by
  have found : Registry.negativeRate? (some rate) = some rate := by
    unfold Registry.negativeRate?
    rw [Option.filter_some, decide_eq_true negative, if_pos rfl]
  have refused : server.gates.apply ⟨category, action, some rate⟩ =
      .error (if (Target.named? category).isNone then .unknownCategory category
        else .negativeRate category rate) := by
    unfold Registry.apply
    cases Target.named? category with
    | none => rfl
    | some target =>
      dsimp only
      rw [found]
      rfl
  unfold dispatch negativeRefusal
  by_cases ending : server.terminating = true
  · rw [if_pos ending, if_pos ending, if_pos ending, ite_self]
  · rw [if_neg ending, if_neg ending, if_neg ending]
    cases action with
    | sessionStart seconds => exact (if_pos rfl).symm
    | sessionStop => exact (if_pos rfl).symm
    | _ =>
      dsimp only
      rw [refused]
      exact (if_neg Bool.false_ne_true).symm

/-- A sampler that does what it is told. -/
def obedient : Sampler := ⟨.ok ⟨1, none, .exits⟩, .ok ""⟩

/-- The rate of a session that starts is not looked at, that of a gate is. -/
theorem dispatch_negative_rate_perf :
    let server := new 1 none none (some obedient) ⟨⟨0⟩, ⟨0⟩⟩ ""
    (-1 : Int64) < 0 ∧
    (server.dispatch ⟨"perf", .sessionStart 30, some (-1)⟩).1 = .ok () ∧
    (server.dispatch ⟨"monitorEvents", .configure, some (-1)⟩).1 =
      .error (.negativeRate "monitorEvents" (-1)) := by
  intro server
  have negative : (-1 : Int64) < 0 := by decide
  refine ⟨negative, ?_, ?_⟩
  · rw [dispatch_negative_rate server "perf" (.sessionStart 30) negative]
    rfl
  · rw [dispatch_negative_rate server "monitorEvents" .configure negative]
    rfl

/-- Not every command with a negative rate is refused: one starts a session and another one stops it. -/
theorem negative_rate_not_refused :
    let server := new 1 none none (some obedient) ⟨⟨0⟩, ⟨0⟩⟩ ""
    let started := (server.dispatch ⟨"perf", .sessionStart 30, some (-1)⟩).2
    let stopped := started.dispatch ⟨"perf", .sessionStop, some (-1)⟩
    (server.sessionRunning = false ∧ started.sessionRunning = true ∧
      stopped.1 = .ok () ∧ stopped.2.sessionRunning = false) ∧
    ¬∀ (server : Server) (command : Command) (rate : Int64), command.rate = some rate → rate < 0 →
      ∃ refusal, server.dispatch command = (.error refusal, server) := by
  intro server started stopped
  have left : stopped.2.sessionRunning = false := by
    obtain ⟨peers, log, same⟩ := windDown_eq { started with session := none }
      (.new obedient server.deadline 30)
    change (windDown { started with session := none } _).sessionRunning = false
    rw [same]
    rfl
  refine ⟨⟨rfl, rfl, rfl, left⟩, fun always => ?_⟩
  obtain ⟨refusal, refused⟩ := always server ⟨"perf", .sessionStart 30, some (-1)⟩ (-1) rfl (by decide)
  have accepted : (server.dispatch ⟨"perf", .sessionStart 30, some (-1)⟩).1 = .ok () := rfl
  rw [refused] at accepted
  cases accepted

end TelemetryHub.Server
