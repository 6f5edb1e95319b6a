import TelemetryHub.Proofs.Server.Processing
import TelemetryHub.Proofs.Session.Course

/-!
# What is done about sessions

The server has one place for a session. What an operation does about it is said by cases (`Befalls`): a session
starts where none is unfinished, goes on, publishes and ends, or is stopped. Most operations leave the place
and everything that commands are answered from as they are (`Idles`); a command is obeyed on such a server
(`Obeys`), wherever it comes from. So every operation but the shutdown changes the place in one of these ways,
and what sessions publish in it is what the server processes and no producer has handed to it
(`Sound.acts_operate`). Behind the shutdown there is no session (`Sound.silences`).
-/

namespace TelemetryHub

/-! ## The records of a session -/

section Records

variable {sampler : Sampler} {deadline : Deadline}

theorem Sampler.countP_records_of_breaksOff (breaks : sampler.BreaksOff deadline) (cancelled : Bool) :
    (sampler.run deadline cancelled).records.countP isStatus = 0 := by
  have brokenOff := (sampler.ran deadline cancelled).brokenOff_iff.mpr breaks
  unfold Course.records
  rw [brokenOff]
  rfl

theorem Sampler.countP_records (whole : ¬sampler.BreaksOff deadline) (cancelled : Bool) :
    (sampler.run deadline cancelled).records.countP isStatus = 1 := by
  have ends := mt (sampler.ran deadline cancelled).brokenOff_iff.mp whole
  rw [Course.records_of_ne ends, List.countP_eq_length_filter, List.filter_append, filter_isStatus_map]
  rfl

end Records

namespace Session

/-- Whether a session breaks off when its sampler has been told to stop. -/
def breaksOff (session : Session) : Bool :=
  match session.sampler.child with
  | .ok child => child.refusal.isNone && !session.deadline.isCounted
  | .error _ => false

theorem breaksOff_iff (session : Session) :
    session.breaksOff = true ↔ session.sampler.BreaksOff session.deadline := by
  unfold breaksOff Sampler.BreaksOff
  cases session.sampler.child with
  | error _ => simp
  | ok child => simp

/-- How many records about itself a session is still to publish, if it is left alone. -/
def owed (session : Session) : Nat := (session.expire false).left.countP isStatus

/-- Whether a session is still to publish the record about itself. -/
def isOpen (session : Session) : Bool := (session.expire false).left.any isStatus

/-- A session that is cut short publishes no fewer records about itself. -/
theorem countP_cut (session : Session) : (session.expire true).left.countP isStatus = session.owed := by
  unfold owed expire
  cases session.progress with
  | sampling =>
    change (session.sampler.run session.deadline true).records.countP isStatus =
      (session.sampler.run session.deadline false).records.countP isStatus
    by_cases breaks : session.sampler.BreaksOff session.deadline
    · rw [Sampler.countP_records_of_breaksOff breaks, Sampler.countP_records_of_breaksOff breaks]
    · rw [Sampler.countP_records breaks, Sampler.countP_records breaks]
  | publishing records => rfl
  | finished => rfl

/-- A session that has just been started owes the record about itself, or it breaks off. -/
theorem owed_new (sampler : Sampler) (deadline : Deadline) (seconds : UInt64) :
    (new sampler deadline seconds).owed + (if (new sampler deadline seconds).breaksOff then 1 else 0) = 1 := by
  have owed : (new sampler deadline seconds).owed = (sampler.run deadline false).records.countP isStatus := rfl
  have breaks : (new sampler deadline seconds).breaksOff = true ↔ sampler.BreaksOff deadline := breaksOff_iff _
  rw [owed]
  split
  · next brokenOff => rw [Sampler.countP_records_of_breaksOff (breaks.mp brokenOff)]
  · next whole => rw [Sampler.countP_records (mt breaks.mpr whole)]

theorem owed_of_finished {session : Session} (finished : session.isFinished = true) : session.owed = 0 := by
  unfold isFinished at finished
  unfold owed expire left
  cases progress : session.progress with
  | finished => simp [progress]
  | sampling | publishing records =>
    rw [progress] at finished
    cases finished

theorem expire_expire (session : Session) : (session.expire false).expire false = session.expire false := by
  unfold expire
  cases progress : session.progress with
  | sampling => rfl
  | publishing records | finished => simp only [progress]

theorem isFinished_expire (session : Session) : (session.expire false).isFinished = session.isFinished := by
  unfold expire isFinished
  cases progress : session.progress with
  | sampling => rfl
  | publishing records | finished => simp only [progress]

theorem owed_of_publishing {session : Session} {records : List Json}
    (progress : session.progress = .publishing records) : session.owed = records.countP isStatus := by
  unfold owed expire left
  simp only [progress]

theorem isOpen_iff (session : Session) : session.isOpen = true ↔ 0 < session.owed := by
  unfold isOpen owed
  rw [List.any_eq_true, List.countP_pos_iff]

end Session

/-! ## The place for a session -/

/-- What is heard of sessions. -/
inductive Milestone where
  | started
  | stopped
  | ended
deriving DecidableEq

/-- Whether there is a session that has not ended. -/
def isBusy (place : Option Session) : Bool := place.any fun session => !session.isFinished

/-- How many records about itself the session there is still to publish. -/
def owedAt (place : Option Session) : Nat := place.elim 0 Session.owed

theorem owedAt_of_single {place : Option Session} (single : owedAt place ≤ 1) :
    owedAt place = if place.any Session.isOpen then 1 else 0 := by
  cases place with
  | none => rfl
  | some session =>
    change session.owed ≤ 1 at single
    change session.owed = if session.isOpen then 1 else 0
    have isOpen := session.isOpen_iff
    split
    · next unpublished =>
      have := isOpen.mp unpublished
      omega
    · next published =>
      have := mt isOpen.mpr published
      omega

/-- What can happen to the place for a session, with what commands are told and what is published. -/
inductive Befalls (sampler : Option Sampler) (deadline : Deadline) :
    Option Session → Option Milestone → List Json → Option Session → Prop where
  | stays (place : Option Session) : Befalls sampler deadline place none [] place
  | starts {place : Option Session} {found : Sampler} (seconds : UInt64) (configured : sampler = some found)
    (free : isBusy place = false) :
    Befalls sampler deadline place (some .started) [] (some (.new found deadline seconds))
  | stops (session : Session) :
    Befalls sampler deadline (some session) (some .stopped) (session.expire true).left none
  | expires (session : Session) : Befalls sampler deadline (some session) none [] (some (session.expire false))
  | publishes {session : Session} {record : Json} {rest : List Json}
    (progress : session.progress = .publishing (record :: rest)) :
    Befalls sampler deadline (some session) none [record] (some { session with progress := .publishing rest })
  | ends {session : Session} (progress : session.progress = .publishing []) :
    Befalls sampler deadline (some session) none [] (some session.finish)
  | finishes (session : Session) :
    Befalls sampler deadline (some session) none (session.expire false).left (some session.finish)

namespace Befalls

variable {sampler : Option Sampler} {deadline : Deadline} {place place' : Option Session}
  {verdict : Option Milestone} {records : List Json}

theorem owedAt_of_free (free : isBusy place = false) : owedAt place = 0 := by
  cases place with
  | none => rfl
  | some session => exact Session.owed_of_finished (by simpa [isBusy] using free)

/-- A session that was not there has started, where none was unfinished. -/
theorem busy (befalls : Befalls sampler deadline place verdict records place') :
    verdict = some .started ∧ isBusy place = false ∧ isBusy place' = true ∨
    verdict ≠ some .started ∧ (isBusy place' = true → isBusy place = true) := by
  cases befalls with
  | stays => exact .inr ⟨nofun, id⟩
  | starts _ _ free => exact .inl ⟨rfl, free, rfl⟩
  | stops => exact .inr ⟨nofun, nofun⟩
  | expires session =>
    refine .inr ⟨nofun, fun unfinished => ?_⟩
    unfold isBusy at unfinished ⊢
    rwa [Option.any_some, Session.isFinished_expire] at unfinished
  | publishes progress => exact .inr ⟨nofun, fun _ => by simp [isBusy, Session.isFinished, progress]⟩
  | ends | finishes => exact .inr ⟨nofun, nofun⟩

/-- There is a session once one has started and none once it has been stopped. -/
theorem occupied (befalls : Befalls sampler deadline place verdict records place') :
    place'.isSome = verdict.elim place.isSome (· = .started) := by
  cases befalls <;> rfl

theorem verdict_ne_ended (befalls : Befalls sampler deadline place verdict records place') :
    verdict ≠ some .ended := by
  cases befalls <;> nofun

/-- The session that starts is a new one. -/
theorem begins (befalls : Befalls sampler deadline place (some .started) records place') :
    ∃ session, place' = some session ∧ session.owed + (if session.breaksOff then 1 else 0) = 1 := by
  cases befalls with
  | starts seconds => exact ⟨_, rfl, Session.owed_new _ deadline seconds⟩

/-- A session that starts owes its records, and whatever is published is owed no more. -/
theorem owes (befalls : Befalls sampler deadline place verdict records place') :
    (if verdict = some .started then owedAt place' else 0) + owedAt place =
      records.countP isStatus + owedAt place' := by
  cases befalls with
  | stays => simp
  | starts _ _ free => rw [if_pos rfl, owedAt_of_free free, List.countP_nil, Nat.zero_add, Nat.add_zero]
  | stops session =>
    rw [if_neg nofun, Session.countP_cut, Nat.zero_add]
    rfl
  | expires session =>
    rw [if_neg nofun, List.countP_nil]
    change 0 + session.owed = 0 + (session.expire false).owed
    unfold Session.owed
    rw [Session.expire_expire]
  | @publishes session record rest progress =>
    rw [if_neg nofun]
    change 0 + session.owed = [record].countP isStatus + Session.owed { session with progress := .publishing rest }
    rw [Session.owed_of_publishing progress, Session.owed_of_publishing rfl, Nat.zero_add, ← List.countP_append]
    rfl
  | @ends session progress =>
    rw [if_neg nofun]
    change 0 + session.owed = 0 + session.finish.owed
    rw [Session.owed_of_publishing progress, Session.owed_of_finished rfl]
    rfl
  | finishes session =>
    rw [if_neg nofun, Nat.zero_add]
    rfl

end Befalls

namespace Server

/-! ## What leaves the session alone -/

/-- Neither the session nor anything that commands are answered from is different. -/
structure Idles (server server' : Server) : Prop where
  session : server'.session = server.session
  sampler : server'.sampler = server.sampler
  deadline : server'.deadline = server.deadline
  gates : server'.gates = server.gates
  terminating : server'.terminating = server.terminating

namespace Idles

variable {server server' : Server}

theorem refl (server : Server) : server.Idles server := ⟨rfl, rfl, rfl, rfl, rfl⟩

theorem trans {third : Server} (left : server.Idles server') (right : server'.Idles third) :
    server.Idles third where
  session := right.session.trans left.session
  sampler := right.sampler.trans left.sampler
  deadline := right.deadline.trans left.deadline
  gates := right.gates.trans left.gates
  terminating := right.terminating.trans left.terminating

/-- Commands are answered as before. -/
theorem answer (idles : server.Idles server') (command : Command) :
    (server'.dispatch command).1 = (server.dispatch command).1 := by
  obtain ⟨session, sampler, deadline, gates, terminating⟩ := idles
  unfold dispatch
  rw [terminating]
  split
  · rfl
  cases command.action with
  | sessionStart seconds =>
    dsimp only
    unfold startSession takeSession
    rw [sampler, session]
    cases server.sampler with
    | none => rfl
    | some found =>
      cases server.session with
      | none => rfl
      | some previous =>
        dsimp only
        split <;> rfl
  | sessionStop =>
    dsimp only
    unfold stopSession takeSession
    rw [session]
    cases server.session <;> rfl
  | _ =>
    dsimp only
    rw [gates]
    cases server.gates.apply command <;> rfl

end Idles

section Parts

variable (server : Server)

theorem idles_appendLog (body : Json) (source : String) : server.Idles (server.appendLog body source) := by
  rw [appendLog_eq]
  exact ⟨rfl, rfl, rfl, rfl, rfl⟩

theorem idles_setPhase (phase : ServerPhase) : server.Idles (server.setPhase phase) := by
  rw [setPhase_eq]
  exact ⟨rfl, rfl, rfl, rfl, rfl⟩

theorem idles_reap : server.Idles server.reap := by
  rw [reap_eq]
  exact ⟨rfl, rfl, rfl, rfl, rfl⟩

theorem idles_acceptAll : server.Idles server.acceptAll := by
  rw [acceptAll_eq]
  exact ⟨rfl, rfl, rfl, rfl, rfl⟩

theorem idles_evict (slot : Nat) : server.Idles (server.evict slot) := by
  rcases evict_cases server slot with same | ⟨peer, roster, removed, same⟩ <;> rw [same]
  · exact .refl server
  · exact ⟨rfl, rfl, rfl, rfl, rfl⟩

theorem idles_typed (change : Inbound → Inbound) : server.Idles (server.typed change) := by
  unfold typed
  split
  · exact ⟨rfl, rfl, rfl, rfl, rfl⟩
  · exact .refl server

theorem idles_enterLoop : server.Idles server.enterLoop := by
  unfold enterLoop
  split
  · exact ⟨rfl, rfl, rfl, rfl, rfl⟩
  · exact .refl server

theorem idles_broadcast (record : Json) : server.Idles (server.broadcast record) := by
  obtain ⟨peers, log, same⟩ := broadcastAll_eq server [record]
  rw [show server.broadcast record = _ from same]
  exact ⟨rfl, rfl, rfl, rfl, rfl⟩

end Parts

/-! ## Commands -/

/-- The command that an operation hands to the server, if any. -/
def commanded? (server : Server) : Operation → Option Command
  | .handleText text _ => (Command.parse text).toOption
  | .handleCommand command _ | .dispatch command => some command
  | .advance => server.dispatched?
  | _ => none

/-- What is heard of sessions from the answer to an action: that one has been started or stopped. -/
def verdict : Action → Except Refusal Unit → Option Milestone
  | .sessionStart _, .ok _ => some .started
  | .sessionStop, .ok _ => some .stopped
  | _, _ => none

theorem verdict_error (action : Action) (refusal : Refusal) : verdict action (.error refusal) = none := by
  cases action <;> rfl

theorem verdict_of_gate {action : Action} (onGate : action.onSession = false) (answer : Except Refusal Unit) :
    verdict action answer = none := by
  cases action with
  | sessionStart | sessionStop => cases onGate
  | _ => rfl

def verdictOn (server : Server) (command : Command) : Option Milestone :=
  verdict command.action (server.dispatch command).1

/-- What is heard of sessions from the answer to an operation. -/
def verdict? (server : Server) (operation : Operation) : Option Milestone :=
  (server.commanded? operation).bind server.verdictOn

theorem Idles.verdictOn {server server' : Server} (idles : server.Idles server') (command : Command) :
    server'.verdictOn command = server.verdictOn command := by
  unfold Server.verdictOn
  rw [idles.answer]

/-- A command is obeyed on a server with the same session, or there is none. -/
inductive Obeys (server : Server) : Option Command → Server → Prop where
  | nothing {server' : Server} (idles : server.Idles server') : Obeys server none server'
  | command {before : Server} (command : Command) (idles : server.Idles before) :
    Obeys server (some command) (before.dispatch command).2

theorem Obeys.behind {server before server' : Server} {command : Option Command}
    (obeys : Obeys before command server') (idles : server.Idles before) : Obeys server command server' := by
  cases obeys with
  | nothing idles' => exact .nothing (idles.trans idles')
  | command command idles' => exact .command command (idles.trans idles')

theorem obeys_handle (server : Server) (incoming : Incoming) (source : String) :
    Obeys server incoming.command? (server.handle incoming source).2 := by
  cases incoming with
  | parsed command => exact .command command (idles_appendLog server _ source)
  | raw text =>
    have logged := idles_appendLog server (Json.ofMessage text) source
    unfold handle handleText Incoming.command?
    dsimp only
    cases Command.parse text with
    | ok command => exact .command command logged
    | error error => exact .nothing logged

theorem obeys_serve (server : Server) (peer : Nat) :
    Obeys server ((server.said? peer).bind Incoming.command?) (server.serve peer) := by
  unfold serve said?
  cases server.connection? peer with
  | none => exact .nothing (.refl server)
  | some connection =>
    have read : server.Idles (server.setConnection peer connection.receive.2) := ⟨rfl, rfl, rfl, rfl, rfl⟩
    dsimp only
    cases connection.receive.1 with
    | error _ => exact .nothing (read.trans (idles_evict _ _))
    | ok text =>
      dsimp only
      split
      · exact .nothing read
      · exact (obeys_handle _ (.raw text) _).behind read

theorem obeys_pollSource (server : Server) (ready : Bool) :
    Obeys server ((server.supplied? ready).bind Incoming.command?) (server.pollSource ready) := by
  unfold pollSource supplied?
  cases server.source with
  | none => exact .nothing (.refl server)
  | some source =>
    have polled : server.Idles { server with source := some (source.poll ready).2 } := ⟨rfl, rfl, rfl, rfl, rfl⟩
    simp only [Option.bind_some]
    cases (source.poll ready).1 with
    | none => exact .nothing polled
    | some incoming => exact (obeys_handle _ incoming _).behind polled

theorem Paced.obeys_advance {server : Server} (paced : server.Paced) (running : server.terminating = false) :
    Obeys server server.dispatched? server.advance := by
  unfold dispatched? incoming? Server.advance
  cases server.loop with
  | idle | ended => exact .nothing (.refl server)
  | top =>
    refine .nothing ?_
    have reaped := idles_reap server
    have listens : server.reap.listening = true := by
      rw [(within_reap server).listening, paced.listening, running]
      rfl
    dsimp only
    rw [running, if_neg Bool.false_ne_true, if_pos listens]
    exact reaped.trans ⟨rfl, rfl, rfl, rfl, rfl⟩
  | held polled => exact .nothing ((idles_setPhase server .running).trans ⟨rfl, rfl, rfl, rfl, rfl⟩)
  | woken ready listener source =>
    refine .nothing ?_
    have dispatching := idles_setPhase server .dispatching
    dsimp only
    rw [running, if_neg Bool.false_ne_true]
    split
    · exact (dispatching.trans (idles_acceptAll _)).trans ⟨rfl, rfl, rfl, rfl, rfl⟩
    · exact dispatching.trans ⟨rfl, rfl, rfl, rfl, rfl⟩
  | serving ready source =>
    cases ready with
    | cons peer ready =>
      exact (obeys_serve { server with loop := .serving ready source } peer).behind ⟨rfl, rfl, rfl, rfl, rfl⟩
    | nil => exact (obeys_pollSource { server with loop := .top } source).behind ⟨rfl, rfl, rfl, rfl, rfl⟩

/-! ## What an operation does about sessions -/

/-- What the second server has become of the first one, as far as sessions are concerned. -/
structure Acts (server server' : Server) (verdict : Option Milestone) (records : List Json) : Prop where
  befalls : Befalls server.sampler server.deadline server.session verdict records server'.session
  /-- There is a sampler, or there is none. -/
  configured : server'.sampler.isSome = server.sampler.isSome

theorem Idles.acts {server server' : Server} (idles : server.Idles server') : server.Acts server' none [] :=
  ⟨idles.session ▸ .stays _, congrArg Option.isSome idles.sampler⟩

theorem acts_dispatch {server : Server} (running : server.terminating = false) (command : Command) :
    server.Acts (server.dispatch command).2 (server.verdictOn command) (server.stopped command) := by
  have answer := dispatched server command
  unfold verdictOn
  generalize server.dispatch command = attempt at answer ⊢
  cases answer with
  | late ending => cases running.symm.trans ending
  | refused _ onGate | obeyed _ onGate =>
    rw [verdict_of_gate onGate, stopped_of_ne (by rintro stops; rw [stops] at onGate; cases onGate)]
    exact ⟨.stays _, rfl⟩
  | noSampler _ starts | busy _ starts =>
    rw [verdict_error, stopped_of_ne (by rw [starts]; nofun)]
    exact ⟨.stays _, rfl⟩
  | started _ starts found free =>
    rw [starts, stopped_of_ne (by rw [starts]; nofun)]
    exact ⟨.starts _ found free, rfl⟩
  | noSession _ stops missing =>
    have nothing : server.stopped command = [] := by simp [stopped, stops, missing]
    rw [verdict_error, nothing]
    exact ⟨.stays _, rfl⟩
  | @stopped session _ stops found =>
    have left : server.stopped command = (session.expire true).left := by simp [Server.stopped, stops, found]
    obtain ⟨peers, log, same⟩ := windDown_eq { server with session := none } session
    rw [stops, left, same]
    refine ⟨?_, rfl⟩
    rw [found]
    exact .stops session

theorem Obeys.acts {server server' : Server} {command : Option Command} (obeys : server.Obeys command server')
    (running : server.terminating = false) :
    server.Acts server' (command.bind server.verdictOn) (command.elim [] server.stopped) := by
  cases obeys with
  | nothing idles => exact idles.acts
  | @command before command idles =>
    have acts := acts_dispatch (idles.terminating.trans running) command
    have stopped : before.stopped command = server.stopped command := by
      unfold Server.stopped
      rw [idles.session]
    rw [idles.verdictOn, stopped] at acts
    obtain ⟨befalls, configured⟩ := acts
    rw [idles.session, idles.sampler, idles.deadline] at befalls
    exact ⟨befalls, configured.trans (congrArg Option.isSome idles.sampler)⟩

/-- The record that a producer hands to the server in an operation. -/
def Operation.handed? : Operation → Option Json
  | .broadcast record => some record
  | _ => none

/-- What sessions publish in an operation: every record that the server broadcasts and that no producer has
handed to it. -/
def sessionRecords (server : Server) : Operation → List Json
  | .broadcast _ => []
  | operation => (server.processed operation).filterMap Processed.record?

/-- What is broadcast are the records of producers and of sessions. -/
theorem filterMap_processed {server : Server} (running : server.terminating = false) (operation : Operation) :
    (server.processed operation).filterMap Processed.record? =
      operation.handed?.toList ++ server.sessionRecords operation := by
  cases operation with
  | broadcast record =>
    unfold processed
    rw [if_neg (Bool.eq_false_iff.mp running)]
    rfl
  | _ => rfl

theorem filterMap_handled (server : Server) (origin : String) (incoming : Incoming) :
    (server.handled origin incoming).filterMap Processed.record? = incoming.command?.elim [] server.stopped := by
  have noRecord : Processed.record? (.ofIncoming origin incoming) = none := by cases incoming <;> rfl
  unfold handled
  rw [List.filterMap_cons_none noRecord, Processed.filterMap_record?]

theorem filterMap_heard {server : Server} {incoming : Option Incoming} {origin : Option String}
    (told : incoming.isSome = true → origin.isSome = true) :
    (server.heard incoming origin).filterMap Processed.record? =
      (incoming.bind Incoming.command?).elim [] server.stopped := by
  cases incoming with
  | none => rfl
  | some incoming =>
    obtain ⟨name, rfl⟩ := Option.isSome_iff_exists.mp (told rfl)
    exact filterMap_handled server name incoming

theorem acts_sessionPublishes (server : Server) : server.Acts server.sessionPublishes none
    (((server.session.elim [] fun session => session.left.take 1).map .record).filterMap Processed.record?) := by
  rw [Processed.filterMap_record?]
  unfold sessionPublishes
  cases found : server.session with
  | none => exact (Idles.refl server).acts
  | some session =>
    dsimp only [Option.elim]
    unfold Session.left
    cases progress : session.progress with
    | sampling | finished => exact (Idles.refl server).acts
    | publishing records =>
      cases records with
      | nil => exact ⟨found ▸ .ends progress, rfl⟩
      | cons record rest =>
        have sent := idles_broadcast { server with session := some { session with progress := .publishing rest } } record
        refine ⟨?_, congrArg Option.isSome sent.sampler⟩
        dsimp only
        rw [found, sent.session]
        exact .publishes progress

theorem acts_sessionFinishes (server : Server) : server.Acts server.sessionFinishes none
    (((server.session.elim [] fun session => (session.expire false).left).map .record).filterMap
      Processed.record?) := by
  rw [Processed.filterMap_record?]
  unfold sessionFinishes
  cases found : server.session with
  | none => exact (Idles.refl server).acts
  | some session =>
    obtain ⟨peers, log, same⟩ :=
      broadcastAll_eq { server with session := some session.finish } (session.expire false).left
    dsimp only [Option.elim]
    rw [same]
    exact ⟨found ▸ .finishes session, rfl⟩

/-- **Step**: what an operation does about sessions, unless it is the shutdown. -/
theorem Sound.acts_operate {server : Server} (sound : server.Sound) (running : server.terminating = false)
    {operation : Operation} (goesOn : operation ≠ .shutdown) :
    server.Acts (server.operate operation) (server.verdict? operation) (server.sessionRecords operation) := by
  unfold sessionRecords processed verdict?
  rw [running]
  cases operation with
  | shutdown => exact absurd rfl goesOn
  | connect | transport | clock | setEnabled | setRate | samples => exact ⟨.stays _, rfl⟩
  | sampler answers reading => exact ⟨.stays _, Option.isSome_map⟩
  | typed input => exact (idles_typed server fun _ => input).acts
  | start => exact (idles_enterLoop server).acts
  | broadcast record => exact (idles_broadcast server record).acts
  | handleText text source =>
    have acts := (obeys_handle server (.raw text) source).acts running
    rw [← filterMap_handled server source] at acts
    exact acts
  | handleCommand command source =>
    have acts := (obeys_handle server (.parsed command) source).acts running
    rw [← filterMap_handled server source] at acts
    exact acts
  | dispatch command =>
    have acts := acts_dispatch running command
    rw [← Processed.filterMap_record? (server.stopped command)] at acts
    exact acts
  | advance =>
    have acts := (sound.paced.obeys_advance running).acts running
    have told : server.incoming?.isSome = true → server.origin?.isSome = true := by
      intro some
      obtain ⟨incoming, has⟩ := Option.isSome_iff_exists.mp some
      obtain ⟨turn, origin, _, isTurn, isOrigin, _⟩ := exists_turn has
      unfold origin?
      rw [isTurn, Option.bind_some, isOrigin]
      rfl
    unfold dispatched? at acts
    rw [← filterMap_heard told] at acts
    exact acts
  | sessionExpires =>
    refine ⟨?_, rfl⟩
    change Befalls _ _ server.session none [] (server.session.map (·.expire false))
    cases server.session with
    | none => exact .stays none
    | some session => exact .expires session
  | sessionPublishes => exact acts_sessionPublishes server
  | sessionFinishes => exact acts_sessionFinishes server

/-- There is no session behind the operation, and nothing is heard of one. -/
structure Silences (server : Server) (operation : Operation) : Prop where
  session : (server.operate operation).session = none
  terminating : (server.operate operation).terminating = true
  verdict : server.verdict? operation = none

theorem Sound.silences {server : Server} (sound : server.Sound) {operation : Operation}
    (ends : server.terminating = true ∨ operation = .shutdown) : server.Silences operation := by
  cases terminating : server.terminating with
  | true =>
    have ended := sound.ended terminating
    have rest := (ended.operate operation).1.rest
    have refuses : ∀ command, server.verdictOn command = none := by
      intro command
      have late : server.dispatch command = (.error .shuttingDown, server) := if_pos terminating
      unfold verdictOn
      rw [late]
      exact verdict_error _ _
    refine ⟨?_, ?_, ?_⟩
    · rw [rest]
      exact ended.session
    · rw [rest]
      exact terminating
    · unfold verdict?
      cases server.commanded? operation with
      | none => rfl
      | some command => exact refuses command
  | false =>
    obtain rfl := ends.resolve_left (by simp [terminating])
    have shut := shutdown_of_running terminating
    have same : server.operate .shutdown = server.shutdown := rfl
    rw [← same] at shut
    exact ⟨by rw [shut], by rw [shut], rfl⟩

end Server
end TelemetryHub
