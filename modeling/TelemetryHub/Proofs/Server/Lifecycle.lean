import Mathlib.Data.List.Induction
import TelemetryHub.Proofs.Server.Sessions

/-!
# One session after the other

The account of a run is drawn up operation by operation, from what each of them enters in it (`Enters`,
`Accounted`): sessions start and end in turn, and a session can be stopped if the last thing that a command has
been told is that one has started. Of the sessions that have been started each has a record about itself among
those that are broadcast, but for one that is still to publish it and for those that break off. What is
broadcast is what clients are sent and what the log has as the server's own (`session_lifecycle`). Sessions that
break off have no record (`sessions_without_records`).
-/

namespace TelemetryHub.Server

/-! ## The account of a run -/

/-- What is read off the operations of a run, one after the other. -/
def collect {α : Type} (read : Server → Operation → List α) (server : Server) : List Operation → List α
  | [] => []
  | operation :: operations => read server operation ++ (server.operate operation).collect read operations

theorem collect_append {α : Type} (read : Server → Operation → List α) (server : Server)
    (first second : List Operation) :
    server.collect read (first ++ second) =
      server.collect read first ++ (server.operateAll first).collect read second := by
  induction first generalizing server with
  | nil => rfl
  | cons operation first ih =>
    change read server operation ++ (server.operate operation).collect read (first ++ second) = _
    rw [ih, ← List.append_assoc]
    rfl

/-- What is heard of sessions in an operation: what a command is told, and that a session has ended, which was
unfinished before and is not behind it. -/
def heardOf (server : Server) (operation : Operation) : List Milestone :=
  (server.verdict? operation).toList ++
    if server.sessionRunning && !(server.operate operation).sessionRunning then [.ended] else []

/-- What is heard of sessions in a run. -/
def milestones (server : Server) (operations : List Operation) : List Milestone :=
  server.collect heardOf operations

/-- The session that an operation starts. -/
def startedBy (server : Server) (operation : Operation) : List Session :=
  if server.verdict? operation = some .started then (server.operate operation).session.toList else []

/-- The sessions that are started in a run. -/
def sessions (server : Server) (operations : List Operation) : List Session :=
  server.collect startedBy operations

/-- The account of a run. -/
structure Accounted (start : Server) (operations : List Operation) : Prop where
  busy : (start.milestones operations).count .started =
    (start.milestones operations).count .ended + if (start.operateAll operations).sessionRunning then 1 else 0
  counted : (start.milestones operations).count .started = (start.sessions operations).length
  configured : (start.operateAll operations).terminating = false →
    (start.operateAll operations).sampler.isSome = start.sampler.isSome
  last : (start.operateAll operations).terminating = false →
    ((start.operateAll operations).session.isSome = true ↔
      ((start.milestones operations).filter (· ≠ .ended)).getLast? = some .started)
  records : (start.operateAll operations).terminating = false →
    (start.sessions operations).length + (operations.filterMap Operation.handed?).countP isStatus =
      (start.published operations).countP isStatus + (start.sessions operations).countP Session.breaksOff +
        owedAt (start.operateAll operations).session
  single : owedAt (start.operateAll operations).session ≤ 1

section Account

variable {start : Server} {operations : List Operation}

theorem operateAll_concat (start : Server) (operations : List Operation) (operation : Operation) :
    start.operateAll (operations ++ [operation]) = (start.operateAll operations).operate operation :=
  operateAll_append start operations [operation]

theorem milestones_concat (start : Server) (operations : List Operation) (operation : Operation) :
    start.milestones (operations ++ [operation]) =
      start.milestones operations ++ (start.operateAll operations).heardOf operation := by
  refine (collect_append heardOf start operations [operation]).trans (congrArg (_ ++ ·) ?_)
  exact List.append_nil _

theorem sessions_concat (start : Server) (operations : List Operation) (operation : Operation) :
    start.sessions (operations ++ [operation]) =
      start.sessions operations ++ (start.operateAll operations).startedBy operation := by
  refine (collect_append startedBy start operations [operation]).trans (congrArg (_ ++ ·) ?_)
  exact List.append_nil _

theorem published_concat (start : Server) (operations : List Operation) (operation : Operation) :
    start.published (operations ++ [operation]) =
      start.published operations ++
        ((start.operateAll operations).processed operation).filterMap Processed.record? := by
  rw [published_append]
  exact congrArg (_ ++ ·) (List.append_nil _)

/-- What is heard in an operation has one part from a command and one from the end of a session. -/
theorem heard_parts {verdict : Option Milestone} (other : verdict ≠ some .ended) (ends : Bool) :
    let heard := verdict.toList ++ if ends then [.ended] else []
    heard.count .started = (if verdict = some .started then 1 else 0) ∧
      heard.count .ended = (if ends then 1 else 0) ∧ heard.filter (· ≠ .ended) = verdict.toList := by
  cases ends <;> rcases verdict with _ | _ | _ | _ <;>
    first | exact ⟨rfl, rfl, rfl⟩ | exact absurd rfl other

/-- A start and an end are heard whenever there is an unfinished session or none any more. -/
theorem count_busy {verdict : Option Milestone} {before after : Bool}
    (moves : verdict = some .started ∧ before = false ∧ after = true ∨
      verdict ≠ some .started ∧ (after = true → before = true)) :
    (if verdict = some .started then 1 else 0) + (if before then 1 else 0) =
      (if before && !after then 1 else 0) + if after then 1 else 0 := by
  rcases moves with ⟨starts, rfl, rfl⟩ | ⟨other, still⟩
  · simp [starts]
  · rw [if_neg other]
    cases before <;> cases after <;> simp at still ⊢

/-- What an operation enters in the account. -/
structure Enters (server server' : Server) (verdict : Option Milestone) (records : List Json) : Prop where
  other : verdict ≠ some .ended
  busy : verdict = some .started ∧ server.sessionRunning = false ∧ server'.sessionRunning = true ∨
    verdict ≠ some .started ∧ (server'.sessionRunning = true → server.sessionRunning = true)
  begins : verdict = some .started →
    ∃ session, server'.session = some session ∧ session.owed + (if session.breaksOff then 1 else 0) = 1
  single : owedAt server.session ≤ 1 → owedAt server'.session ≤ 1
  running : server'.terminating = false → server.terminating = false
  configured : server'.terminating = false → server'.sampler.isSome = server.sampler.isSome
  occupied : server'.terminating = false →
    server'.session.isSome = verdict.elim server.session.isSome (· = .started)
  owes : server'.terminating = false →
    (if verdict = some .started then owedAt server'.session else 0) + owedAt server.session =
      records.countP isStatus + owedAt server'.session

theorem Silences.enters {server : Server} {operation : Operation} (silences : server.Silences operation)
    (records : List Json) :
    server.Enters (server.operate operation) (server.verdict? operation) records := by
  obtain ⟨session, terminating, verdict⟩ := silences
  have late : (server.operate operation).terminating ≠ false := by
    rw [terminating]
    nofun
  have idle : (server.operate operation).sessionRunning ≠ true := by
    unfold sessionRunning
    rw [session]
    nofun
  have none : ∀ milestone, server.verdict? operation ≠ some milestone := by
    intro milestone
    rw [verdict]
    nofun
  refine ⟨none _, .inr ⟨none _, fun busy => absurd busy idle⟩, fun starts => absurd starts (none _), fun _ => ?_,
    fun running => absurd running late, fun running => absurd running late, fun running => absurd running late,
    fun running => absurd running late⟩
  rw [session]
  exact Nat.zero_le 1

theorem Acts.enters {server server' : Server} {verdict : Option Milestone} {records : List Json}
    (acts : server.Acts server' verdict records) (running : server.terminating = false) :
    server.Enters server' verdict records := by
  obtain ⟨befalls, configured⟩ := acts
  refine ⟨befalls.verdict_ne_ended, befalls.busy, ?_, fun single => ?_, fun _ => running, fun _ => configured,
    fun _ => befalls.occupied, fun _ => befalls.owes⟩
  · rintro rfl
    exact befalls.begins
  · by_cases starts : verdict = some .started
    · subst starts
      obtain ⟨session, here, worth⟩ := befalls.begins
      rw [here]
      change session.owed ≤ 1
      omega
    · have owes := befalls.owes
      rw [if_neg starts] at owes
      omega

theorem Sound.enters {server : Server} (sound : server.Sound) (operation : Operation) :
    server.Enters (server.operate operation) (server.verdict? operation) (server.sessionRecords operation) := by
  by_cases ends : server.terminating = true ∨ operation = .shutdown
  · exact (sound.silences ends).enters _
  · obtain ⟨goesOn, other⟩ := not_or.mp ends
    have running := Bool.eq_false_iff.mpr goesOn
    exact (sound.acts_operate running other).enters running

/-- The session that is started is to publish its record, or it breaks off. -/
theorem Enters.length_startedBy {server : Server} {operation : Operation} {records : List Json}
    (enters : server.Enters (server.operate operation) (server.verdict? operation) records) :
    (server.startedBy operation).length = (if server.verdict? operation = some .started then 1 else 0) ∧
    (server.startedBy operation).length = (server.startedBy operation).countP Session.breaksOff +
      if server.verdict? operation = some .started then owedAt (server.operate operation).session else 0 := by
  unfold startedBy
  split
  · next starts =>
    obtain ⟨session, here, worth⟩ := enters.begins starts
    rw [here]
    refine ⟨rfl, ?_⟩
    change 1 = [session].countP Session.breaksOff + session.owed
    rw [List.countP_singleton]
    omega
  · exact ⟨rfl, rfl⟩

theorem Accounted.concat (account : start.Accounted operations) (sound : start.Sound) (operation : Operation) :
    start.Accounted (operations ++ [operation]) := by
  obtain ⟨busy, counted, configured, last, records, single⟩ := account
  have enters := (sound.operateAll operations).enters operation
  obtain ⟨started, ended, told⟩ := heard_parts enters.other ((start.operateAll operations).sessionRunning &&
    !((start.operateAll operations).operate operation).sessionRunning)
  have counts := count_busy enters.busy
  obtain ⟨length, worth⟩ := enters.length_startedBy
  constructor
  · rw [operateAll_concat, milestones_concat, List.count_append, List.count_append]
    unfold heardOf
    rw [started, ended]
    omega
  · rw [milestones_concat, sessions_concat, List.count_append, List.length_append]
    unfold heardOf
    rw [started, counted, length]
  · rw [operateAll_concat]
    intro running
    rw [enters.configured running, configured (enters.running running)]
  · rw [operateAll_concat, milestones_concat, List.filter_append]
    intro running
    unfold heardOf
    rw [told, enters.occupied running]
    cases verdict : (start.operateAll operations).verdict? operation with
    | none =>
      rw [Option.toList_none, List.append_nil]
      exact last (enters.running running)
    | some milestone => simp
  · rw [operateAll_concat, sessions_concat, published_concat, List.filterMap_append, List.length_append,
      List.countP_append, List.countP_append, List.countP_append]
    intro running
    have before := records (enters.running running)
    have owes := enters.owes running
    have handed : [operation].filterMap Operation.handed? = operation.handed?.toList := by
      cases same : operation.handed? <;> simp [same]
    rw [filterMap_processed (enters.running running), List.countP_append, handed]
    omega
  · rw [operateAll_concat]
    exact enters.single single

/-- **Run**: every run has its account. -/
theorem Accounted.run (sound : start.Sound) (fresh : start.session = none) (operations : List Operation) :
    start.Accounted operations := by
  induction operations using List.reverseRecOn with
  | nil =>
    have idle : start.sessionRunning = false := by
      unfold sessionRunning
      rw [fresh]
      rfl
    have nothing : owedAt start.session = 0 := by
      rw [fresh]
      rfl
    refine ⟨?_, rfl, fun _ => rfl, fun _ => ?_, fun _ => ?_, nothing.le.trans (Nat.zero_le 1)⟩
    · change 0 = 0 + if start.sessionRunning then 1 else 0
      rw [idle]
      rfl
    · change start.session.isSome = true ↔ none = some Milestone.started
      rw [fresh]
      exact iff_of_false nofun nofun
    · change 0 = 0 + owedAt start.session
      rw [nothing]
  | append_singleton operations operation ih => exact ih.concat sound operation

end Account

/-! ## Whole runs -/

/-- A session is started if there is a sampler and no session is unfinished; one that is finished makes way. -/
theorem dispatch_sessionStart {server : Server} (running : server.terminating = false) {command : Command}
    {seconds : UInt64} (starts : command.action = .sessionStart seconds) :
    ((server.dispatch command).1 = .ok () ↔ server.sampler.isSome = true ∧ server.sessionRunning = false) ∧
    ((server.dispatch command).1 = .ok () → ∃ found, server.sampler = some found ∧
      (server.dispatch command).2 = { server with session := some (.new found server.deadline seconds) }) := by
  have answer := dispatched server command
  have onSession : command.action.onSession = true := starts ▸ rfl
  generalize server.dispatch command = attempt at answer ⊢
  cases answer with
  | late ending => cases running.symm.trans ending
  | refused _ onGate | obeyed _ onGate => cases onSession.symm.trans onGate
  | noSampler _ _ missing => exact ⟨iff_of_false nofun (by simp [missing]), nofun⟩
  | busy _ _ occupied => exact ⟨iff_of_false nofun (by simp [occupied]), nofun⟩
  | started _ same found free =>
    cases same.symm.trans starts
    exact ⟨iff_of_true rfl ⟨by rw [found]; rfl, free⟩, fun _ => ⟨_, found, rfl⟩⟩
  | noSession _ stops | stopped _ stops => cases stops.symm.trans starts

/-- A session is stopped if there is one, and behind that none is unfinished. -/
theorem dispatch_sessionStop {server : Server} (running : server.terminating = false) {command : Command}
    (stops : command.action = .sessionStop) :
    ((server.dispatch command).1 = .ok () ↔ server.session.isSome = true) ∧
    (server.dispatch command).2.sessionRunning = false := by
  have answer := dispatched server command
  have onSession : command.action.onSession = true := stops ▸ rfl
  generalize server.dispatch command = attempt at answer ⊢
  cases answer with
  | late ending => cases running.symm.trans ending
  | refused _ onGate | obeyed _ onGate => cases onSession.symm.trans onGate
  | noSampler _ starts | busy _ starts | started _ starts => cases starts.symm.trans stops
  | noSession _ _ missing =>
    unfold sessionRunning
    rw [missing]
    exact ⟨iff_of_false nofun nofun, rfl⟩
  | @stopped session _ _ found =>
    obtain ⟨peers, log, same⟩ := windDown_eq { server with session := none } session
    rw [same, found]
    exact ⟨iff_of_true rfl rfl, rfl⟩

/-- **Sessions, one after the other**: in every run as many sessions have ended as have been started, or one
is unfinished. Until the shutdown a session can be started if there is a sampler and no session is unfinished,
and then has the answers of the sampler and the reading of the clock at that time; one can be stopped if the
last thing that a command has been told is that one has been started. For each session that has been started,
and each record of this kind that a producer has handed over, a record about a session has been published, but
for the sessions that break off and for one that is still to publish its own. What has been published over any
part of the run is what whoever is connected through it has been sent, and what has been published over all of
it is what a log has as the server's own. -/
theorem session_lifecycle (capacity : Nat) (log : Option Log) (source : Option Source)
    (sampler : Option Sampler) (deadline : Deadline) (now : String) (operations : List Operation) :
    let start := new capacity log source sampler deadline now
    let server := start.operateAll operations
    let heard := start.milestones operations
    let sessions := start.sessions operations
    let published := start.published operations
    heard.count .started = heard.count .ended + (if server.sessionRunning then 1 else 0) ∧
    heard.count .started = sessions.length ∧
    (server.terminating = false →
      (∀ command seconds, command.action = .sessionStart seconds →
        ((server.dispatch command).1 = .ok () ↔ sampler.isSome = true ∧ server.sessionRunning = false) ∧
        ((server.dispatch command).1 = .ok () → ∃ found, server.sampler = some found ∧
          (server.dispatch command).2 = { server with session := some (.new found server.deadline seconds) })) ∧
      (∀ command, command.action = .sessionStop →
        ((server.dispatch command).1 = .ok () ↔ (heard.filter (· ≠ .ended)).getLast? = some .started) ∧
        (server.dispatch command).2.sessionRunning = false) ∧
      sessions.length + (operations.filterMap Operation.handed?).countP isStatus =
        published.countP isStatus + sessions.countP Session.breaksOff +
          if server.session.any Session.isOpen then 1 else 0) ∧
    (∀ first span, operations = first ++ span →
      (start.operateAll first).Sends server (((start.operateAll first).published span).flatMap payload)) ∧
    (∀ path given, log = some given → Log.create path (.ok ()) none = .ok given →
      server.Logs (start.entries operations)) ∧
    (start.Foreign → (∀ operation ∈ operations, operation.Foreign) →
      own (start.entries operations) = published) := by
  intro start server heard sessions published
  have sound : start.Sound := sound_new capacity log source sampler deadline now
  have account : start.Accounted operations := .run sound rfl operations
  refine ⟨account.busy, account.counted, fun running => ⟨fun command seconds starts => ?_,
    fun command stops => ?_, ?_⟩, fun first span same => ?_, fun path given same created => ?_,
    fun foreign others => foreign.own_entries others⟩
  · obtain ⟨accepted, follows⟩ := dispatch_sessionStart running starts
    rw [account.configured running] at accepted
    exact ⟨accepted, follows⟩
  · obtain ⟨stopped, idle⟩ := dispatch_sessionStop running stops
    exact ⟨stopped.trans (account.last running), idle⟩
  · rw [← owedAt_of_single account.single]
    exact account.records running
  · have sends := (sound.operateAll first).sends_operateAll span
    rw [← operateAll_append, ← same] at sends
    exact sends
  · subst same
    exact (logs_new created capacity source sampler deadline now operations).1

/-- A log without entries. -/
def emptyLog : Log := ⟨"log", "[\n", "", 0⟩

/-- A server with a log and a sampler that does what it is told, and that has until then to stop. -/
def graceful (deadline : Deadline) : Server := new 1 (some emptyLog) none (some Sampler.prompt) deadline ""

/-- A client connects, and there are two sessions, one after the other. -/
def twoSessions : List Operation :=
  [.connect .opened .all, .start, .advance, .advance, .advance, .advance,
    .dispatch ⟨"perf", .sessionStart 0, none⟩, .sessionFinishes, .dispatch ⟨"perf", .sessionStart 0, none⟩,
    .sessionFinishes]

/-- Sessions that break off have no records: with a grace that the clock cannot count both have been started
and have ended, the client has been sent nothing and the log has no entry. Without a grace the client has been
sent two records. -/
theorem sessions_without_records :
    let start := graceful Sampler.unending
    let server := start.operateAll twoSessions
    let other := (graceful ⟨⟨0⟩, ⟨0⟩⟩).operateAll twoSessions
    let record := (SessionOutcome.completed 0).toRecord
    ((start.milestones twoSessions).count .started = 2 ∧ server.sessionRunning = false ∧
      server.terminating = false ∧ server.logText = some "[\n" ∧
      (server.connection? 0).map (fun c => (c.isConnected, c.sent)) = some (true, []) ∧
      (other.connection? 0).map (fun c => (c.isConnected, c.sent)) =
        some (true, payload record ++ payload record)) ∧
    ¬∀ (log : Log) (sampler : Sampler) (deadline : Deadline) (operations : List Operation),
      Log.create log.path (.ok ()) none = .ok log →
      let start := new 1 (some log) none (some sampler) deadline ""
      (start.operateAll operations).terminating = false →
      ∀ entries, (start.operateAll operations).Logs entries → ∃ unpublished ≤ 1,
        (start.milestones operations).count .started = (own entries).countP isStatus + unpublished := by
  intro start server other record
  have started : (start.milestones twoSessions).count .started = 2 := by decide +kernel
  have idle : server.sessionRunning = false := by decide +kernel
  have running : server.terminating = false := by decide +kernel
  have text : server.logText = some "[\n" := by decide +kernel
  have silent : (server.connection? 0).map (fun c => (c.isConnected, c.sent)) = some (true, []) := by
    decide +kernel
  have told : (other.connection? 0).map (fun c => (c.isConnected, c.sent)) =
      some (true, payload record ++ payload record) := by
    decide +kernel
  refine ⟨⟨started, idle, running, text, silent, told⟩, fun always => ?_⟩
  have created : Log.create "log" (.ok ()) none = .ok emptyLog := by decide +kernel
  obtain ⟨log, created', holds⟩ := Log.holds_create "log"
  cases Except.ok.inj (created.symm.trans created')
  have found : server.log = some emptyLog := by decide +kernel
  have logs : server.Logs [] := .opened running found holds
  obtain ⟨unpublished, single, same⟩ :=
    always emptyLog Sampler.prompt Sampler.unending twoSessions created running [] logs
  have two : 2 = 0 + unpublished := started.symm.trans same
  omega

end TelemetryHub.Server
