import TelemetryHub.Proofs.Server.Dispatching
import TelemetryHub.Proofs.Source.Loading
import TelemetryHub.Proofs.Source.Schedule

/-!
# Replaying a script

A server that nobody has connected to, with a script for its command source, hands itself the commands
of the script one after the other (`Replaying.pass`), whatever its sampling sessions do meanwhile, and
comes to the end of them if its countdown runs (`atEnd_of_rank`). A script that has been loaded from a
list of texts is replayed as the texts are handled that a client sends one by one
(`script_replay`).
-/

namespace TelemetryHub

/-! ## The turns that are left -/

namespace Script

/-- The turns that the script has at most, if its countdown loses something in every turn. -/
def turnsLeft (script : Script) : Nat :=
  match script.pending with
  | [] => 0
  | _ :: rest => max 1 script.clock.remaining.toNat + rest.length * max 1 script.clock.reloadTo.toNat

theorem pending_of_turnsLeft {script : Script} (none : script.turnsLeft = 0) : script.pending = [] := by
  unfold turnsLeft at none
  split at none
  · next nothing => exact nothing
  · omega

theorem turnsLeft_poll {script : Script} (runs : 0 < script.clock.step) :
    script.poll.2.turnsLeft ≤ script.turnsLeft - 1 := by
  have turn := script.polled
  generalize script.poll = result at turn ⊢
  cases turn with
  | quiet nothing =>
    unfold turnsLeft
    cases pending : script.pending with
    | nil => exact Nat.zero_le _
    | cons command rest =>
      have left : 0 < script.clock.lowered := nothing (by rw [pending]; nofun)
      have less : script.clock.lowered = script.clock.remaining - script.clock.step := by
        unfold Countdown.lowered Countdown.least at left ⊢
        omega
      unfold Countdown.tick
      dsimp only
      omega
  | @yields command rest _ first =>
    have now : script.turnsLeft = max 1 script.clock.remaining.toNat +
        rest.length * max 1 script.clock.reloadTo.toNat := by
      unfold turnsLeft
      rw [first]
    rw [now]
    cases rest with
    | nil => exact Nat.zero_le _
    | cons next rest =>
      change max 1 script.clock.reloadTo.toNat + rest.length * max 1 script.clock.reloadTo.toNat ≤ _
      rw [List.length_cons, Nat.succ_mul]
      omega

end Script

namespace Server

/-! ## What leaves the loop alone -/

/-- The loop goes on at the same place, with the same source and with the same peers, of which no more
than their connections are different. -/
structure Aside (server server' : Server) : Prop where
  peers : server'.peers.length = server.peers.length
  roster : server'.roster = server.roster
  listening : server'.listening = server.listening
  terminating : server'.terminating = server.terminating
  source : server'.source = server.source
  loop : server'.loop = server.loop

namespace Aside

theorem refl (server : Server) : server.Aside server := ⟨rfl, rfl, rfl, rfl, rfl, rfl⟩

theorem trans {server server' server'' : Server} (first : server.Aside server')
    (second : server'.Aside server'') : server.Aside server'' where
  peers := second.peers.trans first.peers
  roster := second.roster.trans first.roster
  listening := second.listening.trans first.listening
  terminating := second.terminating.trans first.terminating
  source := second.source.trans first.source
  loop := second.loop.trans first.loop

end Aside

theorem aside_appendLog (server : Server) (body : Json) (source : String) :
    server.Aside (server.appendLog body source) := by
  rw [appendLog_eq]
  exact ⟨rfl, rfl, rfl, rfl, rfl, rfl⟩

theorem aside_setPhase (server : Server) (phase : ServerPhase) :
    server.Aside (server.setPhase phase) := by
  rw [setPhase_eq]
  exact ⟨rfl, rfl, rfl, rfl, rfl, rfl⟩

theorem aside_broadcast (server : Server) (record : Json) : server.Aside (server.broadcast record) := by
  cases running : server.terminating with
  | true =>
    rw [broadcast_of_terminating running]
    exact .refl server
  | false =>
    rw [broadcast_of_running running]
    exact .trans ⟨length_updateAll _ _ _, rfl, rfl, rfl, rfl, rfl⟩ (aside_appendLog _ _ _)

theorem aside_broadcastAll (server : Server) (records : List Json) :
    server.Aside (server.broadcastAll records) := by
  unfold broadcastAll
  induction records generalizing server with
  | nil => exact .refl server
  | cons record records ih => exact (aside_broadcast server record).trans (ih _)

theorem aside_dispatch (server : Server) (command : Command) :
    server.Aside (server.dispatch command).2 := by
  have answer := dispatched server command
  generalize server.dispatch command = attempt at answer ⊢
  cases answer with
  | late | refused | noSampler | busy | noSession => exact .refl server
  | obeyed | started => exact ⟨rfl, rfl, rfl, rfl, rfl, rfl⟩
  | stopped =>
    have emptied : server.Aside { server with session := none } := ⟨rfl, rfl, rfl, rfl, rfl, rfl⟩
    exact emptied.trans (aside_broadcastAll _ _)

theorem aside_handle (server : Server) (incoming : Incoming) (source : String) :
    server.Aside (server.handle incoming source).2 := by
  cases incoming with
  | parsed command => exact (aside_appendLog server _ source).trans (aside_dispatch _ command)
  | raw text =>
    have logged := aside_appendLog server (Json.ofMessage text) source
    unfold handle handleText
    dsimp only
    split
    · exact logged.trans (aside_dispatch _ _)
    · exact logged

/-! ## Moments -/

/-- What happens at once on a server that nobody has connected to: its loop takes a step, or something
happens to its sampling session. -/
inductive Moment where
  | turn
  | expires
  | publishes
  | finishes
deriving DecidableEq

def pass (server : Server) : Moment → Server
  | .turn => server.advance
  | .expires => server.sessionExpires
  | .publishes => server.sessionPublishes
  | .finishes => server.sessionFinishes

/-- The server behind moments, one after the other. -/
def live (server : Server) (moments : List Moment) : Server := moments.foldl pass server

/-- The commands that are handed to the server at a moment: one or none. -/
def handed (server : Server) : Moment → List Command
  | .turn => server.dispatched?.toList
  | _ => []

/-- The commands that are handed to the server over the moments. -/
def handedOver (server : Server) : List Moment → List Command
  | [] => []
  | moment :: moments => server.handed moment ++ (server.pass moment).handedOver moments

/-- What happens to the session alone leaves the loop and the gates. -/
theorem aside_pass (server : Server) {moment : Moment} (other : moment ≠ .turn) :
    server.Aside (server.pass moment) ∧ (server.pass moment).gates = server.gates := by
  have set : ∀ session, server.Aside { server with session } := fun _ => ⟨rfl, rfl, rfl, rfl, rfl, rfl⟩
  cases moment with
  | turn => exact absurd rfl other
  | expires => exact ⟨set _, rfl⟩
  | publishes =>
    unfold pass sessionPublishes
    dsimp only
    split
    · exact ⟨.refl server, rfl⟩
    split
    · exact ⟨set _, rfl⟩
    · exact ⟨(set _).trans (aside_broadcast _ _), gates_broadcastAll _ [_]⟩
    · exact ⟨.refl server, rfl⟩
  | finishes =>
    unfold pass sessionFinishes
    dsimp only
    split
    · exact ⟨.refl server, rfl⟩
    · exact ⟨(set _).trans (aside_broadcastAll _ _), gates_broadcastAll _ _⟩

/-! ## The loop with nobody connected -/

/-- How many steps the loop is away from the turn of the command source. -/
def stepsToSource : LoopPoint → Nat
  | .top => 3
  | .held _ => 2
  | .woken _ _ _ => 1
  | _ => 0

/-- The loop is on its round, with no client to serve. -/
inductive OnRound : LoopPoint → Prop where
  | top : OnRound .top
  | held : OnRound (.held [])
  | woken (listener source : Bool) : OnRound (.woken [] listener source)
  | serving (source : Bool) : OnRound (.serving [] source)

/-- Nobody has connected to the server, whose loop is running. -/
structure Alone (server : Server) : Prop where
  peers : server.peers = []
  clients : server.roster.clients = []
  listening : server.listening = true
  running : server.terminating = false
  round : OnRound server.loop

theorem Aside.alone {server server' : Server} (aside : server.Aside server') (alone : server.Alone) :
    server'.Alone where
  peers := List.eq_nil_of_length_eq_zero (aside.peers.trans (congrArg List.length alone.peers))
  clients := aside.roster ▸ alone.clients
  listening := aside.listening.trans alone.listening
  running := aside.terminating.trans alone.running
  round := aside.loop ▸ alone.round

/-- A step of a loop with nobody connected: it comes nearer to the turn of the command source, or this
is its turn. -/
inductive Turned (server : Server) : Server → Prop where
  | nearer {server' : Server} (silent : server.incoming? = none) (alone : server'.Alone)
    (source : server'.source = server.source)
    (less : stepsToSource server'.loop < stepsToSource server.loop) : Turned server server'
  | polled {ready : Bool} (atSource : server.loop = .serving [] ready) :
    Turned server ({ server with loop := .top }.pollSource ready)

theorem Alone.setLoop {server : Server} (alone : server.Alone) {loop : LoopPoint} (round : OnRound loop) :
    { server with loop }.Alone :=
  ⟨alone.peers, alone.clients, alone.listening, alone.running, round⟩

theorem Alone.turned {server : Server} (alone : server.Alone) : Turned server server.advance := by
  have round := alone.round
  have notEnding : ¬server.terminating = true := Bool.eq_false_iff.mp alone.running
  unfold advance
  generalize atPoint : server.loop = loop at round ⊢
  cases round with
  | top =>
    have reaped : server.reap = { server with roster := (server.roster.reap server.isConnected).2 } := by
      rw [reap_eq, alone.clients]
      rfl
    have nobody : (server.roster.reap server.isConnected).2.clients = [] := by
      refine (Roster.clients_keep server.roster server.isConnected).trans ?_
      rw [alone.clients]
      rfl
    have alone' : server.reap.Alone := by
      rw [reaped]
      exact ⟨alone.peers, nobody, alone.listening, alone.running, alone.round⟩
    have noOne : server.reap.connected = [] := by
      unfold connected Roster.snapshot
      rw [alone'.clients]
      rfl
    dsimp only
    rw [if_neg notEnding, if_pos alone'.listening, noOne]
    refine .nearer ?_ (alone'.setLoop .held) ?_ ?_
    · unfold incoming?
      rw [atPoint]
    · rw [reaped]
    · rw [atPoint]
      exact Nat.lt_succ_self _
  | held =>
    have beside := aside_setPhase server .running
    refine .nearer ?_ ((beside.alone alone).setLoop (.woken _ _)) beside.source ?_
    · unfold incoming?
      rw [atPoint]
    · rw [atPoint]
      exact Nat.lt_succ_self _
  | woken listener source =>
    have beside := aside_setPhase server .dispatching
    have alone' := beside.alone alone
    have nobody : (if listener then (server.setPhase .dispatching).acceptAll
        else server.setPhase .dispatching) = server.setPhase .dispatching := by
      unfold acceptAll
      rw [alone'.peers]
      simp
    dsimp only
    rw [if_neg notEnding, nobody]
    refine .nearer ?_ (alone'.setLoop (.serving source)) beside.source ?_
    · unfold incoming?
      rw [atPoint]
    · rw [atPoint]
      exact Nat.lt_succ_self _
  | serving ready => exact .polled atPoint

/-! ## A script that is replayed -/

/-- The turn of a script: what it yields is handled, and the loop is back at its start. -/
theorem Alone.pollSource {server : Server} (alone : server.Alone) {script : Script}
    (found : server.source = some (.script script)) (ready : Bool) :
    let server' := { server with loop := .top }.pollSource ready
    server'.Alone ∧ server'.source = some (.script script.poll.2) ∧ server'.loop = .top ∧
      server.supplied? ready = script.poll.1.map .parsed := by
  have atTop : { server with loop := .top, source := some (.script script.poll.2) }.Alone :=
    ⟨alone.peers, alone.clients, alone.listening, alone.running, .top⟩
  have aside : Aside { server with loop := .top, source := some (.script script.poll.2) }
      ({ server with loop := .top }.pollSource ready) := by
    unfold Server.pollSource
    rw [found]
    simp only [Source.poll]
    cases script.poll.1 with
    | none => exact .refl _
    | some command => exact aside_handle _ _ _
  refine ⟨aside.alone atTop, aside.source, aside.loop, ?_⟩
  unfold supplied?
  rw [found]
  rfl

/-- The server replays a script whose commands are `given`, of which `taken` have been handed to it, and
its gates have obeyed them and nothing else. -/
structure Replaying (given taken : List Command) (server : Server) : Prop where
  alone : server.Alone
  source : ∃ script, server.source = some (.script script) ∧ given = taken ++ script.pending
  gates : server.gates = Registry.fresh.obeyAll taken

namespace Replaying

variable {given taken : List Command} {server : Server}

/-- Step: a turn of the loop. -/
theorem advance (replaying : Replaying given taken server) :
    Replaying given (taken ++ server.dispatched?.toList) server.advance := by
  have gates := server.gates_advance
  unfold gatesBehind at gates
  rw [replaying.alone.running, if_neg Bool.false_ne_true, replaying.gates] at gates
  have obeyed : server.advance.gates = Registry.fresh.obeyAll (taken ++ server.dispatched?.toList) := by
    rw [gates]
    exact (List.foldl_append).symm
  obtain ⟨script, found, order⟩ := replaying.source
  have turned := replaying.alone.turned
  generalize server.advance = server' at turned obeyed ⊢
  cases turned with
  | nearer silent alone source =>
    refine ⟨alone, ⟨script, source.trans found, ?_⟩, obeyed⟩
    unfold dispatched?
    rw [silent, order]
    simp
  | @polled ready atSource =>
    obtain ⟨alone, source, -, supplied⟩ := replaying.alone.pollSource found ready
    refine ⟨alone, ⟨script.poll.2, source, ?_⟩, obeyed⟩
    have handed : server.dispatched? = script.poll.1 := by
      unfold dispatched? incoming?
      rw [atSource]
      change (server.supplied? ready).bind _ = _
      rw [supplied]
      cases script.poll.1 <;> rfl
    rw [handed, order, script.pending_poll, List.append_assoc]

/-- Step: any moment. -/
theorem pass (replaying : Replaying given taken server) (moment : Moment) :
    Replaying given (taken ++ server.handed moment) (server.pass moment) := by
  by_cases turn : moment = .turn
  · rw [turn]
    exact replaying.advance
  · obtain ⟨aside, gates⟩ := aside_pass server turn
    have nothing : server.handed moment = [] := by
      cases moment with
      | turn => exact absurd rfl turn
      | _ => rfl
    rw [nothing, List.append_nil]
    obtain ⟨script, found, order⟩ := replaying.source
    exact ⟨aside.alone replaying.alone, ⟨script, aside.source.trans found, order⟩,
      gates.trans replaying.gates⟩

/-- Run: any moments. -/
theorem live (replaying : Replaying given taken server) (moments : List Moment) :
    Replaying given (taken ++ server.handedOver moments) (server.live moments) := by
  induction moments generalizing taken server with
  | nil =>
    unfold handedOver
    rw [List.append_nil]
    exact replaying
  | cons moment moments ih =>
    unfold handedOver
    rw [← List.append_assoc]
    exact ih (replaying.pass moment)

end Replaying

theorem startLoop_new (capacity : Nat) (log : Option Log) (source : Option Source)
    (sampler : Option Sampler) (deadline : Deadline) (now : String) :
    (new capacity log source sampler deadline now).startLoop =
      { new capacity log source sampler deadline now with loop := .top }.pass .turn := by
  unfold startLoop advanceToWait advanceToWait
  exact ite_self _

/-- A server replays the script that it has been made with. -/
theorem replaying_new (capacity : Nat) (log : Option Log) (script : Script) (sampler : Option Sampler)
    (deadline : Deadline) (now : String) :
    Replaying script.pending []
      { new capacity log (some (.script script)) sampler deadline now with loop := .top } :=
  ⟨⟨rfl, Roster.clients_empty capacity, rfl, rfl, .top⟩, ⟨script, rfl, rfl⟩, rfl⟩

/-! ## The end of a script -/

/-- All commands of the script have been handed over. -/
def AtEnd (server : Server) : Prop := ∃ clock, server.source = some (.script ⟨[], clock⟩)

/-- The end comes within so many steps of the loop: four for each turn that the script has left, and those
to the first one. -/
theorem atEnd_of_rank {server : Server} (alone : server.Alone) {script : Script}
    (found : server.source = some (.script script)) (runs : 0 < script.clock.step)
    {moments : List Moment}
    (enough : script.turnsLeft = 0 ∨
      4 * script.turnsLeft + stepsToSource server.loop ≤ moments.count .turn) :
    (server.live moments).AtEnd := by
  induction moments generalizing server script with
  | nil =>
    have none : script.turnsLeft = 0 := by
      rcases enough with none | enough
      · exact none
      · rw [List.count_nil] at enough
        omega
    obtain ⟨pending, clock⟩ := script
    cases Script.pending_of_turnsLeft none
    exact ⟨clock, found⟩
  | cons moment moments ih =>
    -- a step comes nearer to the turn of the source, and this turn is one of those that are left
    by_cases turn : moment = .turn
    · rw [turn, List.count_cons_self] at enough
      rw [turn]
      change (server.advance.live moments).AtEnd
      have turned := alone.turned
      generalize server.advance = server' at turned ⊢
      cases turned with
      | nearer _ alone source less =>
        refine ih alone (source.trans found) runs (enough.imp_right fun enough => ?_)
        omega
      | @polled ready atSource =>
        obtain ⟨alone, source, loop, -⟩ := alone.pollSource found ready
        have fewer := Script.turnsLeft_poll runs
        refine ih alone source (script.step_poll ▸ runs) ?_
        rw [loop]
        rw [atSource] at enough
        simp only [stepsToSource] at enough ⊢
        omega
    · obtain ⟨aside, -⟩ := aside_pass server turn
      rw [List.count_cons_of_ne turn, ← aside.loop] at enough
      exact ih (aside.alone alone) (aside.source.trans found) runs enough

/-! ## Texts one by one -/

/-- Handle texts one after the other. -/
def handleTexts (server : Server) (texts : List String) (source : String) : Server :=
  texts.foldl (fun server t => (server.handleText t source).2) server

/-- The gates obey the commands in the texts, in their order. -/
theorem gates_handleTexts {server : Server} (running : server.terminating = false) (texts : List String)
    (source : String) :
    (server.handleTexts texts source).gates =
      server.gates.obeyAll (texts.filterMap fun t => (Incoming.raw t).command?) := by
  induction texts generalizing server with
  | nil => rfl
  | cons t texts ih =>
    have handled := gates_handle server (.raw t) source
    unfold gatesBehind at handled
    rw [running, if_neg Bool.false_ne_true] at handled
    have running' := (aside_handle server (.raw t) source).terminating.trans running
    change ((server.handle (.raw t) source).2.handleTexts texts source).gates = _
    rw [ih running', handled, List.filterMap_cons]
    cases (Incoming.raw t).command? <;> rfl

/-! ## Scripts and texts -/

/-- **Replay**: a script whose file is the list of some texts of documents, none of which gives a field
twice, has the commands of the texts that are commands, and a warning for each of the others. When a
server has replayed it to its end, the commands that it has handed to itself and the state of its gates
are those of a server that is given the texts one by one; and there is an end if the countdown runs. -/
theorem script_replay (path : String) (clock : Countdown) {texts : List String}
    (documents : ∀ t ∈ texts, Script.DocumentText t) (once : ∀ t ∈ texts, Script.FieldsOnce t)
    {items : List Json} (isList : Json.readList (String.ofList (Script.listText texts)) = .ok items) :
    ∃ commands refused,
      Script.load path (.ok (Text.encode (Script.listText texts))) clock =
        .ok (⟨commands, clock⟩, refused.map (Script.warning path)) ∧
      Script.Loaded texts commands refused ∧
      ∀ (capacity : Nat) (log : Option Log) (source : Option Source) (sampler : Option Sampler)
        (deadline : Deadline) (now tag : String),
        let replaying :=
          (new capacity log (some (.script ⟨commands, clock⟩)) sampler deadline now).startLoop
        let told := (new capacity log source sampler deadline now).handleTexts texts tag
        (∀ moments, (replaying.live moments).AtEnd →
          replaying.handedOver moments = texts.filterMap (fun t => (Incoming.raw t).command?) ∧
          (replaying.live moments).gates = told.gates) ∧
        (0 < clock.step → ∃ turns, ∀ moments, turns ≤ moments.count .turn →
          (replaying.live moments).AtEnd) := by
  obtain ⟨commands, refused, load, loaded⟩ := Script.load_texts path clock documents once isList
  refine ⟨commands, refused, load, loaded, ?_⟩
  intro capacity log source sampler deadline now tag replaying told
  have parsed : commands = texts.filterMap fun t => (Incoming.raw t).command? := loaded.parsed
  have begun := replaying_new capacity log ⟨commands, clock⟩ sampler deadline now
  have started : replaying = _ :=
    startLoop_new capacity log (some (.script ⟨commands, clock⟩)) sampler deadline now
  constructor
  · rintro moments ⟨clock', atEnd⟩
    have lived := (begun.pass .turn).live moments
    rw [← started] at lived
    obtain ⟨script, found, order⟩ := lived.source
    cases found.symm.trans atEnd
    have all : replaying.handedOver moments = texts.filterMap fun t => (Incoming.raw t).command? := by
      rw [← parsed]
      exact (order.trans (List.append_nil _)).symm
    have fresh : (new capacity log source sampler deadline now).gates = .fresh := rfl
    refine ⟨all, ?_⟩
    rw [gates_handleTexts rfl, fresh, ← all]
    exact lived.gates
  · intro runs
    refine ⟨4 * (Script.mk commands clock).turnsLeft + 2, fun moments enough => ?_⟩
    have further : 4 * (Script.mk commands clock).turnsLeft + stepsToSource .top ≤
        (Moment.turn :: moments).count .turn := by
      rw [List.count_cons_self]
      exact Nat.succ_le_succ enough
    rw [started]
    exact atEnd_of_rank begun.alone rfl runs (.inr further)

/-- The text of a command. -/
def startText : String :=
  "\x7b\"functionality\":\"monitorEvents\",\"command\":\"start\",\"sampleRate\":5\x7d"

/-- The script of a command and a number has the command alone, and hands it over. -/
theorem script_replay_start_and_number :
    let texts := [startText, " 17"]
    let script : Script := ⟨[⟨"monitorEvents", .start, some 5⟩], ⟨1000, 1000, 100⟩⟩
    (∀ t ∈ texts, Script.DocumentText t) ∧ (∀ t ∈ texts, Script.FieldsOnce t) ∧
    (∃ items, Json.readList (String.ofList (Script.listText texts)) = .ok items) ∧
    ∃ error, Script.load "script.json" (.ok (Text.encode (Script.listText texts))) script.clock =
        .ok (script, [Script.warning "script.json" (1, error)]) ∧
      ∃ moments, (new 1 none (some (.script script)) none ⟨⟨0⟩, ⟨0⟩⟩ "").startLoop.handedOver moments =
        [⟨"monitorEvents", .start, some 5⟩] := by
  intro texts script
  have parsed : Command.parse startText = .ok ⟨"monitorEvents", .start, some 5⟩ := rfl
  have documents : ∀ t ∈ texts, Script.DocumentText t := by
    intro t isIn
    rcases List.mem_cons.mp isIn with rfl | isIn
    · exact Script.documentText_of_pass rfl
    · cases List.mem_singleton.mp isIn
      exact Script.documentText_of_pass rfl
  have once : ∀ t ∈ texts, Script.FieldsOnce t := by
    intro t isIn
    rcases List.mem_cons.mp isIn with rfl | isIn
    · exact Script.fieldsOnce_of_parse parsed
    · cases List.mem_singleton.mp isIn
      exact Script.fieldsOnce_of_noBrace (by decide)
  have isList : Json.readList (String.ofList (Script.listText [startText, " 17"])) =
      .ok [Message.toJson ⟨"monitorEvents", "start", some 5, none⟩, .ofInt64 17] := rfl
  obtain ⟨commands, refused, load, loaded, replays⟩ :=
    script_replay "script.json" script.clock documents once isList
  have only : commands = script.pending := loaded.parsed
  subst only
  refine ⟨documents, once, ⟨_, isList⟩, ?_⟩
  have alone : refused.length = 1 := Nat.succ.inj ((Nat.add_comm _ _).trans loaded.complete)
  obtain ⟨⟨index, error⟩, rfl⟩ := List.length_eq_one_iff.mp alone
  have second : index = 1 := by
    obtain ⟨t, reason, found, fails⟩ := (loaded.refused_iff index).mp ⟨error, List.mem_cons_self⟩
    match index with
    | 0 =>
      cases found
      rw [parsed] at fails
      cases fails
    | 1 => rfl
    | index + 2 => cases found
  subst second
  refine ⟨error, load, ?_⟩
  obtain ⟨ends, reached⟩ := replays 1 none none none ⟨⟨0⟩, ⟨0⟩⟩ "" ""
  obtain ⟨turns, enough⟩ := reached (by decide)
  have atEnd := enough (List.replicate turns .turn) (Nat.le_of_eq List.count_replicate_self.symm)
  exact ⟨_, (ends _ atEnd).1⟩

end Server
end TelemetryHub
