import TelemetryHub.Proofs.Json.OneLine
import TelemetryHub.Proofs.Server.Isolation
import TelemetryHub.Proofs.Server.Logging

/-!
# What clients are sent

The steps of a run divide for each client into those before its acceptance, those through which it is
connected, and the rest, which a failed send or a release begins (`Course`). One step continues such a
division (`Course.next`), and so every run has one for every peer (`course`). What a client has been
sent is therefore the lines of the records that were broadcast while it was connected, and perhaps a
part of the line at whose sending it went.
-/

namespace TelemetryHub.Server

/-! ## Courses -/

/-- A peer is accepted behind some steps, and connected through the ones that follow. -/
structure Serves (server : Server) (peer : Nat) (before during : List Step) : Prop where
  unknown : ∀ earlier, earlier <+: before → (server.run earlier).connection? peer = none
  connected : ∀ earlier, earlier <+: during →
    (server.run (before ++ .accept peer :: earlier)).isConnected peer = true

/-- A client that has gone by a point of the run gets nothing through the steps behind it. -/
def Silent (server : Server) (peer : Nat) (sent : List UInt8) (reached after : List Step) : Prop :=
  ∀ earlier, earlier <+: after → ∃ c, (server.run (reached ++ earlier)).connection? peer = some c ∧
    c.isConnected = false ∧ c.sent = sent

/-- How a client stands at the end of a run, behind the steps through which it was connected: it is
connected still, or a step has ended its connection, perhaps with a part of a line. -/
inductive Rests (server : Server) (peer : Nat) (c : Connection) (reached : List Step) :
    List Step → List UInt8 → Prop where
  | connected (connected : c.isConnected = true) : Rests server peer c reached [] []
  | gone {step : Step} {after : List Step} {torn : List UInt8}
    (ending : Ends (server.run reached) peer step torn) (gone : c.isConnected = false)
    (silent : Silent server peer c.sent (reached ++ [step]) after) :
    Rests server peer c reached (step :: after) torn

/-- How the steps of a run divide for a peer. -/
inductive Course (server : Server) (peer : Nat) (steps : List Step) : Option Connection → Prop where
  | unknown (never : ∀ earlier, earlier <+: steps → (server.run earlier).connection? peer = none) :
    Course server peer steps none
  | client {before during after : List Step} {torn : List UInt8} {c : Connection}
    (divided : steps = before ++ .accept peer :: (during ++ after))
    (serves : Serves server peer before during)
    (rests : Rests server peer c (before ++ .accept peer :: during) after torn)
    (sent : c.sent = during.flatMap Step.line ++ torn) : Course server peer steps (some c)

theorem run_concat (server : Server) (steps : List Step) (step : Step) :
    server.run (steps ++ [step]) = (server.run steps).perform step := run_append server steps [step]

/-- What holds before each step and after the last one holds at every point. -/
theorem of_prefix_concat {P : List Step → Prop} {steps : List Step} {step : Step}
    (before : ∀ earlier, earlier <+: steps → P earlier) (last : P (steps ++ [step])) :
    ∀ earlier, earlier <+: steps ++ [step] → P earlier := by
  intro earlier front
  rcases List.prefix_concat_iff.mp front with same | shorter
  · rw [same]
    exact last
  · exact before earlier shorter

/-- A client that stays connected is served through the next step as well. -/
theorem Serves.next {server : Server} {peer : Nat} {before during : List Step} {step : Step}
    {c : Connection} (serves : Serves server peer before during)
    (now : (server.run ((before ++ .accept peer :: during) ++ [step])).connection? peer = some c)
    (connected : c.isConnected = true) : Serves server peer before (during ++ [step]) where
  unknown := serves.unknown
  connected := by
    refine of_prefix_concat serves.connected ?_
    rw [List.append_assoc] at now
    exact (isConnected_of_some now).trans connected

/-- A client that has gone gets nothing with the next step either. -/
theorem Silent.next {server : Server} {peer : Nat} {sent : List UInt8} {reached after : List Step}
    {step : Step} {c : Connection} (silent : Silent server peer sent reached after)
    (now : (server.run ((reached ++ after) ++ [step])).connection? peer = some c)
    (gone : c.isConnected = false) (same : c.sent = sent) :
    Silent server peer sent reached (after ++ [step]) := by
  rw [List.append_assoc] at now
  exact of_prefix_concat silent ⟨c, now, gone, same⟩

/-- **Step**: a course goes on with each step. -/
theorem Course.next {server : Server} {peer : Nat} {steps : List Step} {step : Step}
    {found found' : Option Connection} (course : Course server peer steps found)
    (now : (server.run (steps ++ [step])).connection? peer = found')
    (follows : Follows (server.run steps) peer step found found') :
    Course server peer (steps ++ [step]) found' := by
  cases course with
  | unknown never =>
    cases follows with
    | unknown => exact .unknown (of_prefix_concat never now)
    | accepted here connected fresh =>
      rw [here] at now ⊢
      have serves : Serves server peer steps [] := by
        refine ⟨never, ?_⟩
        intro earlier front
        rw [List.prefix_nil.mp front]
        exact (isConnected_of_some now).trans connected
      exact .client rfl serves (.connected connected) fresh
  | @client before during after torn c divided serves rests sent =>
    cases rests with
    | connected connected =>
      rw [List.append_nil] at divided sent
      rw [divided] at follows now ⊢
      have longer : (before ++ .accept peer :: during) ++ [step] =
          before ++ .accept peer :: ((during ++ [step]) ++ []) := by simp
      cases follows with
      | stays _ connected' sent' =>
        refine .client longer (serves.next now connected') (.connected connected') ?_
        rw [sent', sent, List.flatMap_append, List.flatMap_singleton, List.append_nil]
      | @ends _ c' torn _ gone ending sent' =>
        have silent : Silent server peer c'.sent ((before ++ .accept peer :: during) ++ [step]) [] := by
          intro earlier front
          rw [List.prefix_nil.mp front, List.append_nil]
          exact ⟨c', now, gone, rfl⟩
        refine .client (List.append_assoc ..) serves (.gone ending gone silent) ?_
        rw [sent', sent]
      | gone was => cases was.symm.trans connected
    | @gone last after torn ending gone silent =>
      have whole : steps = ((before ++ .accept peer :: during) ++ [last]) ++ after := by
        rw [divided]
        simp
      have longer : steps ++ [step] =
          before ++ .accept peer :: (during ++ last :: (after ++ [step])) := by
        rw [divided]
        simp
      cases follows with
      | stays was => cases was.symm.trans gone
      | ends was => cases was.symm.trans gone
      | gone _ gone' sent' =>
        rw [whole] at now
        rw [← sent'] at silent sent
        exact .client longer serves (.gone ending gone' (silent.next now gone' rfl)) sent

/-- **Run**: every run has a course for every peer that is none of the clients at its beginning. -/
theorem course {server : Server} (coherent : server.Coherent) {peer : Nat}
    (unknown : server.connection? peer = none) (steps : List Step) :
    Course server peer steps ((server.run steps).connection? peer) := by
  have goesOn : ∀ later earlier : List Step,
      Course server peer earlier ((server.run earlier).connection? peer) →
        Course server peer (earlier ++ later) ((server.run (earlier ++ later)).connection? peer) := by
    intro later
    induction later with
    | nil =>
      intro earlier course
      rw [List.append_nil]
      exact course
    | cons step later ih =>
      intro earlier course
      have follows := (coherent.run earlier).follows peer step
      rw [← run_concat] at follows
      have next := ih _ (course.next rfl follows)
      rw [List.append_assoc] at next
      exact next
  refine goesOn steps [] ?_
  rw [show (server.run []).connection? peer = none from unknown]
  refine .unknown ?_
  intro earlier front
  rw [List.prefix_nil.mp front]
  exact unknown

/-! ## The steps through which a client is connected -/

/-- The shutdown leaves nobody connected. -/
theorem no_shutdown_of_isConnected {server : Server} (coherent : server.Coherent) {peer : Nat}
    {steps : List Step} (connected : (server.run steps).isConnected peer = true) :
    Step.shutdown ∉ steps := by
  intro isIn
  have terminating := (terminating_run server steps).mpr (.inr isIn)
  have listed := (coherent.run steps).listed peer connected
  rw [((coherent.run steps).ended terminating).2] at listed
  cases listed

/-- Whoever is connected at the end of a run was connected at its beginning, and got the lines of all
that was broadcast. -/
theorem sent_of_connected {server : Server} (coherent : server.Coherent) {peer : Nat}
    (span : List Step) {c c' : Connection} (found : server.connection? peer = some c)
    (found' : (server.run span).connection? peer = some c') (connected : c'.isConnected = true) :
    c.isConnected = true ∧ c'.sent = c.sent ++ span.flatMap Step.line := by
  obtain ⟨c'', found'', kept⟩ := coherent.sends_run span peer c found
  cases found'.symm.trans found''
  exact kept connected

/-! ## Lines -/

/-- What is left of a line whose sending has failed has no line end. -/
theorem Ends.whole {server : Server} {peer : Nat} {step : Step} {torn : List UInt8}
    (ending : Ends server peer step torn) : 0x0A ∉ torn := by
  cases ending with
  | send front short =>
    intro isIn
    rcases List.prefix_concat_iff.mp front with same | inLine
    · rw [same] at short
      exact absurd short (Nat.lt_irrefl _)
    · exact Json.lineEnd_notIn_compact _ (inLine.subset isIn)
  | _ => exact List.not_mem_nil

theorem Rests.whole {server : Server} {peer : Nat} {c : Connection} {reached after : List Step}
    {torn : List UInt8} (rests : Rests server peer c reached after torn) : 0x0A ∉ torn := by
  cases rests with
  | connected => exact List.not_mem_nil
  | gone ending => exact ending.whole

/-- What a client has been sent is cut at its line ends into the records. -/
theorem splitOn_sent (records : List Json) {torn : List UInt8} (whole : 0x0A ∉ torn) :
    (records.flatMap payload ++ torn).splitOn 0x0A =
      records.map (fun record => Text.encode record.printCompact) ++ [torn] :=
  splitOn_lines _ records (fun record _ => Json.lineEnd_notIn_compact record) whole

/-! ## Delivery -/

/-- What a client of a run has been sent, with the division of the steps behind it. -/
theorem exists_division {server : Server} (coherent : server.Coherent) {peer : Nat}
    (unknown : server.connection? peer = none) {steps : List Step} {c : Connection}
    (found : (server.run steps).connection? peer = some c) :
    ∃ before during after torn, steps = before ++ .accept peer :: (during ++ after) ∧
      Serves server peer before during ∧
      Rests server peer c (before ++ .accept peer :: during) after torn ∧
      c.sent = (broadcasts during).flatMap payload ++ torn ∧
      broadcasts steps = broadcasts before ++ (broadcasts during ++ broadcasts after) := by
  have course := course coherent unknown steps
  rw [found] at course
  cases course with
  | @client before during after torn _ divided serves rests sent =>
    have noEnd := no_shutdown_of_isConnected coherent
      (serves.connected during (List.prefix_refl during))
    rw [List.mem_append, List.mem_cons, not_or, not_or] at noEnd
    obtain ⟨noEnd, -, noEnd'⟩ := noEnd
    rw [flatMap_line noEnd'] at sent
    refine ⟨before, during, after, torn, divided, serves, rests, sent, ?_⟩
    rw [divided, broadcasts_append noEnd, ← broadcasts_append noEnd']
    rfl

/-- **Delivery**: whatever steps are taken, a client has been sent the lines of exactly the records
that were broadcast while it was connected, and perhaps a part of the line at which its connection
ended; there are no line ends inside of records. Clients that are connected over the same steps get the
same bytes. The log has all records that were broadcast, among which those of a client follow each
other. What one client takes and sends makes no difference to the others and the log until somebody
else is accepted. The loop and the session of a server whose command source has another name, as every
one that is opened has, take nothing but such steps. -/
theorem broadcast_delivery (capacity : Nat) (log : Option Log) (source : Option Source)
    (sampler : Option Sampler) (deadline : Deadline) (now : String) (steps : List Step) :
    let server := new capacity log source sampler deadline now
    (∀ peer c, (server.run steps).connection? peer = some c → ∃ before during after torn,
      steps = before ++ .accept peer :: (during ++ after) ∧
      Serves server peer before during ∧
      Rests server peer c (before ++ .accept peer :: during) after torn ∧
      c.sent = (broadcasts during).flatMap payload ++ torn ∧
      c.sent.splitOn 0x0A =
        (broadcasts during).map (fun record => Text.encode record.printCompact) ++ [torn] ∧
      broadcasts during <:+: broadcasts steps) ∧
    (∀ record : Json, 0x0A ∉ Text.encode record.printCompact) ∧
    (∀ first span, steps = first ++ span → ∀ peer c c',
      (server.run first).connection? peer = some c →
      (server.run steps).connection? peer = some c' → c'.isConnected = true →
        c'.sent = c.sent ++ (broadcasts span).flatMap payload) ∧
    (∀ path opened, Log.create path (.ok ()) none = .ok opened → log = some opened →
      ∃ entries, (server.run steps).Logs entries ∧ own entries = broadcasts steps) ∧
    (∀ victim input acceptance later, (∀ peer, Step.accept peer ∉ later) →
      Apart victim (server.run (steps ++ later))
        (server.run (steps ++ .transport victim input acceptance :: later))) ∧
    (∀ config found, (Launch.server config found).1.Foreign) ∧
    (server.Foreign → (∀ count, (server.run steps).Reaches (Server.steps count (server.run steps))) ∧
      (server.run steps).Reaches (server.run steps).sessionExpires ∧
      (server.run steps).Reaches (server.run steps).sessionPublishes ∧
      (server.run steps).Reaches (server.run steps).sessionFinishes) := by
  intro server
  have coherent : server.Coherent := coherent_new capacity log source sampler deadline now
  refine ⟨?_, Json.lineEnd_notIn_compact, ?_, ?_, ?_, foreign_server, ?_⟩
  · intro peer c found
    obtain ⟨before, during, after, torn, divided, serves, rests, sent, all⟩ :=
      exists_division coherent rfl found
    refine ⟨before, during, after, torn, divided, serves, rests, sent, ?_, ?_⟩
    · rw [sent]
      exact splitOn_sent _ rests.whole
    · refine ⟨broadcasts before, broadcasts after, ?_⟩
      rw [all, List.append_assoc]
  · rintro first span rfl peer c c' found found' connected
    have noEnd := no_shutdown_of_isConnected coherent ((isConnected_of_some found').trans connected)
    rw [List.mem_append, not_or] at noEnd
    rw [run_append] at found'
    rw [← flatMap_line noEnd.2]
    exact (sent_of_connected (coherent.run first) span found found' connected).2
  · rintro path opened created rfl
    obtain ⟨log, created', holds⟩ := Log.holds_create path
    rw [created'] at created
    cases created
    have logs : server.Logs [] := .opened rfl rfl holds
    exact logs.run rfl steps
  · intro victim input acceptance later notAccept
    have apart : Apart victim (server.run steps)
        ((server.run steps).perform (.transport victim input acceptance)) :=
      .of_modifySocket _ victim _
    rw [run_append, run_append]
    exact apart.run (coherent.run steps) ((coherent.run steps).perform _) notAccept
  · intro foreign
    have foreign' := foreign.run steps
    exact ⟨reaches_steps foreign', reaches_sessionExpires foreign', reaches_sessionPublishes foreign',
      reaches_sessionFinishes foreign'⟩

/-- A client that takes two bytes more is sent its first line and the beginning of the second. -/
example :
    let reached := (new 1 none none none ⟨.ofMillis 0, .ofMillis 0⟩ "").run
      [.connect .opened .all, .accept 0, .broadcast (.bool true),
        .transport 0 .opened (.upTo 2 (.system .brokenPipe)), .broadcast .null, .broadcast .null]
    (reached.connection? 0).map Connection.sent =
      some (payload (.bool true) ++ (payload .null).take 2) := rfl

end TelemetryHub.Server
