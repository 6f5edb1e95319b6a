import TelemetryHub.Proofs.Log.RoundTrip
import TelemetryHub.Proofs.Server.Transitions

/-!
# What a run leaves in the log

A log whose device takes everything has an entry for each record that is broadcast and for each
command, in order, and the shutdown closes it (`Logs.run`). So the records of the server itself are the
ones that have been broadcast, up to the shutdown (`broadcasts`).
-/

namespace TelemetryHub.Server

open Log (Entry)

/-- The records that steps broadcast: nothing is broadcast any more once the shutdown has begun. -/
def broadcasts : List Step → List Json
  | [] => []
  | .shutdown :: _ => []
  | .broadcast record :: steps => record :: broadcasts steps
  | _ :: steps => broadcasts steps

theorem broadcasts_append {first : List Step} (noEnd : Step.shutdown ∉ first) (second : List Step) :
    broadcasts (first ++ second) = broadcasts first ++ broadcasts second := by
  induction first with
  | nil => rfl
  | cons step first ih =>
    rw [List.mem_cons, not_or] at noEnd
    obtain ⟨other, noEnd⟩ := noEnd
    rw [List.cons_append]
    cases step with
    | broadcast record => exact congrArg (record :: ·) (ih noEnd)
    | shutdown => exact absurd rfl other
    | _ => exact ih noEnd

/-- What steps write to a client that is connected through all of them. -/
theorem flatMap_line {steps : List Step} (noEnd : Step.shutdown ∉ steps) :
    steps.flatMap Step.line = (broadcasts steps).flatMap payload := by
  induction steps with
  | nil => rfl
  | cons step steps ih =>
    rw [List.mem_cons, not_or] at noEnd
    obtain ⟨other, noEnd⟩ := noEnd
    rw [List.flatMap_cons, ih noEnd]
    cases step with
    | broadcast record => rfl
    | shutdown => exact absurd rfl other
    | _ => rfl

/-! ## Steps that leave the log -/

/-- The log is the same, and the shutdown has begun or not. -/
structure SameLog (server server' : Server) : Prop where
  log : server'.log = server.log
  logFile : server'.logFile = server.logFile
  logRefusal : server'.logRefusal = server.logRefusal
  terminating : server'.terminating = server.terminating

/-- What a step gives to the log. -/
def Step.logged : Step → Option (Json × String)
  | .broadcast record => some (record, ownName)
  | .log body source _ => some (body, source)
  | _ => none

theorem sameLog_perform (server : Server) {step : Step} (silent : step.logged = none)
    (goesOn : step ≠ .shutdown) : server.SameLog (server.perform step) := by
  cases step with
  | connect => exact ⟨rfl, rfl, rfl, rfl⟩
  | transport => exact ⟨rfl, rfl, rfl, rfl⟩
  | accept peer =>
    change server.SameLog (if server.listening then server.acceptOne peer else server)
    split
    · rcases acceptOne_cases server peer with same | ⟨socket, waits, same⟩ |
        ⟨socket, slot, roster, waits, inserted, same⟩ <;> rw [same] <;> exact ⟨rfl, rfl, rfl, rfl⟩
    · exact ⟨rfl, rfl, rfl, rfl⟩
  | broadcast => cases silent
  | receive peer =>
    change server.SameLog (server.modifyConnection peer _)
    rw [modifyConnection_eq]
    exact ⟨rfl, rfl, rfl, rfl⟩
  | reap =>
    change server.SameLog server.reap
    rw [reap_eq]
    exact ⟨rfl, rfl, rfl, rfl⟩
  | evict slot =>
    change server.SameLog (server.evict slot)
    rcases evict_cases server slot with same | ⟨client, roster, removed, same⟩ <;> rw [same] <;>
      exact ⟨rfl, rfl, rfl, rfl⟩
  | log => cases silent
  | shutdown => exact absurd rfl goesOn
  | elsewhere => exact ⟨rfl, rfl, rfl, rfl⟩

/-! ## Steps that log -/

/-- What a step gives to the log is appended to it, unless the shutdown has begun. -/
theorem perform_logged {server : Server} {step : Step} {body : Json} {source : String}
    (logged : step.logged = some (body, source)) (running : server.terminating = false) :
    ∃ peers, server.perform step = { server with peers }.appendLog body source := by
  cases step with
  | broadcast record =>
    cases logged
    exact ⟨_, broadcast_of_running running body⟩
  | log body source foreign =>
    cases logged
    exact ⟨server.peers, rfl⟩
  | _ => cases logged

/-- Nothing is given to a log that the shutdown has closed. -/
theorem perform_closed {server : Server} {step : Step} {given : Json × String}
    (logged : step.logged = some given) (terminating : server.terminating = true)
    (none : server.log = none) : server.perform step = server := by
  cases step with
  | broadcast record => exact broadcast_of_terminating terminating record
  | log body source foreign => exact appendLog_of_none none body source
  | _ => cases logged

theorem terminating_appendLog (server : Server) (body : Json) (source : String) :
    (server.appendLog body source).terminating = server.terminating := by
  rw [appendLog_eq]

/-- Only the shutdown makes a server terminate, and it does so for good. -/
theorem terminating_perform (server : Server) (step : Step) :
    (server.perform step).terminating = true ↔ server.terminating = true ∨ step = .shutdown := by
  by_cases ends : step = .shutdown
  · rw [ends]
    have ended : server.shutdown.terminating = true := by
      cases running : server.terminating with
      | true => rw [shutdown_of_terminating running, running]
      | false => rw [shutdown_of_running running]
    exact ⟨fun _ => .inr rfl, fun _ => ended⟩
  · have same : (server.perform step).terminating = server.terminating := by
      cases logged : step.logged with
      | none => exact (sameLog_perform server logged ends).terminating
      | some record =>
        cases running : server.terminating with
        | true =>
          cases step with
          | broadcast record =>
            change (server.broadcast record).terminating = true
            rw [broadcast_of_terminating running, running]
          | log body source foreign =>
            change (server.appendLog body source).terminating = true
            rw [terminating_appendLog, running]
          | _ => cases logged
        | false =>
          obtain ⟨peers, performed⟩ := perform_logged logged running
          rw [performed, terminating_appendLog]
          exact running
    rw [same]
    exact ⟨.inl, fun either => either.resolve_right ends⟩

theorem terminating_run (server : Server) (steps : List Step) :
    (server.run steps).terminating = true ↔ server.terminating = true ∨ Step.shutdown ∈ steps := by
  induction steps generalizing server with
  | nil => simp [run]
  | cons step steps ih =>
    have next : server.run (step :: steps) = (server.perform step).run steps := rfl
    have flip : step = .shutdown ↔ Step.shutdown = step := eq_comm
    rw [next, ih, terminating_perform, flip, List.mem_cons, or_assoc]

/-! ## Runs -/

/-- The records among the entries that are the server's own. -/
def own (entries : List Entry) : List Json :=
  (entries.filter fun entry => entry.source = ownName).map Entry.body

theorem own_append (first second : List Entry) : own (first ++ second) = own first ++ own second := by
  simp [own]

/-- The log has these entries: it is open, or the shutdown has closed it behind them. -/
inductive Logs (server : Server) (entries : List Entry) : Prop where
  | opened {log : Log} (running : server.terminating = false) (found : server.log = some log)
    (holds : log.Holds entries)
  | closed {log : Log} (terminating : server.terminating = true) (found : server.log = none)
    (file : server.logFile = some log.closed) (holds : log.Holds entries)

theorem Logs.same {server server' : Server} {entries : List Entry} (logs : server.Logs entries)
    (same : server.SameLog server') : server'.Logs entries := by
  cases logs with
  | opened running found holds =>
    exact .opened (same.terminating.trans running) (same.log.trans found) holds
  | closed terminating found file holds =>
    exact .closed (same.terminating.trans terminating) (same.log.trans found)
      (same.logFile.trans file) holds

/-- What is given to an open log becomes its next entry. -/
theorem Logs.appendLog {server : Server} {entries : List Entry} (logs : server.Logs entries)
    (running : server.terminating = false) (accepts : server.logRefusal = none) (body : Json)
    (source : String) :
    (server.appendLog body source).Logs (entries ++ [.value body source server.now]) := by
  cases logs with
  | closed terminating => cases running.symm.trans terminating
  | opened _ found holds =>
    obtain ⟨log', taken, holds'⟩ := holds.append (.value body source server.now)
    rw [appendLog_of_open found, accepts]
    refine .opened running ?_ holds'
    exact congrArg (fun outcome => some outcome.2) taken

theorem Logs.shutdown {server : Server} {entries : List Entry} (logs : server.Logs entries)
    (accepts : server.logRefusal = none) : server.shutdown.Logs entries := by
  cases logs with
  | closed terminating found file holds =>
    rw [shutdown_of_terminating terminating]
    exact .closed terminating found file holds
  | opened running found holds =>
    rw [shutdown_of_running running]
    refine .closed rfl rfl ?_ holds
    simp only [closedFile, found, accepts]
    rfl

theorem Logs.perform {server : Server} {entries : List Entry} (logs : server.Logs entries)
    (accepts : server.logRefusal = none) (step : Step) :
    ∃ more, (server.perform step).Logs (entries ++ more) ∧
      own more = if server.terminating then [] else broadcasts [step] := by
  by_cases ends : step = .shutdown
  · rw [ends]
    refine ⟨[], ?_, ?_⟩
    · rw [List.append_nil]
      exact logs.shutdown accepts
    · split <;> rfl
  cases logged : step.logged with
  | none =>
    refine ⟨[], ?_, ?_⟩
    · rw [List.append_nil]
      exact logs.same (sameLog_perform server logged ends)
    · cases step with
      | broadcast => cases logged
      | log => cases logged
      | _ => split <;> rfl
  | some given =>
    obtain ⟨body, source⟩ := given
    cases running : server.terminating with
    | true =>
      refine ⟨[], ?_, rfl⟩
      rw [List.append_nil]
      cases logs with
      | opened running' => cases running.symm.trans running'
      | closed _ found file holds =>
        rw [perform_closed logged running found]
        exact .closed running found file holds
    | false =>
      obtain ⟨peers, performed⟩ := perform_logged logged running
      have logs' : Logs { server with peers } entries := logs.same ⟨rfl, rfl, rfl, rfl⟩
      refine ⟨[.value body source server.now], ?_, ?_⟩
      · rw [performed]
        exact logs'.appendLog running accepts body source
      · cases step with
        | broadcast record =>
          cases logged
          simp [own, broadcasts, Entry.source, Entry.body]
        | log body source foreign =>
          cases logged
          simp [own, broadcasts, Entry.source, foreign]
        | _ => cases logged

theorem logRefusal_perform (server : Server) (step : Step) :
    (server.perform step).logRefusal = server.logRefusal := by
  cases step with
  | broadcast record =>
    change (server.broadcast record).logRefusal = server.logRefusal
    cases running : server.terminating with
    | true => rw [broadcast_of_terminating running]
    | false =>
      rw [broadcast_of_running running, appendLog_eq]
      rfl
  | log body source foreign =>
    change (server.appendLog body source).logRefusal = server.logRefusal
    rw [appendLog_eq]
  | shutdown =>
    change server.shutdown.logRefusal = server.logRefusal
    cases running : server.terminating with
    | true => rw [shutdown_of_terminating running]
    | false =>
      rw [shutdown_of_running running]
      rfl
  | _ => exact SameLog.logRefusal (sameLog_perform server (by rfl) (by nofun))

/-- **The log**: what a run adds to the log of a server that runs are entries whose records, those of
the server itself, are the ones broadcast. -/
theorem Logs.run {server : Server} {entries : List Entry} (logs : server.Logs entries)
    (accepts : server.logRefusal = none) (steps : List Step) :
    ∃ more, (server.run steps).Logs (entries ++ more) ∧
      own more = if server.terminating then [] else broadcasts steps := by
  induction steps generalizing server entries with
  | nil => exact ⟨[], by rw [List.append_nil]; exact logs, by split <;> rfl⟩
  | cons step steps ih =>
    obtain ⟨first, logs', own'⟩ := logs.perform accepts step
    obtain ⟨later, logs'', own''⟩ := ih logs' ((logRefusal_perform server step).trans accepts)
    refine ⟨first ++ later, by rw [← List.append_assoc]; exact logs'', ?_⟩
    rw [own_append, own', own'']
    have ended := terminating_perform server step
    cases running : server.terminating with
    | true => rw [if_pos rfl, if_pos rfl, if_pos (ended.mpr (.inl running))]; rfl
    | false =>
      by_cases ends : step = .shutdown
      · rw [if_pos (ended.mpr (.inr ends)), ends]
        rfl
      · have goesOn : ¬(server.perform step).terminating = true := by
          rw [ended, running]
          simp [ends]
        have noEnd : Step.shutdown ∉ [step] := fun isIn => ends (List.mem_singleton.mp isIn).symm
        rw [if_neg Bool.false_ne_true, if_neg Bool.false_ne_true, if_neg goesOn,
          ← broadcasts_append noEnd]
        rfl

end TelemetryHub.Server
