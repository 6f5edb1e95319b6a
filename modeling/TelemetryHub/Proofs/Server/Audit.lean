import TelemetryHub.Proofs.Server.Processing

/-!
# The log as an audit trail

Each thing that the server processes has its entry in the log, in order and once, and nothing else has one
(`Sound.logs_operateAll`). So the file that the shutdown leaves is the list of these entries
(`audit_trail`).
-/

namespace TelemetryHub

namespace Server

open Log (Entry)

/-- A closed log leaves the list of its entries behind. -/
theorem Logs.exists_closed {server : Server} {entries : List Entry} (logs : server.Logs entries)
    (terminating : server.terminating = true) :
    ∃ log : Log, log.Holds entries ∧ server.logText = some log.closed := by
  cases logs with
  | opened running => cases running.symm.trans terminating
  | @closed log _ found file holds =>
    refine ⟨log, holds, ?_⟩
    unfold logText
    rw [found]
    exact file

/-- **Audit trail**: the file that the shutdown leaves is the list of the entries of all that has been
processed, each once and in order, with the name of those it comes from, and nothing that is done later
adds to it. The turns of the loop follow each other, each message is handled in its turn, and a text that
is no document stands in the file as it is. -/
theorem audit_trail (path : String) (capacity : Nat) (source : Option Source)
    (sampler : Option Sampler) (deadline : Deadline) (now : String) (before after : List Operation) :
    ∃ log, Log.create path (.ok ()) none = .ok log ∧
      let server := new capacity (some log) source sampler deadline now
      let reached := server.operateAll before
      let last := server.operateAll (before ++ .shutdown :: after)
      let entries := server.entries before
      last.logText = some (String.ofList (Log.closedText entries)) ∧
      ((∀ entry ∈ entries, entry.Fits) →
        last.logText.map Json.read = some (.ok (.arr (entries.map Entry.record)))) ∧
      List.IsChain Turn.Next (server.turns before) ∧
      (∀ incoming, reached.incoming? = some incoming → ∃ turn origin read,
        reached.turn? = some turn ∧ turn.origin? = some origin ∧
        reached.advance = (handle read incoming origin).2) ∧
      ∀ text origin now, (∀ value, Json.read text ≠ .ok value) →
        (Entry.text text origin now).body = .str text := by
  obtain ⟨log, created, -⟩ := Log.holds_create path
  refine ⟨log, created, ?_⟩
  intro server reached last entries
  have begins : server.Sound := sound_new capacity (some log) source sampler deadline now
  obtain ⟨logs, accepts⟩ := logs_new created capacity source sampler deadline now before
  have ended : reached.shutdown.Ended := (begins.operateAll before).shutdown
  have same : last.logText = reached.shutdown.logText := by
    have split : last = reached.shutdown.operateAll after := operateAll_append server before _
    rw [split, (ended.operateAll after).1.rest]
    rfl
  obtain ⟨closed, holds', text⟩ := (logs.shutdown accepts).exists_closed ended.terminating
  have seated := seated_new capacity (some log) source sampler deadline now
  refine ⟨?_, fun fits => ?_, seated.isChain_turns .idle before, fun _ => exists_turn,
    fun text _ _ noDocument => ?_⟩
  · rw [same, text, holds'.closed_eq]
  · rw [same, text, Option.map_some, holds'.read_closed fits]
  · change Json.ofMessage text = .str text
    unfold Json.ofMessage
    split
    · next value read => exact absurd read (noDocument value)
    · rfl

/-- A refused text and a record have their entries, and a record behind the shutdown has none. -/
example (deadline : Deadline) :
    (new 1 none none none deadline "t").entries
      [.handleText "?" "client-0", .broadcast (.bool true), .shutdown, .broadcast .null] =
      [.text "?" "client-0" "t", .value (.bool true) "agent" "t"] := by
  rfl

end Server
end TelemetryHub
