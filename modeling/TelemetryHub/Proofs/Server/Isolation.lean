import TelemetryHub.Proofs.Server.Transitions

/-!
# Clients do not affect each other

Two servers can differ in one peer only, and in whether it is still a client (`Apart`). Every step
except an acceptance keeps them so (`Apart.perform`): what one client takes makes no difference to the
connections of the others or to the log. An acceptance may give the slot away that the client has left,
and slots are what clients are named after.
-/

namespace TelemetryHub.Server

/-- The slots without those of one client. -/
def slotsWithout (client : Nat) (roster : Roster Nat) : List (Option Nat) :=
  roster.slots.map (Option.filter (· != client))

/-- Two servers whose log is the same, and whose clients are, with at most one exception. -/
structure Apart (victim : Nat) (server server' : Server) : Prop where
  count : server'.peers.length = server.peers.length
  peers : ∀ peer, peer ≠ victim → server'.peers[peer]? = server.peers[peer]?
  slots : slotsWithout victim server'.roster = slotsWithout victim server.roster
  listening : server'.listening = server.listening
  log : server'.log = server.log
  logFile : server'.logFile = server.logFile
  logRefusal : server'.logRefusal = server.logRefusal
  now : server'.now = server.now
  terminating : server'.terminating = server.terminating

section

variable {victim : Nat}

theorem mem_clients_of_slots {roster roster' : Roster Nat}
    (same : slotsWithout victim roster' = slotsWithout victim roster) {peer : Nat}
    (other : peer ≠ victim) : peer ∈ roster'.clients ↔ peer ∈ roster.clients := by
  have seen : ∀ roster : Roster Nat,
      peer ∈ roster.clients ↔ some peer ∈ slotsWithout victim roster := by
    intro roster
    unfold Roster.clients slotsWithout
    simp only [List.mem_filterMap, List.mem_map, id, Option.filter_eq_some_iff, bne_iff_ne]
    constructor
    · rintro ⟨slot, isIn, rfl⟩
      exact ⟨some peer, isIn, rfl, other⟩
    · rintro ⟨slot, isIn, held, -⟩
      exact ⟨slot, isIn, held⟩
  rw [seen, seen, same]

theorem slotsWithout_reap {roster roster' : Roster Nat}
    (same : slotsWithout victim roster' = slotsWithout victim roster)
    {connected connected' : Nat → Bool}
    (others : ∀ peer, peer ≠ victim → connected' peer = connected peer) :
    slotsWithout victim (roster'.reap connected').2 = slotsWithout victim (roster.reap connected).2 := by
  have swap : ∀ (roster : Roster Nat) (connected : Nat → Bool),
      slotsWithout victim (roster.reap connected).2 =
        (slotsWithout victim roster).map (Roster.keep connected) := by
    intro roster connected
    unfold slotsWithout Roster.reap
    simp only [List.map_map]
    refine List.map_congr_left fun slot _ => ?_
    simp only [Function.comp_apply, Roster.keep, Option.filter_filter, Bool.and_comm]
  rw [swap, swap, same]
  refine List.map_congr_left fun slot isIn => ?_
  obtain ⟨held, -, rfl⟩ := List.mem_map.mp isIn
  cases held with
  | none => rfl
  | some peer => by_cases here : peer = victim <;> simp [Roster.keep, Option.filter, here, others]

theorem slotsWithout_set (roster : Roster Nat) (slot : Nat) :
    slotsWithout victim ⟨roster.slots.set slot none⟩ = (slotsWithout victim roster).set slot none :=
  List.map_set

theorem getElem?_slotsWithout (victim : Nat) (roster : Roster Nat) (slot : Nat) :
    ((slotsWithout victim roster)[slot]?).join = (roster.get slot).filter (· != victim) := by
  unfold slotsWithout Roster.get
  rw [List.getElem?_map]
  cases roster.slots[slot]? <;> rfl

namespace Apart

variable {server server' : Server}

theorem isConnected (apart : Apart victim server server') {peer : Nat} (other : peer ≠ victim) :
    server'.isConnected peer = server.isConnected peer := by
  unfold Server.isConnected
  rw [apart.peers peer other]

/-- A change of the connections and the roster that is the same for all others. -/
theorem updateAll (apart : Apart victim server server') {clients clients' : List Nat}
    (distinct : clients.Nodup) (distinct' : clients'.Nodup)
    (same : ∀ peer, peer ≠ victim → (peer ∈ clients' ↔ peer ∈ clients)) {roster roster' : Roster Nat}
    (slots : slotsWithout victim roster' = slotsWithout victim roster)
    (change : Connection → Connection) :
    Apart victim ({ server with roster }.updateAll clients change)
      ({ server' with roster := roster' }.updateAll clients' change) where
  count := by rw [length_updateAll, length_updateAll]; exact apart.count
  peers peer other := by
    rw [getElem?_updateAll _ distinct, getElem?_updateAll _ distinct']
    simp only [same peer other, apart.peers peer other]
  slots := slots
  listening := apart.listening
  log := apart.log
  logFile := apart.logFile
  logRefusal := apart.logRefusal
  now := apart.now
  terminating := apart.terminating

theorem appendLog (apart : Apart victim server server') (body : Json) (source : String) :
    Apart victim (server.appendLog body source) (server'.appendLog body source) := by
  cases found : server.log with
  | none =>
    rw [appendLog_of_none found, appendLog_of_none (apart.log.trans found)]
    exact apart
  | some log =>
    rw [appendLog_of_open found, appendLog_of_open (apart.log.trans found), apart.now,
      apart.logRefusal]
    exact { apart with log := rfl, logRefusal := rfl, now := rfl }

theorem refl (server : Server) : Apart victim server server :=
  ⟨rfl, fun _ _ => rfl, rfl, rfl, rfl, rfl, rfl, rfl, rfl⟩

theorem symm (apart : Apart victim server server') : Apart victim server' server where
  count := apart.count.symm
  peers peer other := (apart.peers peer other).symm
  slots := apart.slots.symm
  listening := apart.listening.symm
  log := apart.log.symm
  logFile := apart.logFile.symm
  logRefusal := apart.logRefusal.symm
  now := apart.now.symm
  terminating := apart.terminating.symm

theorem trans {server'' : Server} (apart : Apart victim server server')
    (apart' : Apart victim server' server'') : Apart victim server server'' where
  count := apart'.count.trans apart.count
  peers peer other := (apart'.peers peer other).trans (apart.peers peer other)
  slots := apart'.slots.trans apart.slots
  listening := apart'.listening.trans apart.listening
  log := apart'.log.trans apart.log
  logFile := apart'.logFile.trans apart.logFile
  logRefusal := apart'.logRefusal.trans apart.logRefusal
  now := apart'.now.trans apart.now
  terminating := apart'.terminating.trans apart.terminating

/-! ### Steps -/

theorem connect (apart : Apart victim server server') (socket : Socket) :
    Apart victim (server.connect socket) (server'.connect socket) :=
  { apart with
    count := by
      unfold Server.connect
      rw [List.length_append, List.length_append, apart.count]
    peers := by
      intro peer other
      unfold Server.connect
      rw [List.getElem?_append, List.getElem?_append, apart.count, apart.peers peer other] }

theorem modifySocket (apart : Apart victim server server') (target : Nat)
    (change : Socket → Socket) :
    Apart victim (server.modifySocket target change) (server'.modifySocket target change) :=
  { apart with
    count := by
      unfold Server.modifySocket
      rw [List.length_modify, List.length_modify, apart.count]
    peers := by
      intro peer other
      unfold Server.modifySocket
      rw [List.getElem?_modify, List.getElem?_modify, apart.peers peer other] }

/-- Something happens to the socket of one peer only. -/
theorem of_modifySocket (server : Server) (victim : Nat) (change : Socket → Socket) :
    Apart victim server (server.modifySocket victim change) :=
  { refl server with
    count := List.length_modify _ _ _
    peers := by
      intro peer other
      unfold Server.modifySocket
      rw [List.getElem?_modify]
      cases server.peers[peer]? with
      | none => rfl
      | some found => simp [other.symm] }

theorem broadcast (apart : Apart victim server server') (coherent : server.Coherent)
    (coherent' : server'.Coherent) (record : Json) :
    Apart victim (server.broadcast record) (server'.broadcast record) := by
  cases running : server.terminating with
  | true =>
    rw [broadcast_of_terminating running,
      broadcast_of_terminating (apart.terminating.trans running)]
    exact apart
  | false =>
    rw [broadcast_of_running running, broadcast_of_running (apart.terminating.trans running)]
    refine appendLog ?_ record ownName
    refine apart.updateAll coherent.nodup_connected coherent'.nodup_connected ?_ apart.slots _
    intro peer other
    rw [mem_connected coherent, mem_connected coherent', apart.isConnected other]

theorem receive (apart : Apart victim server server') (peer : Nat) :
    Apart victim (server.modifyConnection peer fun connection => connection.receive.2)
      (server'.modifyConnection peer fun connection => connection.receive.2) := by
  rw [modifyConnection_eq, modifyConnection_eq]
  exact apart.updateAll (by simp) (by simp) (fun _ _ => Iff.rfl) apart.slots _

theorem reap (apart : Apart victim server server') (coherent : server.Coherent)
    (coherent' : server'.Coherent) : Apart victim server.reap server'.reap := by
  rw [reap_eq, reap_eq]
  refine apart.updateAll (coherent.distinct.filter _) (coherent'.distinct.filter _) ?_ ?_ _
  · intro peer other
    rw [List.mem_filter, List.mem_filter, mem_clients_of_slots apart.slots other,
      apart.isConnected other]
  · exact slotsWithout_reap apart.slots fun peer other => apart.isConnected other

theorem evict_of_get {slot peer : Nat} (found : server.roster.get slot = some peer) :
    server.evict slot = { server with roster := ⟨server.roster.slots.set slot none⟩ }.updateAll [peer]
      Connection.close := by
  unfold Server.evict
  rw [Roster.remove_of_get found]
  exact modifyConnection_eq _ _ _

/-- An eviction of one client concerns that client only. -/
theorem of_evict (server : Server) (slot : Nat)
    (held : ∀ peer, server.roster.get slot = some peer → peer = victim) :
    Apart victim server (server.evict slot) := by
  cases found : server.roster.get slot with
  | none =>
    have nothing : server.evict slot = server := by
      unfold Server.evict Roster.remove
      rw [found]
    rw [nothing]
    exact refl server
  | some peer =>
    rw [evict_of_get found]
    have left : slotsWithout victim ⟨server.roster.slots.set slot none⟩ =
        slotsWithout victim server.roster := by
      have free : (slotsWithout victim server.roster)[slot]? = some none := by
        unfold slotsWithout
        rw [List.getElem?_map, Roster.slots_of_get found, held peer found]
        simp
      obtain ⟨within, isNone⟩ := List.getElem?_eq_some_iff.mp free
      rw [slotsWithout_set]
      exact (congrArg _ isNone.symm).trans (List.set_getElem_self within)
    have same : Apart victim server server := refl server
    exact { same with
      count := length_updateAll _ _ _
      peers := by
        intro other notVictim
        rw [held peer found, getElem?_updateAll _ (by simp), if_neg (by simpa using notVictim)]
      slots := left }

theorem evict (apart : Apart victim server server') (slot : Nat) :
    Apart victim (server.evict slot) (server'.evict slot) := by
  have seen := getElem?_slotsWithout victim server.roster slot
  have seen' := getElem?_slotsWithout victim server'.roster slot
  rw [apart.slots] at seen'
  have same := seen'.symm.trans seen
  by_cases other : ∃ peer, server.roster.get slot = some peer ∧ peer ≠ victim
  · obtain ⟨peer, found, other⟩ := other
    have found' : server'.roster.get slot = some peer := by
      rw [found, Option.filter_some, if_pos (by simpa using other)] at same
      exact (Option.filter_eq_some_iff.mp same).1
    have left : slotsWithout victim ⟨server'.roster.slots.set slot none⟩ =
        slotsWithout victim ⟨server.roster.slots.set slot none⟩ := by
      rw [slotsWithout_set, slotsWithout_set, apart.slots]
    rw [evict_of_get found, evict_of_get found']
    exact apart.updateAll (by simp) (by simp) (fun _ _ => Iff.rfl) left _
  · -- in both servers the slot is free or the exception's
    have held : ∀ peer, server.roster.get slot = some peer → peer = victim := by
      intro peer found
      exact Decidable.not_not.mp fun notVictim => other ⟨peer, found, notVictim⟩
    have held' : ∀ peer, server'.roster.get slot = some peer → peer = victim := by
      intro peer found
      by_cases here : peer = victim
      · exact here
      · rw [found, Option.filter_some, if_pos (by simpa using here)] at same
        obtain ⟨found', -⟩ := Option.filter_eq_some_iff.mp same.symm
        exact held peer found'
    exact ((of_evict server slot held).symm.trans apart).trans (of_evict server' slot held')

theorem shutdown (apart : Apart victim server server') (coherent : server.Coherent)
    (coherent' : server'.Coherent) : Apart victim server.shutdown server'.shutdown := by
  cases running : server.terminating with
  | true =>
    rw [shutdown_of_terminating running, shutdown_of_terminating (apart.terminating.trans running)]
    exact apart
  | false =>
    have capacity : server'.roster.capacity = server.roster.capacity := by
      have lengths := congrArg List.length apart.slots
      unfold slotsWithout at lengths
      rw [List.length_map, List.length_map] at lengths
      exact lengths
    have closed : server'.closedFile = server.closedFile := by
      unfold closedFile
      rw [apart.log, apart.logFile, apart.logRefusal]
    have released := apart.updateAll coherent.distinct coherent'.distinct
      (fun peer other => mem_clients_of_slots apart.slots other)
      (congrArg (fun count => slotsWithout victim (.empty count)) capacity) Connection.close
    rw [shutdown_of_running running, shutdown_of_running (apart.terminating.trans running)]
    exact { released with
      listening := rfl
      log := rfl
      logFile := closed
      terminating := rfl }

/-- **Isolation**: a step other than an acceptance does the same to all others and to the log. -/
theorem perform (apart : Apart victim server server') (coherent : server.Coherent)
    (coherent' : server'.Coherent) {step : Step} (notAccept : ∀ peer, step ≠ .accept peer) :
    Apart victim (server.perform step) (server'.perform step) := by
  cases step with
  | connect input acceptance => exact apart.connect _
  | transport peer input acceptance => exact apart.modifySocket peer _
  | accept peer => exact absurd rfl (notAccept peer)
  | broadcast record => exact apart.broadcast coherent coherent' record
  | receive peer => exact apart.receive peer
  | reap => exact apart.reap coherent coherent'
  | evict slot => exact apart.evict slot
  | log body source foreign => exact apart.appendLog body source
  | shutdown => exact apart.shutdown coherent coherent'
  | elsewhere other foreign => exact { apart with now := rfl }

theorem run (apart : Apart victim server server') (coherent : server.Coherent)
    (coherent' : server'.Coherent) {steps : List Step}
    (notAccept : ∀ peer, Step.accept peer ∉ steps) :
    Apart victim (server.run steps) (server'.run steps) := by
  induction steps generalizing server server' with
  | nil => exact apart
  | cons step steps ih =>
    have here : ∀ peer, step ≠ .accept peer := by
      intro peer same
      exact notAccept peer (same ▸ List.mem_cons_self)
    refine ih (apart.perform coherent coherent' here) (coherent.perform step)
      (coherent'.perform step) ?_
    exact fun peer isIn => notAccept peer (List.mem_cons_of_mem step isIn)

end Apart

end

end TelemetryHub.Server
