import TelemetryHub.Proofs.Json.Keys
import TelemetryHub.Proofs.Server.Delivery

/-!
# What is said of an event

The record of an event is a tag, which is the category, and the fields of the producer behind it. They are
put into one map (`extend_eq`): a field that is new comes behind the others, and one that is there already
keeps its place and takes the new value. So the fields keep their order and their values, and the tag is in
front (`tagged_eq`), but its value is the one that a field with the name of the tag has, if there is such a
field. Clients and the log get the record as it is (`emits_tagged`).
-/

namespace TelemetryHub

namespace Json.Members

variable {key : String} {members : Members}

theorem key_mem {member : String × Json} (isIn : member ∈ members) : member.1 ∈ members.map Prod.fst :=
  List.mem_map_of_mem isIn

theorem lookup_new (new : key ∉ members.map Prod.fst) : lookup key members = none := by
  induction members with
  | nil => rfl
  | cons member members ih =>
    obtain ⟨k, v⟩ := member
    rw [List.map_cons, List.mem_cons, not_or] at new
    rw [lookup, if_neg (Ne.symm new.1), ih new.2]

theorem lookup_eq_some_iff (distinct : (members.map Prod.fst).Nodup) {value : Json} :
    lookup key members = some value ↔ (key, value) ∈ members := by
  induction members with
  | nil => simp [lookup]
  | cons member members ih =>
    obtain ⟨k, v⟩ := member
    obtain ⟨(new : k ∉ members.map Prod.fst), distinct⟩ := List.nodup_cons.mp distinct
    by_cases same : k = key
    · subst same
      have once : (k, value) ∉ members := fun isIn => new (key_mem isIn)
      simp [lookup, once, eq_comm]
    · simp [lookup, same, Ne.symm same, ih distinct]

theorem map_eq_self {change : String × Json → String × Json}
    (kept : ∀ member ∈ members, change member = member) : members.map change = members :=
  (List.map_congr_left kept).trans (List.map_id members)

/-- A key that is there keeps its place. -/
theorem insert_old (distinct : (members.map Prod.fst).Nodup) (old : key ∈ members.map Prod.fst)
    (value : Json) : insert key value members =
      members.map fun member => if member.1 = key then (key, value) else member := by
  induction members with
  | nil => cases old
  | cons member members ih =>
    obtain ⟨k, v⟩ := member
    obtain ⟨(new : k ∉ members.map Prod.fst), distinct⟩ := List.nodup_cons.mp distinct
    by_cases same : k = key
    · subst same
      have kept : ∀ member ∈ members, (if member.1 = k then (k, value) else member) = member := by
        intro member isIn
        refine if_neg fun again => new ?_
        rw [← again]
        exact key_mem isIn
      rw [insert, if_pos rfl, List.map_cons, if_pos rfl, map_eq_self kept]
    · have later : key ∈ members.map Prod.fst := (List.mem_cons.mp old).resolve_left (Ne.symm same)
      rw [insert, if_neg same, List.map_cons, if_neg same, ih distinct later]

end Json.Members

/-! ## The record -/

namespace Telemetry

open Json (Members)

/-- A member of a record, with the value that fields have for it. -/
def revalued (fields : Members) (member : String × Json) : String × Json :=
  (member.1, (Members.lookup member.1 fields).getD member.2)

theorem revalued_new {fields : Members} {member : String × Json} (new : member.1 ∉ fields.map Prod.fst) :
    revalued fields member = member := by
  rw [revalued, Members.lookup_new new]
  rfl

theorem revalued_cons (field : String × Json) (fields : Members) (member : String × Json) :
    revalued (field :: fields) member =
      if member.1 = field.1 then (member.1, field.2) else revalued fields member := by
  by_cases same : member.1 = field.1
  · simp [revalued, Members.lookup, same]
  · simp [revalued, Members.lookup, same, Ne.symm same]

/-- **A record with fields put to it** has its own members in their places, with the values of the fields for
them, and behind these the fields that are new, in their order. -/
theorem extend_eq {record fields : Members} (distinct : (record.map Prod.fst).Nodup)
    (distinct' : (fields.map Prod.fst).Nodup) :
    extend record fields =
      record.map (revalued fields) ++ fields.filter fun field => field.1 ∉ record.map Prod.fst := by
  induction fields generalizing record with
  | nil =>
    have kept : ∀ member ∈ record, revalued [] member = member := fun _ _ => revalued_new List.not_mem_nil
    rw [extend, Members.map_eq_self kept]
    exact (List.append_nil record).symm
  | cons field fields ih =>
    obtain ⟨key, value⟩ := field
    obtain ⟨(once : key ∉ fields.map Prod.fst), distinct'⟩ := List.nodup_cons.mp distinct'
    have others : ∀ field ∈ fields, field.1 ≠ key := by
      intro field isIn same
      rw [← same] at once
      exact once (Members.key_mem isIn)
    rw [extend, ih (Members.nodup_insert distinct) distinct', Members.keys_insert]
    by_cases old : key ∈ record.map Prod.fst
    · rw [if_pos old, Members.insert_old distinct old, List.map_map,
        List.filter_cons_of_neg (by simpa using old)]
      congr 1
      refine List.map_congr_left fun member _ => ?_
      rw [revalued_cons, Function.comp_apply]
      split
      · next same => rw [revalued_new once, same]
      · rfl
    · have kept : ∀ member ∈ record,
          revalued fields member = revalued ((key, value) :: fields) member := by
        intro member isIn
        have other : member.1 ≠ key := by
          intro same
          rw [← same] at old
          exact old (Members.key_mem isIn)
        rw [revalued_cons, if_neg other]
      rw [if_neg old, Members.insert_new old, List.map_append, List.map_congr_left kept, List.append_assoc,
        List.filter_cons_of_pos (by simpa using old)]
      congr 1
      rw [List.map_singleton, revalued_new once, List.singleton_append]
      congr 1
      refine List.filter_congr fun field isIn => ?_
      simp [others field isIn]

/-- The value of the tag. -/
def tag (category : String) (fields : Members) : Json :=
  (Members.lookup "category" fields).getD (.str category)

/-- The fields that have another name than the tag. -/
def untagged (fields : Members) : Members := fields.filter fun field => field.1 ≠ "category"

theorem tagged_eq {fields : Members} (distinct : (fields.map Prod.fst).Nodup) (category : String) :
    tagged category fields = .obj (("category", tag category fields) :: untagged fields) := by
  have alone : ([("category", Json.str category)].map Prod.fst).Nodup := List.pairwise_singleton _ _
  rw [tagged, extend_eq alone distinct]
  simp [revalued, tag, untagged]

/-- The tag is the category, unless a field says otherwise. -/
theorem tag_eq_iff {fields : Members} (distinct : (fields.map Prod.fst).Nodup) (category : String) :
    tag category fields = .str category ↔ ∀ value, ("category", value) ∈ fields → value = .str category := by
  simp only [← Members.lookup_eq_some_iff distinct, tag]
  cases Members.lookup "category" fields with
  | none => simp
  | some value => simp

end Telemetry

/-! ## Clients and the log -/

namespace Server

open Json (Members)
open Telemetry (tagged tag untagged)

/-- A producer's event comes to clients and to the log as this record. -/
structure Emits (server : Server) (category : String) (fields : Members) (record : Json) : Prop where
  /-- Whoever is still a client has been sent the line of the record, and nothing else. -/
  clients : ∀ peer c, (server.emit category fields).connection? peer = some c → c.isConnected = true →
    ∃ before, server.connection? peer = some before ∧ before.isConnected = true ∧
      c.sent = before.sent ++ payload record
  /-- A log that takes it has the record as its next entry. -/
  log : ∀ entries, server.Logs entries → server.logRefusal = none →
    (server.emit category fields).Logs (entries ++ [.value record ownName server.now])

theorem emits {server : Server} (coherent : server.Coherent) (running : server.terminating = false)
    (category : String) (fields : Members) : server.Emits category fields (tagged category fields) where
  clients peer c found connected := by
    have moved := coherent.connection?_broadcast peer running (tagged category fields)
    rw [show server.broadcast _ = server.emit category fields from rfl, found] at moved
    obtain ⟨before, found', -⟩ := Option.map_eq_some_iff.mp moved.symm
    have told := sent_of_connected coherent [.broadcast (tagged category fields)] found' found connected
    rw [List.flatMap_singleton] at told
    exact ⟨before, found', told⟩
  log entries logs accepts := by
    obtain ⟨peers, same⟩ : ∃ peers, server.perform (.broadcast (tagged category fields)) =
        { server with peers }.appendLog (tagged category fields) ownName := perform_logged rfl running
    have logs' : Logs { server with peers } entries := logs.same ⟨rfl, rfl, rfl, rfl⟩
    rw [show server.emit category fields = _ from same]
    exact logs'.appendLog running accepts (tagged category fields) ownName

/-- **What is said of an event.** The record has the tag in front and the producer's other fields behind it,
with their values and in their order; the tag is the category exactly if the producer has no field of that
name with another value; and this record is what clients and the log get. -/
theorem emits_tagged {fields : Members} (distinct : (fields.map Prod.fst).Nodup) (category : String) :
    tagged category fields = .obj (("category", tag category fields) :: untagged fields) ∧
    (tag category fields = .str category ↔ ∀ value, ("category", value) ∈ fields → value = .str category) ∧
    ∀ server : Server, server.Coherent → server.terminating = false →
      server.Emits category fields (.obj (("category", tag category fields) :: untagged fields)) := by
  have same := Telemetry.tagged_eq distinct category
  refine ⟨same, Telemetry.tag_eq_iff distinct category, fun server coherent running => ?_⟩
  rw [← same]
  exact emits coherent running category fields

/-- A server with a log and one client. -/
def attended : Server :=
  (new 1 (some ⟨"log", "[\n", "", 0⟩) none none ⟨⟨0⟩, ⟨0⟩⟩ "noon").run [.connect .opened .all, .accept 0]

theorem attended_coherent : attended.Coherent := (coherent_new 1 _ none none ⟨⟨0⟩, ⟨0⟩⟩ "noon").run _

/-- An event with two fields is a line to the client. -/
theorem emits_tagged_two_fields :
    let fields : Members := [("zeta", .ofNat 1), ("alpha", .str "a")]
    let record := Json.obj [("category", .str "methodEntryEvents"), ("zeta", .ofNat 1), ("alpha", .str "a")]
    (fields.map Prod.fst).Nodup ∧ attended.Coherent ∧ attended.terminating = false ∧
      tagged "methodEntryEvents" fields = record ∧
      attended.Emits "methodEntryEvents" fields record ∧
      ((attended.emit "methodEntryEvents" fields).connection? 0).map Connection.sent =
        some (Text.encode
          "\x7b\"category\":\"methodEntryEvents\",\"zeta\":1,\"alpha\":\"a\"\x7d\n".toList) := by
  intro fields record
  have distinct : (fields.map Prod.fst).Nodup := by decide
  obtain ⟨same, -, emits⟩ := emits_tagged distinct "methodEntryEvents"
  exact ⟨distinct, attended_coherent, rfl, same, emits attended attended_coherent rfl, by decide +kernel⟩

/-- **A field takes the place of the category**: with a field of that name the record is not tagged with the
category of its producer, and the client does not see it. -/
theorem field_takes_category :
    let fields : Members := [("category", .str "override"), ("x", .ofNat 1)]
    (fields.map Prod.fst).Nodup ∧
      tagged "methodEntryEvents" fields ≠ .obj (("category", .str "methodEntryEvents") :: untagged fields) ∧
      ((attended.emit "methodEntryEvents" fields).connection? 0).map Connection.sent =
        some (Text.encode "\x7b\"category\":\"override\",\"x\":1\x7d\n".toList) := by
  intro fields
  have untouched : tagged "methodEntryEvents" fields = .obj fields := by rfl
  refine ⟨by decide, fun same => ?_, by decide +kernel⟩
  rw [untouched] at same
  have first := (List.cons.inj (Json.obj.inj same)).1
  have value := Json.str.inj (Prod.mk.inj first).2
  exact absurd value (by decide)

end Server
end TelemetryHub
