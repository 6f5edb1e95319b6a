import TelemetryHub.Proofs.Json.Rereading
import TelemetryHub.Proofs.Log.RoundTrip

/-!
# When a closed log is read back

A record stands two containers deep in the file, and the reader goes 127 containers deep: a closed log is
read if and only if no message has more than 125 containers inside each other (`Holds.read_closed_iff`).
A message that is a text is taken for a value with up to 127 of them, so there are some in between.
-/

namespace TelemetryHub

open Json (Divided Enclosed KeysDistinct Nested Proper Taken)

namespace Json

theorem proper_read {text : String} {v : Json} (accepted : read text = .ok v) : Proper v := by
  obtain ⟨rest, found, -⟩ := (read_value_iff text v).mp accepted
  exact proper_value found

/-- Every double of what a message is taken for is one of the format. -/
theorem proper_ofMessage (text : String) : Proper (ofMessage text) := by
  unfold ofMessage
  split
  · next accepted => exact proper_read accepted
  · exact .str text

/-! ## Lists inside each other -/

/-- So many lists inside each other, with nothing in the innermost one. -/
def lists : Nat → Json
  | 0 => .arr []
  | n + 1 => .arr [lists n]

def brackets (n : Nat) : List Char := List.replicate n '[' ++ List.replicate n ']'

theorem taken_brackets {n depth : Nat} (deep : n < depth) :
    Taken depth (lists n) (brackets (n + 1)) := by
  induction n generalizing depth with
  | zero =>
    obtain ⟨depth, rfl⟩ : ∃ more, depth = more + 1 := ⟨depth - 1, by omega⟩
    exact .list (.none .nil)
  | succ n ih =>
    obtain ⟨depth, rfl⟩ : ∃ more, depth = more + 1 := ⟨depth - 1, by omega⟩
    have inside : Divided (Taken depth) [lists n] ([] ++ (brackets (n + 1) ++ [])) :=
      .one .nil (ih (by omega)) .nil
    have taken := Taken.list (.some inside)
    have text : brackets (n + 1 + 1) = '[' :: (brackets (n + 1) ++ [']']) := by
      unfold brackets
      rw [List.replicate_succ, List.replicate_succ' (n := n + 1) (a := ']')]
      simp
    rw [text, lists]
    simpa using taken

theorem nested_lists {n depth : Nat} : Nested depth (lists n) ↔ n < depth := by
  induction n generalizing depth with
  | zero => cases depth <;> simp [lists, Nested]
  | succ n ih => cases depth <;> simp [lists, Nested, ih]

theorem ofMessage_brackets {n : Nat} (deep : n < depthLimit) :
    ofMessage (String.ofList (brackets (n + 1))) = lists n := by
  have read := (taken_brackets deep).read_whole .nil .nil
  rw [List.nil_append, List.append_nil] at read
  unfold ofMessage
  rw [read]

end Json

namespace Log

namespace Entry

/-- A value that comes from elsewhere keeps its keys apart, and its doubles are of the format. What is
read of a text does so by itself. -/
def Sane : Entry → Prop
  | text _ _ _ => True
  | value body _ _ => Proper body ∧ KeysDistinct body

theorem Sane.proper {entry : Entry} (sane : entry.Sane) : Proper entry.record := by
  have body : Proper entry.body := by
    cases entry with
    | text message source now => exact Json.proper_ofMessage message
    | value body source now => exact sane.1
  refine .obj fun member isIn => ?_
  simp only [List.mem_cons, List.not_mem_nil, or_false] at isIn
  rcases isIn with rfl | rfl | rfl
  · exact body
  · exact .str _
  · exact .str _

theorem Sane.distinct {entry : Entry} (sane : entry.Sane) : KeysDistinct entry.record := by
  have body : KeysDistinct entry.body := by
    cases entry with
    | text message source now => exact Json.keysDistinct_ofMessage message
    | value body source now => exact sane.2
  refine .obj (by simp) fun member isIn => ?_
  simp only [List.mem_cons, List.not_mem_nil, or_false] at isIn
  rcases isIn with rfl | rfl | rfl
  · exact body
  · exact .str _
  · exact .str _

/-- A record is one container deeper than its message. -/
theorem nested_record (entry : Entry) (depth : Nat) :
    Nested (depth + 1) entry.record ↔ Nested depth entry.body := by
  simp [record, Nested]

end Entry

/-- The list of the records. -/
def recordList (entries : List Entry) : Json := .arr (entries.map Entry.record)

theorem nested_recordList (entries : List Entry) (depth : Nat) :
    Nested (depth + 2) (recordList entries) ↔ ∀ entry ∈ entries, Nested depth entry.body := by
  simp [recordList, Nested, Entry.nested_record]

/-- The text of the list is taken for the list with its doubles reread, if the reader goes as deep. -/
theorem taken_listText {entries : List Entry} (sane : ∀ entry ∈ entries, entry.Sane) {depth : Nat}
    (nested : Nested depth (recordList entries)) :
    Taken depth (Json.reread (recordList entries)) (listText entries) := by
  cases depth with
  | zero => exact absurd nested (by simp [recordList, Nested])
  | succ depth =>
    rw [recordList, Json.reread, Json.rereadItems_eq, List.map_map]
    cases entries with
    | nil => exact .list (.none (Json.blank_newline 0))
    | cons entry entries =>
      have each : ∀ other ∈ entry :: entries,
          Taken depth (Json.reread other.record) (Json.printPretty 0 other.record) :=
        fun other isIn => Json.taken_pretty (nested _ (List.mem_map_of_mem isIn))
          (sane other isIn).proper (sane other isIn).distinct 0
      have enclosed : Enclosed '[' ']' (fun other : Entry => Taken depth (Json.reread other.record))
          (entry :: entries) _ :=
        .some (Divided.ofPrinted (Json.blank_newline 0) (Json.blank_newline 0) each)
      have taken := Taken.list (enclosed.map (Json.reread ∘ Entry.record) fun _ _ taken => taken)
      simpa [listText, Json.newline] using taken

/-- A closed log is read if and only if no message has more than 125 containers inside each other, and
then as the list of its records with their doubles reread. -/
theorem Holds.read_closed_iff {log : Log} {entries : List Entry} (holds : log.Holds entries)
    (sane : ∀ entry ∈ entries, entry.Sane) (value : Json) :
    Json.read log.closed = .ok value ↔
      (∀ entry ∈ entries, Nested 125 entry.body) ∧ value = Json.reread (recordList entries) := by
  have proper : Proper (recordList entries) := by
    refine .arr fun record isIn => ?_
    obtain ⟨entry, isEntry, rfl⟩ := List.mem_map.mp isIn
    exact (sane entry isEntry).proper
  have read := Json.read_iff_of_taken (fun depth => Json.nested_reread depth (recordList entries))
    proper (fun _ => taken_listText sane) .nil (Json.blank_newline 0) value
  rw [List.nil_append, ← closedText_eq, ← holds.closed_eq, Json.depthLimit,
    nested_recordList entries 125] at read
  exact read

end Log
end TelemetryHub
